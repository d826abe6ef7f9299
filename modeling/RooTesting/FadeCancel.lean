import RooTesting.FadeDelivery
import RooTesting.FadeDuty

/-! # Cancelling a fade

The engine under any number of threads and a clock that never runs backwards. A fade that waits
for its delivery shows its target; a cancellation computes the duty anew. -/
namespace RooTesting.FadeEngine
open Transition Threads

structure Timed where
  system : System
  uptimeUs : ℤ

inductive Occurrence where
  | advance (uptimeUs : ℤ)
  | thread (t : ℕ) (a : Event)

/-- `Start` has read the clock before it takes the lock, `Cancel` reads it inside, and the alarm
of a fade runs at its deadline or later. -/
def timely (x : Timed) : Event → Bool
  | .start _ nowUs => nowUs ≤ x.uptimeUs
  | .cancel _ nowUs => nowUs = x.uptimeUs
  | .deadline index generation =>
    let c := x.system.shared.channels index
    c.generation ≠ generation || c.fadeStartUs + c.request.durationUs ≤ x.uptimeUs
  | _ => true

def timedStep (x : Timed) : Occurrence → Option Timed
  | .advance uptimeUs => if x.uptimeUs ≤ uptimeUs then some { x with uptimeUs := uptimeUs } else none
  | .thread t a =>
    if timely x a then (fire step x.system (t, a)).map fun system => { x with system := system }
    else none

def timedStart : Timed := ⟨start, 0⟩

/-- A fade that waits for its delivery shows its target, and there is nothing left to fade. -/
def Due (uptimeUs : ℤ) (c : Channel) : Prop :=
  c.state = .queued → c.duty = c.request.targetDuty ∧
    (c.request.immediate = true ∨ c.fadeStartUs + c.request.durationUs ≤ uptimeUs)

theorem Due.mono {uptimeUs uptimeUs' : ℤ} {c : Channel} (h : Due uptimeUs c)
    (hle : uptimeUs ≤ uptimeUs') : Due uptimeUs' c :=
  fun hqueued => ⟨(h hqueued).1, (h hqueued).2.imp_right fun hend => hend.trans hle⟩

section Sections

variable {e e' : Engine} {uptimeUs : ℤ}

theorem due_setChannel (h : ∀ i, Due uptimeUs (e.channels i)) {index : ℕ} {c : Channel}
    (hc : Due uptimeUs c) : ∀ i, Due uptimeUs ((e.setChannel index c).channels i) := by
  intro i
  rw [channels_setChannel, Function.update_apply]
  split
  · exact hc
  · exact h i

theorem due_start (h : ∀ i, Due uptimeUs (e.channels i)) {r : Request} {nowUs : ℤ}
    {result : ℕ × Bool × Engine} (hstart : e.start r nowUs = some result) :
    ∀ i, Due uptimeUs (result.2.2.channels i) := by
  unfold Engine.start at hstart
  dsimp only at hstart
  split at hstart
  swap
  · cases hstart
  split at hstart
  · rename_i himmediate
    cases hstart
    exact due_setChannel h fun _ => ⟨rfl, .inl himmediate⟩
  · cases hstart
    exact due_setChannel h nofun

theorem due_cancel (h : ∀ i, Due uptimeUs (e.channels i)) {index : ℕ} {nowUs : ℤ}
    {result : ℕ × Bool × Engine} (hcancel : e.cancel index nowUs = some result) :
    ∀ i, Due uptimeUs (result.2.2.channels i) := by
  unfold Engine.cancel at hcancel
  dsimp only at hcancel
  split at hcancel
  · cases hcancel
    exact due_setChannel h nofun
  · cases hcancel

theorem due_deadline (h : ∀ i, Due uptimeUs (e.channels i)) {index generation : ℕ}
    {result : Bool × Engine} (hdeadline : e.deadline index generation = some result)
    (htimely : (e.channels index).generation = generation →
      (e.channels index).fadeStartUs + (e.channels index).request.durationUs ≤ uptimeUs) :
    ∀ i, Due uptimeUs (result.2.channels i) := by
  unfold Engine.deadline at hdeadline
  dsimp only at hdeadline
  split at hdeadline
  · rename_i hcurrent
    cases hdeadline
    exact due_setChannel h fun _ => ⟨rfl, .inr (htimely hcurrent.1)⟩
  · cases hdeadline

theorem due_storeAlarm (h : ∀ i, Due uptimeUs (e.channels i)) (channel generation alarm : ℕ) :
    ∀ i, Due uptimeUs ((e.storeAlarm channel generation alarm).channels i) := by
  unfold Engine.storeAlarm
  dsimp only
  split
  · exact due_setChannel h (h channel)
  · exact h

theorem due_finalize (h : ∀ i, Due uptimeUs (e.channels i)) (item : Delivery) :
    ∀ i, Due uptimeUs ((e.finalize item).2.channels i) := by
  unfold Engine.finalize
  dsimp only
  split
  · exact due_setChannel h nofun
  · exact h

theorem due_takeCompletion (h : ∀ i, Due uptimeUs (e.channels i)) {index : ℕ}
    {result : Completion × Engine} (htake : e.takeCompletion index = some result) :
    ∀ i, Due uptimeUs (result.2.channels i) := by
  unfold Engine.takeCompletion at htake
  dsimp only at htake
  split at htake
  · cases htake
    exact due_setChannel h nofun
  · cases htake

theorem pop_channels : (∀ {item}, e.pop = .take item e' → e'.channels = e.channels) ∧
    (e.pop = .skip e' → e'.channels = e.channels) := by
  obtain ⟨hstop, -⟩ | ⟨item, rest, -, -, htake | hskip⟩ := pop_cases (e := e)
  · rw [hstop]
    exact ⟨nofun, nofun⟩
  · rw [htake]
    refine ⟨?_, nofun⟩
    intro item' heq
    cases heq
    rfl
  · rw [hskip]
    refine ⟨nofun, ?_⟩
    intro heq
    cases heq
    rfl

theorem due_resume (h : ∀ i, Due uptimeUs (e.channels i)) {active : Bool} {rest : List Frame}
    {f : Frame} {l' : Local} (hresume : resume e active rest f = some (e', l')) :
    ∀ i, Due uptimeUs (e'.channels i) := by
  cases f with
  | startAlarm => cases hresume
  | loop =>
    unfold resume at hresume
    dsimp only at hresume
    split at hresume
    · cases hresume
      exact h
    · rename_i hskip
      cases hresume
      rw [pop_channels.2 hskip]
      exact h
    · rename_i htake
      cases hresume
      rw [pop_channels.1 htake]
      exact h
  | finalize item =>
    cases hresume
    exact due_finalize h item
  | cancelAlarm | drain | write | notify | relinquish =>
    cases hresume
    exact h

theorem due_begin (h : ∀ i, Due uptimeUs (e.channels i)) {l l' : Local} {a : Event}
    (htimely : ∀ index generation, a = .deadline index generation →
      (e.channels index).generation = generation →
      (e.channels index).fadeStartUs + (e.channels index).request.durationUs ≤ uptimeUs)
    (hbegin : begin e l a = some (e', l')) : ∀ i, Due uptimeUs (e'.channels i) := by
  unfold begin at hbegin
  split at hbegin
  · split at hbegin
    · split at hbegin
      · cases hbegin
        exact h
      · rename_i hstart
        cases hbegin
        exact due_start h hstart
    · cases hbegin
      exact h
  · split at hbegin
    · split at hbegin
      · cases hbegin
        exact h
      · rename_i hcancel
        cases hbegin
        exact due_cancel h hcancel
    · cases hbegin
      exact h
  · split at hbegin
    · cases hbegin
      exact h
    · rename_i hdeadline
      cases hbegin
      exact due_deadline h hdeadline (htimely _ _ rfl)
  · rename_i index
    cases hbegin
    cases htake : e.takeCompletion index with
    | none => exact h
    | some result => exact due_takeCompletion h htake
  · cases hbegin
    exact h
  · cases hbegin

theorem due_step (h : ∀ i, Due uptimeUs (e.channels i)) {l l' : Local} {a : Event}
    (htimely : ∀ index generation, a = .deadline index generation →
      (e.channels index).generation = generation →
      (e.channels index).fadeStartUs + (e.channels index).request.durationUs ≤ uptimeUs)
    (hstep : step a e l = some (e', l')) : ∀ i, Due uptimeUs (e'.channels i) := by
  unfold step at hstep
  split at hstep
  · exact due_resume h hstep
  · cases hstep
  · cases hstep
    exact due_storeAlarm h _ _ _
  · split at hstep
    · exact due_begin h htimely hstep
    · cases hstep

end Sections

theorem timedStep_due : Preserves timedStep fun x =>
    ∀ i, Due x.uptimeUs (x.system.shared.channels i) := by
  intro x o x' hstep h
  cases o with
  | advance uptimeUs =>
    rw [timedStep] at hstep
    split at hstep
    · rename_i hle
      cases hstep
      exact fun i => (h i).mono hle
    · cases hstep
  | thread t a =>
    rw [timedStep] at hstep
    split at hstep
    swap
    · cases hstep
    rename_i htimely
    obtain ⟨system, hfire, rfl⟩ := Option.map_eq_some_iff.mp hstep
    obtain ⟨e', l', hnext, rfl⟩ := fire_eq_some.mp hfire
    refine due_step h ?_ hnext
    rintro index generation rfl hcurrent
    simp only [timely, Bool.or_eq_true, decide_eq_true_eq] at htimely
    exact htimely.resolve_left fun hne => hne hcurrent

/-- A fade between equal duties has one duty only. -/
theorem materialize_equal {r : Request} (h : r.startDuty = r.targetDuty) (elapsedUs : ℤ) :
    materialize r elapsedUs = r.targetDuty := by
  unfold materialize
  split
  · exact h
  split
  · rfl
  · rw [if_pos h.le, h, Nat.sub_self, Nat.zero_mul, Nat.zero_mod, Nat.zero_div]
    rfl

theorem materialize_zero {r : Request} (h : r.durationUs = 0) (elapsedUs : ℤ) :
    materialize r elapsedUs = r.startDuty := by
  unfold materialize
  rw [if_pos (.inl h)]

/-- The duty computed anew is the shown one, unless the fade waits and has no duration. -/
theorem Due.materialize_iff {uptimeUs : ℤ} {c : Channel} (h : Due uptimeUs c)
    (hlive : c.state = .armed ∨ c.state = .queued) :
    materialize c.request (uptimeUs - c.fadeStartUs) =
      (if c.state = .armed then materialize c.request (uptimeUs - c.fadeStartUs) else c.duty) ↔
    ¬ (c.state = .queued ∧ c.request.durationUs = 0 ∧
      c.request.startDuty ≠ c.request.targetDuty) := by
  obtain harmed | hqueued := hlive
  · rw [if_pos harmed, harmed]
    exact iff_of_true rfl nofun
  · rw [if_neg (by rw [hqueued]; nofun), (h hqueued).1]
    by_cases hzero : c.request.durationUs = 0
    · rw [materialize_zero hzero]
      simp [hqueued, hzero]
    · refine iff_of_true ?_ fun hbad => hzero hbad.2.1
      obtain himmediate | hend := (h hqueued).2
      · simp only [Request.immediate, Bool.or_eq_true, decide_eq_true_eq] at himmediate
        exact materialize_equal (himmediate.resolve_left hzero) _
      · exact materialize_after (Nat.pos_of_ne_zero hzero) (by omega)

/-- In every reachable state, a cancellation of a fade stores the duty that it also publishes;
that is the duty shown before, except for a fade without duration that waits for its delivery. -/
theorem cancel_freezes {occurrences : List Occurrence} {x : Timed}
    (hrun : run timedStep timedStart occurrences = some x) {index : ℕ} (hindex : index < kChannels)
    (hlive : (x.system.shared.channels index).state = .armed ∨
      (x.system.shared.channels index).state = .queued) :
    ∃ alarm drainNow e' item,
      x.system.shared.cancel index x.uptimeUs = some (alarm, drainNow, e') ∧
      e'.delivery = x.system.shared.delivery ++ [item] ∧
      item.pin = (x.system.shared.channels index).request.pin ∧
      (∀ t, item.signal.ticks (period (x.system.shared.channels index).request.resolution) t =
        ((e'.channels index).duty : ℤ)) ∧
      ((e'.channels index).duty = (x.system.shared.snapshot index x.uptimeUs).duty ↔
        ¬ ((x.system.shared.channels index).state = .queued ∧
          (x.system.shared.channels index).request.durationUs = 0 ∧
          (x.system.shared.channels index).request.startDuty ≠
            (x.system.shared.channels index).request.targetDuty)) := by
  have hdue := timedStep_due.run hrun (fun i => by intro hqueued; cases hqueued) index
  unfold Engine.cancel
  dsimp only
  rw [if_pos hlive]
  refine ⟨_, _, _, _, rfl, rfl, rfl, fun t => ?_, ?_⟩
  · simp only [channels_setChannel, Function.update_self]
    exact ticks_constant (Nat.two_pow_pos _) t
  · simp only [channels_setChannel, Function.update_self]
    rw [Engine.snapshot, if_neg (Nat.not_le.mpr hindex)]
    exact hdue.materialize_iff hlive

def fadeRequest (channel durationUs : ℕ) : Request :=
  { emptyRequest with
    channel := channel
    frequencyHz := 5000
    resolution := 8
    targetDuty := 100
    durationUs := durationUs }

/-- A fade of a millisecond, half way through. -/
def halfway : List Occurrence :=
  [.thread 0 (.start (fadeRequest 0 1000) 0), .thread 0 (.scheduled 1), .advance 500]

theorem cancel_freezes_halfway : ∃ x, run timedStep timedStart halfway = some x ∧
    ∃ e', x.system.shared.cancel 0 500 = some (1, false, e') ∧
      (e'.channels 0).duty = (x.system.shared.snapshot 0 500).duty ∧
      (x.system.shared.snapshot 0 500).duty = 50 := by
  refine ⟨_, rfl, ?_⟩
  obtain ⟨alarm, drainNow, e', item, hcancel, -, -, -, hduty⟩ :=
    @cancel_freezes halfway _ rfl 0 (by decide) (.inl rfl)
  obtain ⟨rfl, heq⟩ := Prod.mk.inj (Option.some.inj hcancel)
  obtain ⟨rfl, rfl⟩ := Prod.mk.inj heq
  exact ⟨_, rfl, hduty.mpr (by decide), by decide⟩

/-- While one thread delivers, another starts a fade without duration. -/
def waiting : List Occurrence :=
  [.thread 0 (.start (fadeRequest 0 0) 0), .thread 0 .resume, .thread 0 .resume,
    .thread 1 (.start (fadeRequest 1 0) 0)]

/-- Its target is shown, and its cancellation goes back to its start. -/
theorem cancel_thaws_waiting : ∃ x, run timedStep timedStart waiting = some x ∧
    (x.system.shared.channels 1).state = .queued ∧
    ∃ alarm drainNow e', x.system.shared.cancel 1 0 = some (alarm, drainNow, e') ∧
      (x.system.shared.snapshot 1 0).duty = 100 ∧ (e'.channels 1).duty = 0 :=
  ⟨_, rfl, by decide, _, _, _, rfl, by decide, by decide⟩

end RooTesting.FadeEngine
