import RooTesting.PicoOwnership

/-! # Complete publication

While publications are under way, every driven pin either shows its drive or is still
ahead of one of them. An operation called from a device publishes what it changes itself,
and a publication under way writes what the drive is when it comes to a pin. -/
namespace RooTesting.PicoBoard
open Transition

/-- The publication has the pin still before it. -/
def Frame.due (b : Board) (pin : ℕ) (f : Frame) : Prop :=
  f.pin ≤ pin ∧ f.task.selects b pin = true

/-- The publications of slices among those under way. -/
def sliceCount : List Frame → ℕ
  | [] => 0
  | ⟨.drives _ _, _, _⟩ :: frames => sliceCount frames
  | ⟨.slice _, _, _⟩ :: frames => sliceCount frames + 1

structure Told (s : Session) : Prop where
  owned : Owned s.board
  slices : sliceCount s.frames = s.board.publishingPwm.toNat
  shown : ∀ pin, pin < gpioCount → ∀ signal, s.board.drive pin = some signal →
    s.board.lastSignal pin = some signal ∨ ∃ f ∈ s.frames, f.due s.board pin

/-- A driven pin is muxed to SIO or PWM. -/
theorem function_of_drive {b : Board} {pin : ℕ} {signal : VoltageSignal}
    (h : b.drive pin = some signal) :
    (b.pins pin).function = .pwm ∨ (b.pins pin).function = .sio := by
  by_cases hpwm : (b.pins pin).function = .pwm
  · exact Or.inl hpwm
  · right
    by_contra hsio
    simp [Board.drive, Board.pinDrive, hpwm, strongLevel, hsio] at h

/-- No bus owns a driven pin, so `publish` skips none. -/
theorem Owned.busOwned_of_drive {b : Board} (hb : Owned b) {pin : ℕ} {signal : VoltageSignal}
    (h : b.drive pin = some signal) : b.busOwned pin = false := by
  have hroom : (b.attachments pin).exclusive = false := by
    by_contra hne
    rw [hb.undriven pin (by simpa using hne)] at h
    cases h
  cases hattach : b.attachments pin <;> rw [hattach] at hroom <;>
    rcases function_of_drive h with hfunction | hfunction <;>
    simp_all [Board.busOwned, Attachment.exclusive]

theorem Owned.publishes_eq {b : Board} (hb : Owned b) (pin : ℕ) :
    b.publishes pin = b.drive pin := by
  unfold Board.publishes
  split
  · rename_i hbus
    cases hdrive : b.drive pin with
    | none => rfl
    | some signal =>
      rw [hb.busOwned_of_drive hdrive] at hbus
      cases hbus
  · rfl

theorem selects_congr {b b' : Board} (h : b'.pins = b.pins) (pin : ℕ) (task : Task) :
    task.selects b' pin = task.selects b pin := by
  cases task with
  | drives changed adcPin => rfl
  | slice slice => simp only [Task.selects, h]

theorem due_congr {b b' : Board} (h : b'.pins = b.pins) {pin : ℕ} {f : Frame}
    (hf : f.due b pin) : f.due b' pin :=
  ⟨hf.1, (selects_congr h pin f.task).trans hf.2⟩

/-- The count depends on the tasks alone. -/
theorem sliceCount_cons_congr {task : Task} {pin pin' : ℕ} {inSink inSink' : Bool}
    {frames : List Frame} :
    sliceCount (⟨task, pin, inSink⟩ :: frames) = sliceCount (⟨task, pin', inSink'⟩ :: frames) := by
  cases task <;> rfl

/-- Without a slice under way the pins of every publication are fixed. -/
theorem due_of_no_slice {b b' : Board} {frames : List Frame} (h : sliceCount frames = 0) {pin : ℕ}
    {f : Frame} (hf : f ∈ frames) (hdue : f.due b pin) : f.due b' pin := by
  induction frames with
  | nil => cases hf
  | cons g frames ih =>
    obtain ⟨task, next, inSink⟩ := g
    cases task with
    | drives changed adcPin =>
      rcases List.mem_cons.mp hf with rfl | hf
      · exact hdue
      · exact ih h hf
    | slice slice => simp [sliceCount] at h

theorem start_told : Told Session.start where
  owned := initial_owned
  slices := rfl
  shown := by
    intro pin _ signal h
    exact absurd ((initial_owned.drive_fresh rfl).symm.trans h) (by simp)

section Call

variable {b b' : Board} {frames : List Frame}

theorem Told.steady (hs : Told ⟨b, frames⟩) (h : Steady b b') : Told ⟨b', frames⟩ where
  owned := h.apart.owned hs.owned
  slices := hs.slices.trans (by rw [h.publishing])
  shown := by
    intro pin hpin signal hdrive
    rw [h.drive] at hdrive
    rcases hs.shown pin hpin signal hdrive with hshown | ⟨f, hf, hdue⟩
    · left
      rw [← hshown]
      simp only [Board.lastSignal, h.gpio]
    · exact Or.inr ⟨f, hf, due_congr h.pins hdue⟩

/-- A device goes to pins that have no drive yet. -/
theorem Told.attached (hs : Told ⟨b, frames⟩) {claim : Claim} {on : ℕ → Prop}
    (h : Attached b b' claim on) : Told ⟨b', frames⟩ where
  owned := h.owned hs.owned
  slices := hs.slices.trans (by rw [h.publishing])
  shown := by
    intro pin hpin signal hdrive
    have hsame : b.drive pin = some signal := by
      rw [← hdrive]
      simp only [Board.drive, Board.pinDrive, h.pins, h.pwms]
    have hoff : ¬on pin := by
      intro hon
      rw [hs.owned.drive_fresh (h.free pin hon).1] at hsame
      cases hsame
    rcases hs.shown pin hpin signal hsame with hshown | ⟨f, hf, hdue⟩
    · exact Or.inl ((h.retained pin hoff).trans hshown)
    · exact Or.inr ⟨f, hf, due_congr h.pins hdue⟩

/-- Pins whose drive changes are all before the new publication. -/
theorem Told.updated (hs : Told ⟨b, frames⟩) {changed : BitVec 32} {adcPin : Option ℕ}
    (h : Updated b b' changed) : Told ⟨b', ⟨.drives changed adcPin, 0, false⟩ :: frames⟩ := by
  have hslices : sliceCount frames = 0 := hs.slices.trans (by rw [h.idle]; rfl)
  constructor
  · exact h.owned hs.owned
  · exact hslices.trans (by rw [h.publishing]; rfl)
  · intro pin hpin signal hdrive
    by_cases hsame : b'.drive pin = b.drive pin
    · rw [hsame] at hdrive
      rcases hs.shown pin hpin signal hdrive with hshown | ⟨f, hf, hdue⟩
      · left
        rw [← hshown]
        simp only [Board.lastSignal, h.gpio]
      · exact Or.inr ⟨f, List.mem_cons_of_mem _ hf, due_of_no_slice hslices hf hdue⟩
    · exact Or.inr ⟨_, List.mem_cons_self, Nat.zero_le pin, h.changed pin hsame⟩

theorem Told.sliced (hs : Told ⟨b, frames⟩) {slice : ℕ} (h : Sliced b b' slice) :
    Told ⟨b', ⟨.slice slice, 0, false⟩ :: frames⟩ := by
  have hslices : sliceCount frames = 0 := hs.slices.trans (by rw [h.idle]; rfl)
  constructor
  · exact h.owned hs.owned
  · simp [sliceCount, hslices, h.publishing]
  · intro pin hpin signal hdrive
    by_cases hsame : b'.drive pin = b.drive pin
    · rw [hsame] at hdrive
      rcases hs.shown pin hpin signal hdrive with hshown | ⟨f, hf, hdue⟩
      · left
        rw [← hshown]
        simp only [Board.lastSignal, h.gpio]
      · exact Or.inr ⟨f, List.mem_cons_of_mem _ hf, due_congr h.pins hdue⟩
    · obtain ⟨hfunction, hslice⟩ := h.changed pin hsame
      refine Or.inr ⟨_, List.mem_cons_self, Nat.zero_le pin, ?_⟩
      simp [Task.selects, h.pins, hfunction, hslice]

end Call

theorem Told.call {fixture : Fixture} {s : Session} (hs : Told s) (op : Op) :
    Told (s.call fixture op) := by
  unfold Session.call
  split
  · rename_i b' hop
    cases perform_effect hop with
    | steady h => exact hs.steady h
    | attached h => exact hs.attached h
  · rename_i b' task hop
    cases perform_effect hop with
    | updated h => exact hs.updated h
    | sliced h => exact hs.sliced h
  · exact hs

section Visit

variable {b : Board} {f : Frame} {frames : List Frame}

theorem Told.write (hs : Told ⟨b, f :: frames⟩) {signal : VoltageSignal}
    (hdrive : b.drive f.pin = some signal) :
    Told ⟨b.write f.pin signal, ⟨f.task, f.pin + 1, true⟩ :: frames⟩ := by
  have hapart := write_apart b f.pin signal
  constructor
  · exact hapart.owned hs.owned
  · exact sliceCount_cons_congr.trans hs.slices
  · intro pin hpin v hv
    rw [hapart.drive] at hv
    by_cases hself : pin = f.pin
    · subst hself
      rw [hdrive] at hv
      obtain rfl := Option.some.inj hv
      simp [Board.lastSignal, Board.write]
    · rcases hs.shown pin hpin v hv with hshown | ⟨g, hg, hdue⟩
      · left
        rw [← hshown]
        simp [Board.lastSignal, Board.write, Function.update_of_ne hself]
      · right
        rcases List.mem_cons.mp hg with rfl | hg
        · refine ⟨_, List.mem_cons_self, ?_, (due_congr hapart.pins hdue).2⟩
          have hle := hdue.1
          simp only
          omega
        · exact ⟨g, List.mem_cons_of_mem _ hg, due_congr hapart.pins hdue⟩

/-- A pin the loop passes over is not one of its pins, or has no drive. -/
theorem Told.skip (hs : Told ⟨b, f :: frames⟩)
    (hskip : f.task.selects b f.pin = true → b.drive f.pin = none) :
    Told ⟨b, ⟨f.task, f.pin + 1, false⟩ :: frames⟩ := by
  constructor
  · exact hs.owned
  · exact sliceCount_cons_congr.trans hs.slices
  · intro pin hpin v hv
    rcases hs.shown pin hpin v hv with hshown | ⟨g, hg, hdue⟩
    · exact Or.inl hshown
    · right
      rcases List.mem_cons.mp hg with rfl | hg
      · refine ⟨_, List.mem_cons_self, ?_, hdue.2⟩
        have hne : pin ≠ g.pin := by
          rintro rfl
          have hnone := hskip hdue.2
          rw [hnone] at hv
          cases hv
        have hle := hdue.1
        simp only
        omega
      · exact ⟨g, List.mem_cons_of_mem _ hg, hdue⟩

theorem Told.finish (hs : Told ⟨b, f :: frames⟩) (hend : gpioCount ≤ f.pin) :
    Told ⟨f.task.finish b, frames⟩ := by
  have hapart := finish_apart b f.task
  constructor
  · exact hapart.owned hs.owned
  · obtain ⟨task, pin, inSink⟩ := f
    have hcount := hs.slices
    cases task with
    | drives changed adcPin => cases adcPin <;> exact hcount
    | slice slice =>
      have hle := Bool.toNat_le b.publishingPwm
      simp only [sliceCount] at hcount
      show sliceCount frames = 0
      omega
  · intro pin hpin v hv
    rw [hapart.drive] at hv
    rcases hs.shown pin hpin v hv with hshown | ⟨g, hg, hdue⟩
    · left
      rw [← hshown]
      cases htask : f.task with
      | drives changed adcPin => cases adcPin <;> rfl
      | slice slice => rfl
    · rcases List.mem_cons.mp hg with rfl | hg
      · have hle := hdue.1
        omega
      · exact Or.inr ⟨g, hg, due_congr hapart.pins hdue⟩

theorem Told.visit (hs : Told ⟨b, f :: frames⟩) : Told (Session.visit b f frames) := by
  unfold Session.visit
  split
  · split
    · rename_i signal hsignal
      simp only [Option.ite_none_right_eq_some, hs.owned.publishes_eq] at hsignal
      exact hs.write hsignal.2
    · rename_i hnone
      refine hs.skip fun hselects => ?_
      rwa [if_pos hselects, hs.owned.publishes_eq] at hnone
  · rename_i hend
    exact hs.finish (by omega)

end Visit

variable {fixture : Fixture}

theorem step_told : Preserves (step fixture) Told := by
  intro s e s' h hs
  cases e with
  | call op =>
    obtain ⟨-, rfl⟩ := step_call h
    exact hs.call op
  | visit =>
    obtain ⟨f, frames, hframes, -, rfl⟩ := step_visit h
    obtain ⟨b, _⟩ := s
    subst hframes
    exact hs.visit
  | sinkReturns =>
    obtain ⟨f, frames, hframes, rfl⟩ := step_sinkReturns h
    obtain ⟨b, _⟩ := s
    subst hframes
    refine ⟨hs.owned, sliceCount_cons_congr.trans hs.slices, fun pin hpin signal hdrive => ?_⟩
    refine (hs.shown pin hpin signal hdrive).imp_right ?_
    rintro ⟨g, hg, hdue⟩
    rcases List.mem_cons.mp hg with rfl | hg
    · exact ⟨_, List.mem_cons_self, hdue⟩
    · exact ⟨g, List.mem_cons_of_mem _ hg, hdue⟩

/-- When no operation is under way any more, every driven pin shows its drive, whatever
the devices did to the board during the publications. -/
theorem publication_complete {es : List Event} {s : Session}
    (h : run (step fixture) Session.start es = some s) (hdone : s.frames = []) {pin : ℕ}
    (hpin : pin < gpioCount) {signal : VoltageSignal} (hdrive : s.board.drive pin = some signal) :
    s.board.busOwned pin = false ∧ s.board.lastSignal pin = some signal := by
  have htold := step_told.run h start_told
  refine ⟨htold.owned.busOwned_of_drive hdrive, ?_⟩
  rcases htold.shown pin hpin signal hdrive with hshown | ⟨f, hf, -⟩
  · exact hshown
  · rw [hdone] at hf
    exact absurd hf List.not_mem_nil

/-- What a publication has left to do, when its devices call nothing. -/
def Frame.left (f : Frame) : ℕ := 2 * (gpioCount - f.pin) + f.inSink.toNat + 1

def Session.left (s : Session) : ℕ := (s.frames.map Frame.left).sum

theorem visit_left {b : Board} {f : Frame} {frames : List Frame} (h : f.inSink = false) :
    (Session.visit b f frames).left < Session.left ⟨b, f :: frames⟩ := by
  unfold Session.visit
  split
  · split <;> simp [Session.left, Frame.left, h] <;> omega
  · simp [Session.left, Frame.left]

theorem progress (s : Session) (h : s.frames ≠ []) :
    ∃ e s', (e = .visit ∨ e = .sinkReturns) ∧ step fixture s e = some s' ∧ s'.left < s.left := by
  obtain ⟨b, frames⟩ := s
  cases frames with
  | nil => exact absurd rfl h
  | cons f frames =>
    cases hsink : f.inSink with
    | false =>
      refine ⟨.visit, _, Or.inl rfl, ?_, visit_left hsink⟩
      simp [step, hsink]
    | true =>
      refine ⟨.sinkReturns, ⟨b, ⟨f.task, f.pin, false⟩ :: frames⟩, Or.inr rfl, ?_, ?_⟩
      · simp [step, hsink]
      · simp [Session.left, Frame.left, hsink]

/-- Every operation returns once the devices stop calling the board. -/
theorem publications_end (s : Session) :
    ∃ es s', (∀ e ∈ es, e = .visit ∨ e = .sinkReturns) ∧
      run (step fixture) s es = some s' ∧ s'.frames = [] := by
  induction hleft : s.left using Nat.strong_induction_on generalizing s with
  | _ n ih =>
    by_cases hdone : s.frames = []
    · exact ⟨[], s, by simp, rfl, hdone⟩
    · obtain ⟨e, s', he, hstep, hless⟩ := progress s hdone
      obtain ⟨es, z, hes, hrun, hz⟩ := ih s'.left (hleft ▸ hless) s' rfl
      refine ⟨e :: es, z, ?_, run_cons_eq_some.mpr ⟨s', hstep, hrun⟩, hz⟩
      intro g hg
      rcases List.mem_cons.mp hg with rfl | hg
      · exact he
      · exact hes g hg

/-- Pins 2 and 3 become outputs; the device on pin 2 raises pin 3, and the publication
under way then comes to the pin that has just been published. -/
def nestedUpdates : List Event :=
  List.flatten [[.call (.setFunction 0xC .sio)], List.replicate 31 .visit,
    [.call (.setDirection 0xC 0xC)], List.replicate 3 .visit,
    [.call (.put 0x8 0x8)], List.replicate 4 .visit, [.sinkReturns],
    List.replicate 27 .visit, [.sinkReturns, .visit, .sinkReturns], List.replicate 27 .visit]

theorem publication_complete_nestedUpdates :
    ∃ s, run (step ⟨false, fun _ => 8, id⟩) Session.start nestedUpdates = some s ∧
      s.board.lastSignal 3 = some (.constant (railVoltage true)) := by
  have hend : (run (step ⟨false, fun _ => 8, id⟩) Session.start nestedUpdates).map
      (fun s => (s.frames.length, s.board.drive 3)) =
      some (0, some (.constant (railVoltage true))) := by
    decide +kernel
  obtain ⟨s, hrun, hs⟩ := Option.map_eq_some_iff.mp hend
  obtain ⟨hframes, hdrive⟩ := Prod.mk.inj hs
  have hdone := List.length_eq_zero_iff.mp hframes
  have hpin : 3 < gpioCount := by decide
  have hshown := publication_complete hrun hdone hpin hdrive
  exact ⟨s, hrun, hshown.2⟩

end RooTesting.PicoBoard
