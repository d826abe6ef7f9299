import RooTesting.Transition
import RooTesting.WaitTable
import Mathlib.Logic.Function.Basic
import Mathlib.Tactic.Cases
import Mathlib.Algebra.Group.Int.Defs
import Mathlib.Algebra.Group.Nat.Defs

/-! # The condition variable

Waiters register in a table, release the mutex, and block in `xTaskNotifyWait` on the one
notification flag of their task. A timed wait whose block ends without the flag reads the clock,
and takes the mutex and its registration down only later. -/
namespace RooTesting.ConditionVariable
open Transition WaitTable

universe u
variable {τ : Type u}

def kMaxWaitingThreads : ℕ := 8

/-- `portMAX_DELAY`: the block has no end of its own. -/
def portMaxDelay : ℕ := 2 ^ 32 - 1

inductive CvStatus | noTimeout | timeout
  deriving DecidableEq

/-- The ticks left until `deadline`, computed in `uint64_t` and cut down to `TickType_t`. -/
def delayUntil (tickPeriodMs : ℕ) (deadline now : ℤ) : ℕ :=
  let ns := ((deadline - now) % 2 ^ 64).toNat
  let ms := (ns + 999999) % 2 ^ 64 / 1000000
  (ms + tickPeriodMs - 1) / tickPeriodMs % 2 ^ 32

/-- Where a task is in its wait. -/
inductive Stage
  | queued (delay : ℕ)
  | waiting (delay : ℕ)
  | missed
  | leaving (status : CvStatus)
  | relocked (status : CvStatus)
  deriving DecidableEq

inductive Call | one | all
  deriving DecidableEq

/-- A wait, and the notification that took its registration with the stage it found. -/
structure Wait where
  deadline : Option ℤ
  stage : Stage
  hit : Option (Call × Stage)
  deriving DecidableEq

structure State (τ : Type u) where
  slots : Slots τ
  owner : Option τ
  flag : τ → Bool
  wait : τ → Option Wait
  returned : List Wait

def start : State τ where
  slots := List.replicate kMaxWaitingThreads none
  owner := none
  flag := fun _ => false
  wait := fun _ => none
  returned := []

inductive Action (τ : Type u)
  | lock (t : τ)
  | unlock (t : τ)
  | wait (t : τ)
  | waitUntil (t : τ) (deadline now : ℤ)
  | block (t : τ)
  | wake (t : τ)
  | readClock (t : τ) (now : ℤ)
  | relock (t : τ)
  | leave (t : τ)
  | notifyOne (priority : τ → ℕ)
  | notifyAll
  | notifyElsewhere (t : τ)
  | clearElsewhere (t : τ)

/-- The wait has not made up its mind. -/
def Stage.Undecided : Stage → Prop
  | .queued _ => True
  | .waiting _ => True
  | .missed => True
  | .leaving _ => False
  | .relocked _ => False

/-- The task is before or inside its `xTaskNotifyWait`. -/
def Stage.Pending : Stage → Prop
  | .queued _ => True
  | .waiting _ => True
  | .missed => False
  | .leaving _ => False
  | .relocked _ => False

def Stage.TimedOut : Stage → Prop
  | .queued _ => False
  | .waiting _ => False
  | .missed => False
  | .leaving status => status = .timeout
  | .relocked status => status = .timeout

instance : DecidablePred Stage.TimedOut
  | .queued _ => isFalse id
  | .waiting _ => isFalse id
  | .missed => isFalse id
  | .leaving status => inferInstanceAs (Decidable (status = .timeout))
  | .relocked status => inferInstanceAs (Decidable (status = .timeout))

/-- `xTaskNotify` on a task whose registration the call takes. -/
def hitBy (call : Call) (w : Wait) : Wait := { w with hit := some (call, w.stage) }

variable [DecidableEq τ]

def State.notify (call : Call) (s : State τ) (t : τ) : State τ :=
  { s with
    flag := Function.update s.flag t true
    wait := Function.update s.wait t ((s.wait t).map (hitBy call)) }

/-- The critical section at the head of a wait; without a free slot the process ends. -/
def State.register (s : State τ) (me : τ) (deadline : Option ℤ) (delay : ℕ) : Option (State τ) :=
  if s.owner = some me ∧ s.wait me = none then
    (enqueue me s.slots).map fun slots =>
      { s with
        slots := slots
        owner := none
        wait := Function.update s.wait me (some ⟨deadline, .queued delay, none⟩) }
  else none

def State.move (s : State τ) (t : τ) (w : Wait) (stage : Stage) : State τ :=
  { s with wait := Function.update s.wait t (some { w with stage := stage }) }

/-- The second critical section of `xTaskNotifyWait`. -/
def State.wake (s : State τ) (t : τ) (w : Wait) (delay : ℕ) : Option (State τ) :=
  if s.flag t = true then
    some { s.move t w (.leaving .noTimeout) with flag := Function.update s.flag t false }
  else if delay = portMaxDelay then none
  else some (s.move t w .missed)

def State.readClock (s : State τ) (tickPeriodMs : ℕ) (t : τ) (w : Wait) (deadline now : ℤ) :
    State τ :=
  s.move t w (if deadline ≤ now then .leaving .timeout
    else .queued (delayUntil tickPeriodMs deadline now))

def State.relock (s : State τ) (t : τ) (w : Wait) (status : CvStatus) : Option (State τ) :=
  if s.owner = none then some { s.move t w (.relocked status) with owner := some t } else none

def State.leave (s : State τ) (t : τ) (w : Wait) : State τ :=
  { s with
    slots := dequeue t s.slots
    wait := Function.update s.wait t none
    returned := w :: s.returned }

def State.notifyOne (s : State τ) (priority : τ → ℕ) : State τ :=
  match pick priority s.slots with
  | none => s
  | some (i, t) => { s.notify .one t with slots := s.slots.set i none }

/-- One turn of the loop of `notify_all`. -/
def State.notifySlot (s : State τ) (i : ℕ) : State τ :=
  match s.slots[i]? with
  | some (some t) => { s.notify .all t with slots := s.slots.set i none }
  | _ => s

def State.notifyAll (s : State τ) : State τ :=
  (List.range s.slots.length).foldl State.notifySlot s

def step (tickPeriodMs : ℕ) (s : State τ) : Action τ → Option (State τ)
  | .lock t => if s.owner = none ∧ s.wait t = none then some { s with owner := some t } else none
  | .unlock t => if s.owner = some t ∧ s.wait t = none then some { s with owner := none } else none
  | .wait t => s.register t none portMaxDelay
  | .waitUntil t deadline now =>
      s.register t (some deadline) (delayUntil tickPeriodMs deadline now)
  | .block t =>
      match s.wait t with
      | some w => match w.stage with
        | .queued delay => some (s.move t w (.waiting delay))
        | _ => none
      | none => none
  | .wake t =>
      match s.wait t with
      | some w => match w.stage with
        | .waiting delay => s.wake t w delay
        | _ => none
      | none => none
  | .readClock t now =>
      match s.wait t with
      | some w => match w.stage, w.deadline with
        | .missed, some deadline => some (s.readClock tickPeriodMs t w deadline now)
        | _, _ => none
      | none => none
  | .relock t =>
      match s.wait t with
      | some w => match w.stage with
        | .leaving status => s.relock t w status
        | _ => none
      | none => none
  | .leave t =>
      match s.wait t with
      | some w => match w.stage with
        | .relocked _ => some (s.leave t w)
        | _ => none
      | none => none
  | .notifyOne priority => some (s.notifyOne priority)
  | .notifyAll => some s.notifyAll
  | .notifyElsewhere t => some { s with flag := Function.update s.flag t true }
  | .clearElsewhere t =>
      if s.wait t = none then some { s with flag := Function.update s.flag t false } else none

omit [DecidableEq τ] in
/-- The task sleeps in `xTaskNotifyWait`. -/
def Blocked (s : State τ) (t : τ) : Prop :=
  (∃ w delay, s.wait t = some w ∧ w.stage = .waiting delay) ∧ s.flag t = false

/-- What a step does to one wait that stays the same wait. -/
inductive Advance (tickPeriodMs : ℕ) (s : State τ) (t : τ) (w : Wait) : Action τ → State τ → Prop
  | block {delay : ℕ} (h : w.stage = .queued delay) :
      Advance tickPeriodMs s t w (.block t) (s.move t w (.waiting delay))
  | taken {delay : ℕ} (h : w.stage = .waiting delay) (hflag : s.flag t = true) :
      Advance tickPeriodMs s t w (.wake t)
        { s.move t w (.leaving .noTimeout) with flag := Function.update s.flag t false }
  | missed {delay : ℕ} (h : w.stage = .waiting delay) (hflag : s.flag t = false)
      (hdelay : delay ≠ portMaxDelay) :
      Advance tickPeriodMs s t w (.wake t) (s.move t w .missed)
  | timedOut {deadline now : ℤ} (h : w.stage = .missed) (hd : w.deadline = some deadline)
      (hle : deadline ≤ now) :
      Advance tickPeriodMs s t w (.readClock t now) (s.move t w (.leaving .timeout))
  | again {deadline now : ℤ} (h : w.stage = .missed) (hd : w.deadline = some deadline)
      (hlt : now < deadline) :
      Advance tickPeriodMs s t w (.readClock t now)
        (s.move t w (.queued (delayUntil tickPeriodMs deadline now)))
  | relock {status : CvStatus} (h : w.stage = .leaving status) (hfree : s.owner = none) :
      Advance tickPeriodMs s t w (.relock t)
        { s.move t w (.relocked status) with owner := some t }

/-- Everything a step can do. -/
inductive Effect (tickPeriodMs : ℕ) (s : State τ) : Action τ → State τ → Prop
  | own {e : Action τ} {owner : Option τ} (h : (∃ t, e = .lock t) ∨ ∃ t, e = .unlock t) :
      Effect tickPeriodMs s e { s with owner := owner }
  | register {e : Action τ} {t : τ} {deadline : Option ℤ} {delay : ℕ} {slots : Slots τ}
      (he : e = .wait t ∨ ∃ d now, e = .waitUntil t d now)
      (hidle : s.wait t = none) (h : enqueue t s.slots = some slots) :
      Effect tickPeriodMs s e { s with
        slots := slots
        owner := none
        wait := Function.update s.wait t (some ⟨deadline, .queued delay, none⟩) }
  | advance {e : Action τ} {s' : State τ} {t : τ} {w : Wait} (hw : s.wait t = some w)
      (h : Advance tickPeriodMs s t w e s') : Effect tickPeriodMs s e s'
  | leave {t : τ} {w : Wait} {status : CvStatus} (hw : s.wait t = some w)
      (h : w.stage = .relocked status) : Effect tickPeriodMs s (.leave t) (s.leave t w)
  | notifyOne (priority : τ → ℕ) :
      Effect tickPeriodMs s (.notifyOne priority) (s.notifyOne priority)
  | notifyAll : Effect tickPeriodMs s .notifyAll s.notifyAll
  | flagged (t : τ) :
      Effect tickPeriodMs s (.notifyElsewhere t) { s with flag := Function.update s.flag t true }
  | cleared {t : τ} (h : s.wait t = none) :
      Effect tickPeriodMs s (.clearElsewhere t) { s with flag := Function.update s.flag t false }

theorem register_effect {tickPeriodMs : ℕ} {s s' : State τ} {e : Action τ} {t : τ}
    {deadline : Option ℤ} {delay : ℕ} (he : e = .wait t ∨ ∃ d now, e = .waitUntil t d now)
    (h : s.register t deadline delay = some s') : Effect tickPeriodMs s e s' := by
  obtain ⟨⟨-, hidle⟩, hmap⟩ := Option.ite_none_right_eq_some.mp h
  obtain ⟨slots, hslots, rfl⟩ := Option.map_eq_some_iff.mp hmap
  exact .register he hidle hslots

theorem wake_advance {tickPeriodMs : ℕ} {s s' : State τ} {t : τ} {w : Wait} {delay : ℕ}
    (hstage : w.stage = .waiting delay) (h : s.wake t w delay = some s') :
    Advance tickPeriodMs s t w (.wake t) s' := by
  rw [State.wake] at h
  by_cases hflag : s.flag t = true
  · rw [if_pos hflag] at h
    cases h
    exact .taken hstage hflag
  · obtain ⟨hdelay, h⟩ := Option.ite_none_left_eq_some.mp (if_neg hflag ▸ h)
    cases h
    exact .missed hstage (by simpa using hflag) hdelay

theorem readClock_advance {tickPeriodMs : ℕ} {s : State τ} {t : τ} {w : Wait} {deadline : ℤ}
    (now : ℤ) (hstage : w.stage = .missed) (hd : w.deadline = some deadline) :
    Advance tickPeriodMs s t w (.readClock t now)
      (s.readClock tickPeriodMs t w deadline now) := by
  rw [State.readClock]
  by_cases hle : deadline ≤ now
  · rw [if_pos hle]
    exact .timedOut hstage hd hle
  · rw [if_neg hle]
    exact .again hstage hd (Int.not_le.mp hle)

theorem step_effect {tickPeriodMs : ℕ} {s s' : State τ} {e : Action τ}
    (h : step tickPeriodMs s e = some s') : Effect tickPeriodMs s e s' := by
  cases e with
  | lock t =>
    obtain ⟨-, h⟩ := Option.ite_none_right_eq_some.mp h
    cases h
    exact .own (Or.inl ⟨t, rfl⟩)
  | unlock t =>
    obtain ⟨-, h⟩ := Option.ite_none_right_eq_some.mp h
    cases h
    exact .own (Or.inr ⟨t, rfl⟩)
  | wait t => exact register_effect (Or.inl rfl) h
  | waitUntil t deadline now => exact register_effect (Or.inr ⟨deadline, now, rfl⟩) h
  | block t =>
    rcases hw : s.wait t with _ | w
    · simp [step, hw] at h
    · cases hstage : w.stage <;> simp only [step, hw, hstage, reduceCtorEq] at h
      cases h
      exact .advance hw (.block hstage)
  | wake t =>
    rcases hw : s.wait t with _ | w
    · simp [step, hw] at h
    · cases hstage : w.stage <;> simp only [step, hw, hstage, reduceCtorEq] at h
      exact .advance hw (wake_advance hstage h)
  | readClock t now =>
    rcases hw : s.wait t with _ | w
    · simp [step, hw] at h
    · rcases hd : w.deadline with _ | deadline <;> cases hstage : w.stage <;>
        simp only [step, hw, hstage, hd, reduceCtorEq] at h
      cases h
      exact .advance hw (readClock_advance now hstage hd)
  | relock t =>
    rcases hw : s.wait t with _ | w
    · simp [step, hw] at h
    · cases hstage : w.stage <;> simp only [step, hw, hstage, reduceCtorEq] at h
      obtain ⟨hfree, h⟩ := Option.ite_none_right_eq_some.mp h
      cases h
      exact .advance hw (.relock hstage hfree)
  | leave t =>
    rcases hw : s.wait t with _ | w
    · simp [step, hw] at h
    · cases hstage : w.stage <;> simp only [step, hw, hstage, reduceCtorEq] at h
      cases h
      exact .leave hw hstage
  | notifyOne priority =>
    cases h
    exact .notifyOne priority
  | notifyAll =>
    cases h
    exact .notifyAll
  | notifyElsewhere t =>
    cases h
    exact .flagged t
  | clearElsewhere t =>
    obtain ⟨hidle, h⟩ := Option.ite_none_right_eq_some.mp h
    cases h
    exact .cleared hidle

/-- A wait of the state, under way or returned. -/
def State.Has (s : State τ) (w : Wait) : Prop := (∃ t, s.wait t = some w) ∨ w ∈ s.returned

/-- A wait hit before it was decided has kept the flag, and one hit before its block ended
without the flag does not time out. -/
structure Sound (w : Wait) (flag : Bool) : Prop where
  kept : w.hit.isSome = true → w.stage.Undecided → flag = true
  early : ∀ call stage, w.hit = some (call, stage) → stage.Pending →
    w.stage ≠ .missed ∧ ¬ w.stage.TimedOut

structure Inv (s : State τ) : Prop where
  once : ∀ t, s.slots.count (some t) ≤ 1
  registered : ∀ t, some t ∈ s.slots ↔ ∃ w, s.wait t = some w ∧ w.hit = none
  sound : ∀ t w, s.wait t = some w → Sound w (s.flag t)
  done : ∀ w ∈ s.returned, ∀ call stage, w.hit = some (call, stage) → stage.Pending →
    ¬ w.stage.TimedOut

theorem start_inv : Inv (start : State τ) where
  once t := by simp [start, List.count_replicate]
  registered t := by simp [start]
  sound t w h := by cases h
  done w h := by cases h

theorem Stage.Pending.ne_missed {stage : Stage} (h : stage.Pending) : stage ≠ .missed := by
  rintro rfl
  exact h

theorem Stage.Pending.not_timedOut {stage : Stage} (h : stage.Pending) : ¬ stage.TimedOut := by
  cases stage with
  | queued delay => exact id
  | waiting delay => exact id
  | missed => exact id
  | leaving status => exact h.elim
  | relocked status => exact h.elim

theorem Sound.hitBy (call : Call) (w : Wait) : Sound (hitBy call w) true where
  kept _ _ := rfl
  early c stage he hp := by
    cases he
    exact ⟨hp.ne_missed, hp.not_timedOut⟩

/-- One registered task is notified and its slot freed. -/
theorem Inv.hit {s : State τ} (h : Inv s) {i : ℕ} {t : τ} (call : Call)
    (hslot : s.slots[i]? = some (some t)) :
    Inv { s.notify call t with slots := s.slots.set i none } := by
  have hcount := count_free hslot
  have hother : ∀ {u}, u ≠ t → (some u ∈ s.slots.set i none ↔ some u ∈ s.slots) := by
    intro u hu
    rw [← List.count_pos_iff, ← List.count_pos_iff, hcount, if_neg (Ne.symm hu)]
    rfl
  constructor
  · intro u
    have := h.once u
    rw [hcount]
    omega
  · intro u
    by_cases hu : u = t
    · subst hu
      apply iff_of_false
      · rw [← List.count_pos_iff, hcount, if_pos rfl]
        have := h.once u
        omega
      · rintro ⟨w, hw, hhit⟩
        simp only [State.notify, Function.update_self, Option.map_eq_some_iff] at hw
        obtain ⟨v, -, rfl⟩ := hw
        cases hhit
    · simp only [hother hu, h.registered u, State.notify, Function.update_of_ne hu]
  · intro u w hw
    by_cases hu : u = t
    · subst hu
      simp only [State.notify, Function.update_self, Option.map_eq_some_iff] at hw
      obtain ⟨v, -, rfl⟩ := hw
      simpa only [State.notify, Function.update_self] using Sound.hitBy call v
    · simp only [State.notify, Function.update_of_ne hu] at hw ⊢
      exact h.sound u w hw
  · exact h.done

theorem Inv.notifyOne {s : State τ} (h : Inv s) (priority : τ → ℕ) :
    Inv (s.notifyOne priority) := by
  rw [State.notifyOne]
  rcases hpick : pick priority s.slots with _ | ⟨i, t⟩
  · exact h
  · exact h.hit .one (pick_spec hpick).1

theorem Inv.notifySlot {s : State τ} (h : Inv s) (i : ℕ) : Inv (s.notifySlot i) := by
  rw [State.notifySlot]
  rcases hslot : s.slots[i]? with _ | _ | t
  · exact h
  · exact h
  · exact h.hit .all hslot

theorem Inv.foldl {s : State τ} (h : Inv s) (is : List ℕ) :
    Inv (is.foldl State.notifySlot s) := by
  induction is generalizing s with
  | nil => exact h
  | cons i is ih => exact ih (h.notifySlot i)

/-- The wait of one task goes on; its registration stays as it is. -/
theorem Inv.move {s : State τ} (h : Inv s) {t : τ} {w : Wait} (hw : s.wait t = some w)
    {stage : Stage} {flag : τ → Bool} (owner : Option τ) (hflag : ∀ u, u ≠ t → flag u = s.flag u)
    (hsound : Sound { w with stage := stage } (flag t)) :
    Inv { s.move t w stage with flag := flag, owner := owner } := by
  constructor
  · exact h.once
  · intro u
    refine (h.registered u).trans ?_
    by_cases hu : u = t
    · subst hu
      simp [State.move, hw]
    · simp [State.move, Function.update_of_ne hu]
  · intro u v hv
    by_cases hu : u = t
    · subst hu
      simp only [State.move, Function.update_self] at hv
      cases hv
      exact hsound
    · simp only [State.move, Function.update_of_ne hu] at hv
      simp only [hflag u hu]
      exact h.sound u v hv
  · exact h.done

theorem Inv.advance {tickPeriodMs : ℕ} {s s' : State τ} {e : Action τ} {t : τ} {w : Wait}
    (h : Inv s) (hw : s.wait t = some w) (ha : Advance tickPeriodMs s t w e s') : Inv s' := by
  have hs := h.sound t w hw
  cases ha with
  | block hstage =>
    apply h.move hw s.owner (fun _ _ => rfl)
    constructor
    · intro hhit _
      exact hs.kept hhit (by rw [hstage]; trivial)
    · intro call stage he hp
      exact ⟨nofun, id⟩
  | taken hstage hflag =>
    apply h.move hw s.owner (fun u hu => Function.update_of_ne hu _ _)
    constructor
    · intro _ hu
      exact hu.elim
    · intro call stage he hp
      exact ⟨nofun, nofun⟩
  | missed hstage hflag hdelay =>
    have hnot : w.hit = none := by
      by_contra hne
      have := hs.kept (Option.isSome_iff_ne_none.mpr hne) (by rw [hstage]; trivial)
      rw [hflag] at this
      cases this
    apply h.move hw s.owner (fun _ _ => rfl)
    constructor
    · intro hhit _
      simp [hnot] at hhit
    · intro call stage he _
      simp [hnot] at he
  | timedOut hstage hd hle =>
    apply h.move hw s.owner (fun _ _ => rfl)
    constructor
    · intro _ hu
      exact hu.elim
    · intro call stage he hp
      exact absurd hstage (hs.early call stage he hp).1
  | again hstage hd hlt =>
    apply h.move hw s.owner (fun _ _ => rfl)
    constructor
    · intro hhit _
      exact hs.kept hhit (by rw [hstage]; trivial)
    · intro call stage he hp
      exact ⟨nofun, id⟩
  | relock hstage hfree =>
    apply h.move hw (some t) (fun _ _ => rfl)
    constructor
    · intro _ hu
      exact hu.elim
    · intro call stage he hp
      have := (hs.early call stage he hp).2
      rw [hstage] at this
      exact ⟨nofun, this⟩

theorem Inv.leave {s : State τ} (h : Inv s) {t : τ} {w : Wait} (hw : s.wait t = some w) :
    Inv (s.leave t w) := by
  constructor
  · intro u
    have := h.once u
    rw [State.leave, count_dequeue]
    omega
  · intro u
    by_cases hu : u = t
    · subst hu
      simp [State.leave, not_mem_dequeue (h.once u)]
    · simp [State.leave, mem_dequeue_of_ne hu, Function.update_of_ne hu, h.registered u]
  · intro u v hv
    by_cases hu : u = t
    · subst hu
      simp [State.leave] at hv
    · simp only [State.leave, Function.update_of_ne hu] at hv
      exact h.sound u v hv
  · intro v hv
    rcases List.mem_cons.mp hv with rfl | hv
    · intro call stage he hp
      exact ((h.sound t v hw).early call stage he hp).2
    · exact h.done v hv

theorem Inv.register {s : State τ} (h : Inv s) {t : τ} (hidle : s.wait t = none)
    {slots : Slots τ} (hslots : enqueue t s.slots = some slots) (deadline : Option ℤ)
    (delay : ℕ) :
    Inv { s with
      slots := slots
      owner := none
      wait := Function.update s.wait t (some ⟨deadline, .queued delay, none⟩) } := by
  have hfree : some t ∉ s.slots := by
    rw [h.registered t]
    rintro ⟨w, hw, -⟩
    rw [hidle] at hw
    cases hw
  constructor
  · intro u
    rw [count_enqueue hslots]
    by_cases hu : t = u
    · subst hu
      rw [List.count_eq_zero.mpr hfree, if_pos rfl]
    · rw [if_neg hu]
      exact h.once u
  · intro u
    rw [mem_enqueue hslots]
    by_cases hu : u = t
    · subst hu
      simp
    · simp [hu, h.registered u]
  · intro u w hw
    by_cases hu : u = t
    · subst hu
      simp only [Function.update_self] at hw
      cases hw
      exact ⟨nofun, nofun⟩
    · simp only [Function.update_of_ne hu] at hw
      exact h.sound u w hw
  · exact h.done

theorem Sound.raise {w : Wait} {flag : Bool} (h : Sound w flag) : Sound w true where
  kept _ _ := rfl
  early := h.early

theorem inv_preserves (tickPeriodMs : ℕ) : Preserves (step (τ := τ) tickPeriodMs) Inv := by
  intro s e s' hstep h
  cases step_effect hstep with
  | own he => exact ⟨h.once, h.registered, h.sound, h.done⟩
  | register he hidle hslots => exact h.register hidle hslots _ _
  | advance hw ha => exact h.advance hw ha
  | leave hw hstage => exact h.leave hw
  | notifyOne priority => exact h.notifyOne priority
  | notifyAll => exact h.foldl _
  | flagged t =>
    refine ⟨h.once, h.registered, fun u w hw => ?_, h.done⟩
    by_cases hu : u = t
    · subst hu
      simpa using (h.sound u w hw).raise
    · simpa [Function.update_of_ne hu] using h.sound u w hw
  | cleared hidle =>
    refine ⟨h.once, h.registered, fun u w hw => ?_, h.done⟩
    have hu : u ≠ _ := fun he => by rw [he, hidle] at hw; cases hw
    simpa [Function.update_of_ne hu] using h.sound u w hw

/-- What holds of the waits in every state: a task has at most one registration, a notification
that took one before the wait was decided stays there to be taken, and neither a notification
that came before the block nor any `notify_one` ends in a timeout. -/
structure Contract (s : State τ) : Prop where
  once : ∀ t, s.slots.count (some t) ≤ 1
  kept : ∀ t w, s.wait t = some w → w.hit.isSome = true → w.stage.Undecided → s.flag t = true
  early : ∀ w, s.Has w → ∀ call delay, w.hit = some (call, .queued delay) → ¬ w.stage.TimedOut
  consumed : ∀ w, s.Has w → ∀ stage, w.hit = some (.one, stage) → ¬ w.stage.TimedOut

/-- `notify_one` with a registered waiter takes exactly one registration, of a largest priority,
and nobody else's wait or flag is touched. -/
def TakesOne (s : State τ) (priority : τ → ℕ) (s' : State τ) : Prop :=
  ∃ i t w, s.slots[i]? = some (some t) ∧ (∀ u, some u ∈ s.slots → priority u ≤ priority t) ∧
    s.wait t = some w ∧ w.hit = none ∧ s'.slots = s.slots.set i none ∧
    s'.wait = Function.update s.wait t (some (hitBy .one w)) ∧
    s'.flag = Function.update s.flag t true

/-- `notify_all` takes every registration, and leaves nobody who had one blocked. -/
def TakesAll (s s' : State τ) : Prop :=
  (∀ t, some t ∉ s'.slots) ∧ ∀ t, some t ∈ s.slots → ¬ Blocked s' t ∧
    ∃ w, s.wait t = some w ∧ s'.wait t = some (hitBy .all w)

def Calls (s : State τ) : Action τ → State τ → Prop
  | .notifyOne priority, s' => (∃ t, some t ∈ s.slots) → TakesOne s priority s'
  | .notifyAll, s' => TakesAll s s'
  | _, _ => True

/-- No `notify_one` picks a wait that has timed out, and no wait whose registration a
`notify_one` has taken finds its deadline passed. -/
def InTime (s : State τ) : Action τ → Prop
  | .notifyOne priority => ∀ i t w, pick priority s.slots = some (i, t) → s.wait t = some w →
      ¬ w.stage.TimedOut
  | .readClock t now => ∀ w deadline stage, s.wait t = some w → w.deadline = some deadline →
      w.stage = .missed → w.hit = some (.one, stage) → now < deadline
  | _ => True

def inTime (s : State τ) : Action τ → Bool
  | .notifyOne priority => (pick priority s.slots).all fun c =>
      (s.wait c.2).all fun w => !decide w.stage.TimedOut
  | .readClock t now => (s.wait t).all fun w => w.deadline.all fun deadline =>
      w.stage != .missed || w.hit.map Prod.fst != some .one || decide (now < deadline)
  | _ => true

omit [DecidableEq τ] in
theorem inTime_sound {s : State τ} {e : Action τ} (h : inTime s e = true) : InTime s e := by
  cases e with
  | notifyOne priority =>
    intro i t w hpick hw
    rw [inTime, hpick, Option.all_some, hw, Option.all_some] at h
    simpa using h
  | readClock t now =>
    intro w deadline stage hw hd hmissed hhit
    rw [inTime, hw, Option.all_some, hd, Option.all_some] at h
    simpa [hmissed, hhit] using h
  | _ => trivial

theorem Inv.not_blocked {s : State τ} (h : Inv s) {t : τ} {w : Wait} (hw : s.wait t = some w)
    (hhit : w.hit.isSome = true) : ¬ Blocked s t := by
  rintro ⟨⟨v, delay, hv, hstage⟩, hflag⟩
  rw [hw] at hv
  cases hv
  have := (h.sound t w hw).kept hhit (by rw [hstage]; trivial)
  rw [hflag] at this
  cases this

theorem Inv.takesOne {s : State τ} (h : Inv s) (priority : τ → ℕ) (hsome : ∃ t, some t ∈ s.slots) :
    TakesOne s priority (s.notifyOne priority) := by
  obtain ⟨⟨i, t⟩, hpick⟩ := Option.isSome_iff_exists.mp (pick_isSome.mpr hsome)
  obtain ⟨hslot, hle⟩ := pick_spec hpick
  obtain ⟨w, hw, hhit⟩ := (h.registered t).mp (List.mem_of_getElem? hslot)
  refine ⟨i, t, w, hslot, hle, hw, hhit, ?_⟩
  rw [State.notifyOne, hpick]
  simp [State.notify, hw]

/-- What the loop of `notify_all` has done to one task. -/
def Swept (s s' : State τ) : Prop :=
  s'.returned = s.returned ∧ s'.slots.length = s.slots.length ∧
    (∀ i : ℕ, s.slots[i]? = some none → s'.slots[i]? = some none) ∧ ∀ t, s'.wait t = s.wait t ∨
      ∃ w, s.wait t = some w ∧ w.hit = none ∧ s'.wait t = some (hitBy .all w)

omit [DecidableEq τ] in
theorem Swept.trans {a b c : State τ} (h : Swept a b) (h' : Swept b c) : Swept a c := by
  obtain ⟨hreturned, hlength, hslots, hwaits⟩ := h
  obtain ⟨hreturned', hlength', hslots', hwaits'⟩ := h'
  refine ⟨hreturned'.trans hreturned, hlength'.trans hlength, fun i hi => hslots' i (hslots i hi),
    fun t => ?_⟩
  rcases hwaits' t with ht | ⟨w, hw, hhit, ht⟩
  · rw [ht]
    exact hwaits t
  · rcases hwaits t with ht' | ⟨v, hv, -, ht'⟩
    · exact Or.inr ⟨w, ht' ▸ hw, hhit, ht⟩
    · rw [ht'] at hw
      cases hw
      cases hhit

omit [DecidableEq τ] in
theorem Swept.refl (s : State τ) : Swept s s :=
  ⟨rfl, rfl, fun _ => id, fun _ => Or.inl rfl⟩

theorem Inv.swept_slot {s : State τ} (h : Inv s) (i : ℕ) :
    Swept s (s.notifySlot i) ∧ ∀ t, (s.notifySlot i).slots[i]? ≠ some (some t) := by
  rw [State.notifySlot]
  rcases hslot : s.slots[i]? with _ | _ | t
  · exact ⟨.refl s, by simp [hslot]⟩
  · exact ⟨.refl s, by simp [hslot]⟩
  · obtain ⟨w, hw, hhit⟩ := (h.registered t).mp (List.mem_of_getElem? hslot)
    refine ⟨⟨rfl, by simp, fun j hj => ?_, fun u => ?_⟩, fun u => ?_⟩
    · have hne : i ≠ j := by
        rintro rfl
        rw [hslot] at hj
        cases hj
      simpa [List.getElem?_set_ne hne] using hj
    · by_cases hu : u = t
      · subst hu
        exact Or.inr ⟨w, hw, hhit, by simp [State.notify, hw]⟩
      · exact Or.inl (by simp [State.notify, Function.update_of_ne hu])
    · simp [List.getElem?_set_self']

theorem Inv.swept {s : State τ} (h : Inv s) (is : List ℕ) :
    Swept s (is.foldl State.notifySlot s) ∧
      ∀ i ∈ is, ∀ t, (is.foldl State.notifySlot s).slots[i]? ≠ some (some t) := by
  induction is generalizing s with
  | nil => exact ⟨.refl s, nofun⟩
  | cons i is ih =>
    obtain ⟨hone, hgone⟩ := h.swept_slot i
    obtain ⟨hrest, hall⟩ := ih (h.notifySlot i)
    refine ⟨hone.trans hrest, fun j hj t => ?_⟩
    rcases List.mem_cons.mp hj with rfl | hj
    · rcases hslot : (s.notifySlot j).slots[j]? with _ | _ | u
      · rw [List.foldl_cons, List.getElem?_eq_none]
        · exact nofun
        · rw [hrest.2.1]
          exact List.getElem?_eq_none_iff.mp hslot
      · rw [List.foldl_cons, hrest.2.2.1 j hslot]
        exact nofun
      · exact absurd hslot (hgone u)
    · exact hall j hj t

theorem Inv.takesAll {s : State τ} (h : Inv s) : TakesAll s s.notifyAll := by
  have hinv : Inv s.notifyAll := h.foldl _
  obtain ⟨⟨-, hlength, -, hwaits⟩, hnone⟩ := h.swept (List.range s.slots.length)
  have hempty : ∀ t, some t ∉ s.notifyAll.slots := by
    intro t ht
    obtain ⟨i, hi, hget⟩ := List.mem_iff_getElem.mp ht
    apply hnone i (List.mem_range.mpr (hlength ▸ hi)) t
    exact (List.getElem?_eq_getElem hi).trans (congrArg some hget)
  refine ⟨hempty, fun t ht => ?_⟩
  obtain ⟨w, hw, hhit⟩ := (h.registered t).mp ht
  rcases hwaits t with hsame | ⟨v, hv, -, hv'⟩
  · exact absurd ((hinv.registered t).mpr ⟨w, hsame.trans hw, hhit⟩) (hempty t)
  · exact ⟨hinv.not_blocked hv' rfl, v, hv, hv'⟩

theorem step_calls {tickPeriodMs : ℕ} {s s' : State τ} {e : Action τ} (h : Inv s)
    (hstep : step tickPeriodMs s e = some s') : Calls s e s' := by
  cases e with
  | notifyOne priority =>
    cases hstep
    exact h.takesOne priority
  | notifyAll =>
    cases hstep
    exact h.takesAll
  | _ => trivial

/-- No wait that a `notify_one` took has timed out. -/
def Consumed (s : State τ) : Prop :=
  ∀ w, s.Has w → ∀ stage, w.hit = some (.one, stage) → ¬ w.stage.TimedOut

omit [DecidableEq τ] in
theorem start_consumed : Consumed (start : State τ) := by
  rintro w (⟨t, hw⟩ | hw)
  · cases hw
  · cases hw

theorem Consumed.move {s s' : State τ} (h : Consumed s) {t : τ} {w : Wait}
    (hwait : s'.wait = Function.update s.wait t (some w)) (hreturned : s'.returned = s.returned) :
    Consumed s' ↔ ∀ stage, w.hit = some (.one, stage) → ¬ w.stage.TimedOut := by
  constructor
  · intro hc
    exact hc w (Or.inl ⟨t, by rw [hwait, Function.update_self]⟩)
  · rintro hw v (⟨u, hv⟩ | hv)
    · rw [hwait] at hv
      by_cases hu : u = t
      · subst hu
        rw [Function.update_self] at hv
        cases hv
        exact hw
      · rw [Function.update_of_ne hu] at hv
        exact h v (Or.inl ⟨u, hv⟩)
    · exact h v (Or.inr (hreturned ▸ hv))

theorem Consumed.advance {tickPeriodMs : ℕ} {s s' : State τ} {e : Action τ} {t : τ} {w : Wait}
    (h : Consumed s) (hw : s.wait t = some w) (ha : Advance tickPeriodMs s t w e s') :
    Consumed s' ↔ InTime s e := by
  have hold := h w (Or.inl ⟨t, hw⟩)
  cases ha with
  | block hstage =>
    refine Iff.trans (h.move rfl rfl) ?_
    exact iff_of_true (fun _ _ => id) trivial
  | taken hstage hflag =>
    refine Iff.trans (h.move rfl rfl) ?_
    exact iff_of_true (fun _ _ => nofun) trivial
  | missed hstage hflag hdelay =>
    refine Iff.trans (h.move rfl rfl) ?_
    exact iff_of_true (fun _ _ => id) trivial
  | timedOut hstage hd hle =>
    refine Iff.trans (h.move rfl rfl) ?_
    constructor
    · intro hnone v deadline stage hv hvd _ hhit
      rw [hw] at hv
      cases hv
      exact absurd rfl (hnone stage hhit)
    · intro hin stage hhit
      exact absurd (hin w _ stage hw hd hstage hhit) (Int.not_lt.mpr hle)
  | again hstage hd hlt =>
    refine Iff.trans (h.move rfl rfl) ?_
    refine iff_of_true (fun _ _ => id) ?_
    intro v deadline stage hv hvd _ _
    rw [hw] at hv
    cases hv
    rw [hd] at hvd
    cases hvd
    exact hlt
  | relock hstage hfree =>
    refine Iff.trans (h.move rfl rfl) ?_
    refine iff_of_true (fun stage hhit => ?_) trivial
    have := hold stage hhit
    rwa [hstage] at this

theorem Consumed.notifyOne {s : State τ} (hinv : Inv s) (h : Consumed s) (priority : τ → ℕ) :
    Consumed (s.notifyOne priority) ↔ InTime s (.notifyOne priority) := by
  rcases hpick : pick priority s.slots with _ | ⟨i, t⟩
  · rw [State.notifyOne, hpick]
    refine iff_of_true h fun i t w hp => ?_
    rw [hpick] at hp
    cases hp
  · obtain ⟨w, hw, hhit⟩ :=
      (hinv.registered t).mp (List.mem_of_getElem? (pick_spec hpick).1)
    rw [State.notifyOne, hpick]
    have hmoved : (s.notify .one t).wait = Function.update s.wait t (some (hitBy .one w)) := by
      simp only [State.notify, hw, Option.map_some]
    refine Iff.trans (h.move hmoved rfl) ?_
    constructor
    · intro hnot j u v hp hv
      rw [hpick] at hp
      cases hp
      rw [hw] at hv
      cases hv
      exact hnot w.stage rfl
    · intro hin _ _
      exact hin i t w hpick hw

theorem Consumed.notifyAll {s : State τ} (hinv : Inv s) (h : Consumed s) :
    Consumed s.notifyAll := by
  obtain ⟨⟨hreturned, -, -, hwaits⟩, -⟩ := hinv.swept (List.range s.slots.length)
  rintro w (⟨t, hw⟩ | hw)
  · rcases hwaits t with hsame | ⟨v, -, -, hv⟩
    · exact h w (Or.inl ⟨t, hsame.symm.trans hw⟩)
    · intro stage hhit
      obtain rfl := Option.some.inj (hv.symm.trans hw)
      cases hhit
  · exact h w (Or.inr (hreturned ▸ hw))

theorem Consumed.leave {s : State τ} (h : Consumed s) {t : τ} {w : Wait}
    (hw : s.wait t = some w) : Consumed (s.leave t w) := by
  rintro v (⟨u, hv⟩ | hv)
  · by_cases hu : u = t
    · subst hu
      simp [State.leave] at hv
    · simp only [State.leave, Function.update_of_ne hu] at hv
      exact h v (Or.inl ⟨u, hv⟩)
  · rcases List.mem_cons.mp hv with rfl | hv
    · exact h v (Or.inl ⟨t, hw⟩)
    · exact h v (Or.inr hv)

/-- A step keeps the notifications out of timed out waits exactly when it is in time. -/
theorem consumed_step {tickPeriodMs : ℕ} {s s' : State τ} {e : Action τ} (hinv : Inv s)
    (h : Consumed s) (hstep : step tickPeriodMs s e = some s') : Consumed s' ↔ InTime s e := by
  cases step_effect hstep with
  | own he =>
    refine iff_of_true h ?_
    rcases he with ⟨t, rfl⟩ | ⟨t, rfl⟩ <;> trivial
  | register he hidle hslots =>
    refine Iff.trans (h.move rfl rfl) ?_
    refine iff_of_true nofun ?_
    rcases he with rfl | ⟨d, now, rfl⟩ <;> trivial
  | advance hw ha => exact h.advance hw ha
  | leave hw hstage => exact iff_of_true (h.leave hw) trivial
  | notifyOne priority => exact h.notifyOne hinv priority
  | notifyAll => exact iff_of_true (h.notifyAll hinv) trivial
  | flagged t => exact iff_of_true h trivial
  | cleared hidle => exact iff_of_true h trivial

theorem Inv.contract {s : State τ} (h : Inv s) (hc : Consumed s) : Contract s where
  once := h.once
  kept t w hw := (h.sound t w hw).kept
  early w hw call delay he := by
    rcases hw with ⟨t, hw⟩ | hw
    · exact ((h.sound t w hw).early call _ he trivial).2
    · exact h.done w hw call _ he trivial
  consumed := hc

/-- In every run, the waits keep the contract and the two calls do what they promise exactly
when every step of the run is in time. -/
theorem notifications_consumed (tickPeriodMs : ℕ) (es : List (Action τ)) (z : State τ)
    (hrun : run (step tickPeriodMs) start es = some z) :
    (∀ n s, run (step tickPeriodMs) start (es.take n) = some s → Contract s ∧
      ∀ e s', es[n]? = some e → step tickPeriodMs s e = some s' → Calls s e s') ↔
    Meets (step tickPeriodMs) InTime start es := by
  have hinv : ∀ {n s}, run (step tickPeriodMs) start (es.take n) = some s → Inv s :=
    fun hr => (inv_preserves tickPeriodMs).run hr start_inv
  refine Iff.trans ?_ (always_iff_meets (inv_preserves tickPeriodMs)
    (fun _ _ _ _ hj hi hstep => consumed_step hj hi hstep) hrun start_inv start_consumed)
  constructor
  · intro h n s hr
    exact (h n s hr).1.consumed
  · intro h n s hr
    exact ⟨(hinv hr).contract (h n s hr), fun e s' _ hstep => step_calls (hinv hr) hstep⟩

/-- A notification that comes between the registration and the block, and two waiters of
whom `notify_one` takes the one of larger priority. -/
def handOff : List (Action ℕ) :=
  [.lock 0, .wait 0, .lock 2, .notifyOne fun _ => 0, .unlock 2, .block 0, .wake 0, .relock 0,
    .leave 0, .wait 0, .lock 1, .waitUntil 1 1000000 0, .block 1, .notifyOne id, .wake 1,
    .relock 1, .leave 1, .notifyAll]

theorem notifications_consumed_handOff :
    ∃ z, run (step 1) start handOff = some z ∧
      ∀ n s, run (step 1) start (handOff.take n) = some s → Contract s ∧
        ∀ e s', handOff[n]? = some e → step 1 s e = some s' → Calls s e s' := by
  obtain ⟨z, hz⟩ := Option.isSome_iff_exists.mp
    (by decide +kernel : (run (step 1) start handOff).isSome = true)
  refine ⟨z, hz, (notifications_consumed 1 handOff z hz).mpr ?_⟩
  exact Meets.of_check (I := fun _ => True) (fun _ _ _ _ _ _ => trivial)
    (fun _ _ _ => inTime_sound) trivial
    (by decide +kernel : check (step 1) inTime start handOff = true)

/-- Task 0 finds its deadline passed, and before it has the mutex again another task calls
`notify_one`. -/
def absorbed : List (Action ℕ) :=
  [.lock 0, .waitUntil 0 1000000 0, .lock 1, .wait 1, .block 0, .block 1, .wake 0,
    .readClock 0 1000000, .lock 2, .notifyOne fun _ => 0, .unlock 2, .relock 0, .leave 0]

theorem notifications_consumed_absorbed :
    ∃ s, run (step 1) start absorbed = some s ∧
      (∃ w ∈ s.returned, w.hit = some (.one, .leaving .timeout) ∧ w.stage = .relocked .timeout) ∧
      some 1 ∈ s.slots ∧ Blocked s 1 ∧ ¬ Contract s := by
  have hrun : (run (step 1) start absorbed).map
      (fun s => (s.returned, s.slots[1]?, s.wait 1, s.flag 1)) =
      some ([⟨some 1000000, .relocked .timeout, some (.one, .leaving .timeout)⟩],
        some (some 1), some ⟨none, .waiting portMaxDelay, none⟩, false) := by
    decide +kernel
  obtain ⟨s, hs, heq⟩ := Option.map_eq_some_iff.mp hrun
  simp only [Prod.mk.injEq] at heq
  obtain ⟨hreturned, hslot, hwait, hflag⟩ := heq
  have hmem : ⟨some 1000000, .relocked .timeout, some (.one, .leaving .timeout)⟩ ∈ s.returned :=
    hreturned ▸ List.mem_singleton_self _
  refine ⟨s, hs, ⟨_, hmem, rfl, rfl⟩, List.mem_of_getElem? hslot,
    ⟨⟨_, _, hwait, rfl⟩, hflag⟩, fun hc => ?_⟩
  exact hc.consumed _ (Or.inr hmem) _ rfl (rfl : CvStatus.timeout = .timeout)

end RooTesting.ConditionVariable
