import RooTesting.EspTimer

/-! # What the steps of the timer backend do

Every step is one of the following, and the mutex and the interrupt registration have at
most one owner. -/
namespace RooTesting.EspTimer
open AlarmService Transition Threads

/-- The steps, by the thread's next step before and after. -/
inductive Takes : Shared → Local → Shared → Local → Prop where
  | stay {s l} : Takes s l s l
  | allocate {s handler} (hframe : s.frame = none) (hlock : s.locked = false)
      (hoff : s.initialized = false) (hdead : s.line.live = false) :
      Takes s .idle { s with locked := true, line := ⟨true, false, false⟩ }
        (.enableInterrupt handler)
  | draw {s generation timestamp} (hframe : s.frame = none) (hlock : s.locked = false)
      (hon : s.initialized = true) (hnext : s.nextGeneration = some generation) :
      Takes s .idle
        { s with
          locked := true, compareGeneration := generation, requestedCompare := timestamp,
          scheduledAlarm := 0 }
        (.dropStatus generation timestamp s.scheduledAlarm)
  | retire {s generation} (hframe : s.frame = none) (hlock : s.locked = false)
      (hon : s.initialized = true) (hnext : s.nextGeneration = some generation) :
      Takes s .idle
        { s with
          locked := true, compareGeneration := generation, initialized := false,
          requestedCompare := kDisarmedCompare }
        (.retractStatus generation)
  | take {s due service} (hdue : s.service.popDue = some (some due, service)) :
      Takes s .idle { s with service := service } (.deliver due.2.callback)
  | enable {s handler} (hframe : s.frame = none) :
      Takes s (.enableInterrupt handler) { s with line := { s.line with enabled := true } }
        (.clearStatus handler)
  | abandon {s handler} (hframe : s.frame = none) :
      Takes s (.enableInterrupt handler)
        { s with line := ⟨false, false, false⟩, locked := false } .idle
  | clear {s handler} (hframe : s.frame = none) :
      Takes s (.clearStatus handler) { s with pendingStatus := false } (.publishHandler handler)
  | publish {s handler} (hframe : s.frame = none) :
      Takes s (.publishHandler handler)
        { s with
          interruptHandle := true, requestedCompare := kDisarmedCompare, scheduledAlarm := 0,
          upperHandler := some handler, initialized := true, locked := false } .idle
  | drop {s generation alarm} {timestamp : ℕ} (hframe : s.frame = none) :
      Takes s (.dropStatus generation timestamp alarm)
        { s with pendingStatus := false, locked := false } (.cancelOld generation timestamp alarm)
  | cancel {s generation alarm} {timestamp : ℕ} (hframe : s.frame = none)
      (hrange : (timestamp : ℤ) ≤ int64Max) :
      Takes s (.cancelOld generation timestamp alarm) (s.cancelSystemTimeAlarm alarm)
        (.schedule generation timestamp)
  | cancelOnly {s generation alarm} {timestamp : ℕ} (hframe : s.frame = none)
      (hrange : int64Max < (timestamp : ℤ)) :
      Takes s (.cancelOld generation timestamp alarm)
        ((s.cancelSystemTimeAlarm alarm).leave generation).1 .idle
  | schedule {s generation timestamp alarm service} (hframe : s.frame = none)
      (hscheduled : s.service.scheduleSystemTimeAlarm timestamp generation =
        some (alarm, service)) :
      Takes s (.schedule generation timestamp) { s with service := service }
        (.install generation alarm)
  | keep {s generation alarm} (hframe : s.frame = none) (hlock : s.locked = false) :
      Takes s (.install generation alarm)
        ({ s with scheduledAlarm := alarm }.leave generation).1 .idle
  | reject {s generation alarm} (hframe : s.frame = none) (hlock : s.locked = false)
      (hstale : s.initialized = false ∨ generation ≠ s.compareGeneration ∨
        s.pendingGeneration = generation) :
      Takes s (.install generation alarm) s (.cancelNew generation alarm)
  | discard {s generation alarm} (hframe : s.frame = none) :
      Takes s (.cancelNew generation alarm)
        ((s.cancelSystemTimeAlarm alarm).leave generation).1 .idle
  | retract {s generation} (hframe : s.frame = none) :
      Takes s (.retractStatus generation) { s with pendingStatus := false }
        (.retractHandler generation)
  | retractUpper {s generation} (hframe : s.frame = none) :
      Takes s (.retractHandler generation)
        { s with
          upperHandler := none, scheduledAlarm := 0, interruptHandle := false, locked := false }
        (.cancelAlarm generation s.scheduledAlarm s.interruptHandle)
  | cancelLast {s generation alarm} (hframe : s.frame = none) :
      Takes s (.cancelAlarm generation alarm true) (s.cancelSystemTimeAlarm alarm)
        (.disableInterrupt generation)
  | cancelAlone {s generation alarm} (hframe : s.frame = none) :
      Takes s (.cancelAlarm generation alarm false)
        ((s.cancelSystemTimeAlarm alarm).leave generation).1 .idle
  | disable {s generation} (hframe : s.frame = none) :
      Takes s (.disableInterrupt generation) { s with line := { s.line with enabled := false } }
        (.freeInterrupt generation)
  | free {s generation} (hframe : s.frame = none) :
      Takes s (.freeInterrupt generation)
        ({ s with line := ⟨false, false, false⟩ }.leave generation).1 .idle
  | refuse {s generation} (hlock : s.locked = false)
      (hstale : s.initialized = false ∨ generation ≠ s.compareGeneration) :
      Takes s (.deliver generation) s .idle
  | accept {s generation} (hlock : s.locked = false) (hon : s.initialized = true)
      (hcurrent : generation = s.compareGeneration) :
      Takes s (.deliver generation) { s with locked := true, scheduledAlarm := 0 }
        (.storeGeneration generation)
  | storeGeneration {s generation} :
      Takes s (.storeGeneration generation) { s with pendingGeneration := generation }
        (.storeStatus generation)
  | storeStatus {s generation} :
      Takes s (.storeStatus generation) { s with pendingStatus := true, locked := false } .raise
  | raise {s} :
      Takes s .raise { s with line := s.line.raiseInterruptSource } .idle
  | advance {s l uptimeNs} :
      Takes s l { s with service := s.service.publishAtLeast uptimeNs } l
  | dispatch {s l} (hframe : s.frame = none) :
      Takes s l { s with line := { s.line with asserted := false }, frame := some .exchange } l
  | consume {s l} (hframe : s.frame = some .exchange) (hstatus : s.pendingStatus = true) :
      Takes s l { s with pendingStatus := false, frame := some .loadGeneration } l
  | ignore {s l} (hframe : s.frame = some .exchange) (hstatus : s.pendingStatus = false) :
      Takes s l { s with frame := none } l
  | load {s l} (hframe : s.frame = some .loadGeneration) :
      Takes s l { s with frame := some (.compare s.pendingGeneration) } l
  | pass {s l generation} (hframe : s.frame = some (.compare generation))
      (hcurrent : generation = s.compareGeneration) :
      Takes s l { s with frame := some (.call generation) } l
  | stale {s l generation} (hframe : s.frame = some (.compare generation))
      (hstale : generation ≠ s.compareGeneration) :
      Takes s l { s with frame := none } l
  | call {s l generation handler} (hframe : s.frame = some (.call generation))
      (hhandler : s.upperHandler = some handler) :
      Takes s l { s with frame := none, invoked := ⟨generation, handler⟩ :: s.invoked } l
  | lose {s l generation} (hframe : s.frame = some (.call generation))
      (hhandler : s.upperHandler = none) :
      Takes s l { s with frame := none } l

theorem init_takes {s s' : Shared} {l' : Local} {alarmHandler : Option ℕ} {allocated : Bool}
    (hframe : s.frame = none) (h : s.init alarmHandler allocated = some (s', l')) :
    Takes s .idle s' l' := by
  cases alarmHandler with
  | none =>
    simp only [Shared.init, Option.some.injEq, Prod.mk.injEq] at h
    obtain ⟨rfl, rfl⟩ := h
    exact .stay
  | some handler =>
    simp only [Shared.init] at h
    split at h
    · cases h
    · rename_i hlock
      split at h
      · obtain ⟨rfl, rfl⟩ := Prod.mk.inj (Option.some.inj h)
        exact .stay
      · rename_i hoff
        split at h
        · obtain ⟨rfl, rfl⟩ := Prod.mk.inj (Option.some.inj h)
          exact .stay
        · rename_i hdead
          obtain ⟨rfl, rfl⟩ := Prod.mk.inj (Option.some.inj h)
          simp only [Bool.or_eq_true, not_or, Bool.not_eq_true] at hdead
          exact .allocate hframe (by simpa using hlock) (by simpa using hoff) hdead.1

theorem interrupt_takes {s s' : Shared} {l : Local} (h : s.interrupt = some s') :
    Takes s l s' l := by
  unfold Shared.interrupt at h
  split at h
  · cases h
  · rename_i hframe
    split at h
    · rename_i hstatus
      obtain rfl := Option.some.inj h
      exact .consume hframe hstatus
    · rename_i hstatus
      obtain rfl := Option.some.inj h
      exact .ignore hframe (by simpa using hstatus)
  · rename_i hframe
    obtain rfl := Option.some.inj h
    exact .load hframe
  · rename_i generation hframe
    obtain rfl := Option.some.inj h
    by_cases hcurrent : generation = s.compareGeneration
    · rw [if_pos hcurrent]
      exact .pass hframe hcurrent
    · rw [if_neg hcurrent]
      exact .stale hframe hcurrent
  · rename_i generation hframe
    split at h
    · rename_i handler hhandler
      obtain rfl := Option.some.inj h
      exact .call hframe hhandler
    · rename_i hhandler
      obtain rfl := Option.some.inj h
      exact .lose hframe hhandler

theorem resume_takes {s s' : Shared} {l l' : Local} {enabled : Bool}
    (hframe : l.delivers = true ∨ s.frame = none) (h : s.resume enabled l = some (s', l')) :
    Takes s l s' l' := by
  cases l with
  | idle => cases h
  | enableInterrupt handler =>
    have hframe := hframe.resolve_left (by simp [Local.delivers])
    cases enabled with
    | true =>
      obtain ⟨rfl, rfl⟩ := Prod.mk.inj (Option.some.inj h)
      exact .enable hframe
    | false =>
      obtain ⟨rfl, rfl⟩ := Prod.mk.inj (Option.some.inj h)
      exact .abandon hframe
  | clearStatus handler =>
    obtain ⟨rfl, rfl⟩ := Prod.mk.inj (Option.some.inj h)
    exact .clear (hframe.resolve_left (by simp [Local.delivers]))
  | publishHandler handler =>
    obtain ⟨rfl, rfl⟩ := Prod.mk.inj (Option.some.inj h)
    exact .publish (hframe.resolve_left (by simp [Local.delivers]))
  | dropStatus generation timestamp alarm =>
    obtain ⟨rfl, rfl⟩ := Prod.mk.inj (Option.some.inj h)
    exact .drop (hframe.resolve_left (by simp [Local.delivers]))
  | cancelOld generation timestamp alarm =>
    have hframe := hframe.resolve_left (by simp [Local.delivers])
    simp only [Shared.resume] at h
    split at h
    · rename_i hrange
      obtain ⟨rfl, rfl⟩ := Prod.mk.inj (Option.some.inj h)
      refine .cancelOnly hframe ?_
      rcases hrange with rfl | hrange
      · decide
      · exact hrange
    · rename_i hrange
      obtain ⟨rfl, rfl⟩ := Prod.mk.inj (Option.some.inj h)
      exact .cancel hframe (not_lt.mp fun hlt => hrange (Or.inr hlt))
  | schedule generation timestamp =>
    obtain ⟨⟨alarm, service⟩, hscheduled, heq⟩ := Option.map_eq_some_iff.mp h
    obtain ⟨rfl, rfl⟩ := Prod.mk.inj heq
    exact .schedule (hframe.resolve_left (by simp [Local.delivers])) hscheduled
  | install generation alarm =>
    have hframe := hframe.resolve_left (by simp [Local.delivers])
    simp only [Shared.resume] at h
    split at h
    · cases h
    · rename_i hlock
      have hlock : s.locked = false := by simpa using hlock
      split at h
      · obtain ⟨rfl, rfl⟩ := Prod.mk.inj (Option.some.inj h)
        exact .keep hframe hlock
      · rename_i hstale
        obtain ⟨rfl, rfl⟩ := Prod.mk.inj (Option.some.inj h)
        refine .reject hframe hlock ?_
        by_contra hnot
        simp only [not_or, Bool.not_eq_false, not_not] at hnot
        exact hstale hnot
  | cancelNew generation alarm =>
    obtain ⟨rfl, rfl⟩ := Prod.mk.inj (Option.some.inj h)
    exact .discard (hframe.resolve_left (by simp [Local.delivers]))
  | retractStatus generation =>
    obtain ⟨rfl, rfl⟩ := Prod.mk.inj (Option.some.inj h)
    exact .retract (hframe.resolve_left (by simp [Local.delivers]))
  | retractHandler generation =>
    obtain ⟨rfl, rfl⟩ := Prod.mk.inj (Option.some.inj h)
    exact .retractUpper (hframe.resolve_left (by simp [Local.delivers]))
  | cancelAlarm generation alarm handle =>
    have hfree : s.frame = none := hframe.resolve_left (by simp [Local.delivers])
    cases handle with
    | true =>
      obtain ⟨rfl, rfl⟩ := Prod.mk.inj (Option.some.inj h)
      exact .cancelLast hfree
    | false =>
      obtain ⟨rfl, rfl⟩ := Prod.mk.inj (Option.some.inj h)
      exact .cancelAlone hfree
  | disableInterrupt generation =>
    obtain ⟨rfl, rfl⟩ := Prod.mk.inj (Option.some.inj h)
    exact .disable (hframe.resolve_left (by simp [Local.delivers]))
  | freeInterrupt generation =>
    obtain ⟨rfl, rfl⟩ := Prod.mk.inj (Option.some.inj h)
    exact .free (hframe.resolve_left (by simp [Local.delivers]))
  | deliver generation =>
    simp only [Shared.resume] at h
    split at h
    · cases h
    · rename_i hlock
      have hlock : s.locked = false := by simpa using hlock
      split at h
      · rename_i hstale
        obtain ⟨rfl, rfl⟩ := Prod.mk.inj (Option.some.inj h)
        exact .refuse hlock hstale
      · rename_i hcurrent
        obtain ⟨rfl, rfl⟩ := Prod.mk.inj (Option.some.inj h)
        simp only [not_or, Bool.not_eq_false, ne_eq, not_not] at hcurrent
        exact .accept hlock hcurrent.1 hcurrent.2
  | storeGeneration generation =>
    obtain ⟨rfl, rfl⟩ := Prod.mk.inj (Option.some.inj h)
    exact .storeGeneration
  | storeStatus generation =>
    obtain ⟨rfl, rfl⟩ := Prod.mk.inj (Option.some.inj h)
    exact .storeStatus
  | raise =>
    obtain ⟨rfl, rfl⟩ := Prod.mk.inj (Option.some.inj h)
    exact .raise

/-- Every step is one of those above. -/
theorem program_takes {event : Event} {s s' : Shared} {l l' : Local}
    (h : program event s l = some (s', l')) : Takes s l s' l' := by
  cases event with
  | init alarmHandler allocated =>
    simp only [program] at h
    split at h
    · rename_i hidle
      obtain ⟨rfl, hframe⟩ := hidle
      exact init_takes hframe h
    · cases h
  | setAlarm timestamp alarmId =>
    simp only [program] at h
    split at h
    · rename_i hidle
      obtain ⟨rfl, hframe⟩ := hidle
      unfold Shared.setAlarm at h
      split at h
      · rename_i hok
        obtain ⟨generation, hnext, heq⟩ := Option.map_eq_some_iff.mp h
        obtain ⟨rfl, rfl⟩ := Prod.mk.inj heq
        exact .draw hframe hok.2.2.1 hok.2.2.2 hnext
      · cases h
    · cases h
  | deinit =>
    simp only [program] at h
    split at h
    · rename_i hidle
      obtain ⟨rfl, hframe⟩ := hidle
      unfold Shared.deinit at h
      split at h
      · cases h
      · rename_i hlock
        split at h
        · rename_i hon
          obtain ⟨generation, hnext, heq⟩ := Option.map_eq_some_iff.mp h
          obtain ⟨rfl, rfl⟩ := Prod.mk.inj heq
          exact .retire hframe (by simpa using hlock) hon hnext
        · obtain ⟨rfl, rfl⟩ := Prod.mk.inj (Option.some.inj h)
          exact .stay
    · cases h
  | claim =>
    simp only [program] at h
    split at h
    · rename_i hidle
      subst hidle
      unfold Shared.claim at h
      split at h
      · rename_i due service hdue
        obtain ⟨rfl, rfl⟩ := Prod.mk.inj (Option.some.inj h)
        exact .take hdue
      · cases h
    · cases h
  | resume enabled =>
    simp only [program] at h
    split at h
    · rename_i hframe
      exact resume_takes hframe h
    · cases h
  | advance uptimeNs =>
    obtain ⟨rfl, rfl⟩ := Prod.mk.inj (Option.some.inj h)
    exact .advance
  | dispatch =>
    simp only [program] at h
    split at h
    · rename_i hready
      obtain ⟨rfl, rfl⟩ := Prod.mk.inj (Option.some.inj h)
      exact .dispatch hready.2.2
    · cases h
  | interrupt =>
    obtain ⟨s₁, hstep, heq⟩ := Option.map_eq_some_iff.mp h
    obtain ⟨rfl, rfl⟩ := Prod.mk.inj heq
    exact interrupt_takes hstep

/-- The thread holds the compare mutex. -/
def Local.locks : Local → ℕ
  | .enableInterrupt _ | .clearStatus _ | .publishHandler _ | .dropStatus _ _ _
  | .retractStatus _ | .retractHandler _ | .storeGeneration _ | .storeStatus _ => 1
  | _ => 0

/-- The thread builds the registration up or takes it down. -/
def Local.owns : Local → ℕ
  | .enableInterrupt _ | .clearStatus _ | .publishHandler _ | .retractStatus _
  | .retractHandler _ | .cancelAlarm _ _ true | .disableInterrupt _ | .freeInterrupt _ => 1
  | _ => 0

variable {s s' : Shared} {f : ℕ → Local} {t : ℕ} {l' : Local}

theorem lock_takes (h : Held Local.locks f s.locked) (htakes : Takes s (f t) s' l') :
    Held Local.locks (Function.update f t l') s'.locked := by
  generalize hl : f t = l at htakes
  cases htakes
  case allocate hlock _ _ => exact (hlock ▸ h).acquire rfl
  case draw hlock _ _ => exact (hlock ▸ h).acquire rfl
  case retire hlock _ _ => exact (hlock ▸ h).acquire rfl
  case accept hlock _ _ => exact (hlock ▸ h).acquire rfl
  case abandon => exact h.release (by rw [hl]; exact Nat.one_pos) rfl
  case publish => exact h.release (by rw [hl]; exact Nat.one_pos) rfl
  case drop => exact h.release (by rw [hl]; exact Nat.one_pos) rfl
  case retractUpper => exact h.release (by rw [hl]; exact Nat.one_pos) rfl
  case storeStatus => exact h.release (by rw [hl]; exact Nat.one_pos) rfl
  all_goals exact h.keep (by simp [hl, Local.locks])

theorem line_takes (h : Held Local.owns f (s.line.live && !s.initialized))
    (hready : s.initialized = true → s.line.live = true)
    (hhandle : ∀ generation, f t = .retractHandler generation → s.interruptHandle = true)
    (htakes : Takes s (f t) s' l') :
    Held Local.owns (Function.update f t l') (s'.line.live && !s'.initialized) := by
  generalize hl : f t = l at htakes
  cases htakes
  case allocate hlock hoff hdead =>
    rw [hdead, Bool.false_and] at h
    simp only [hoff]
    exact h.acquire rfl
  case retire hon _ =>
    rw [hon, Bool.not_true, Bool.and_false] at h
    simp only [hready hon]
    exact h.acquire rfl
  case abandon => exact h.release (by rw [hl]; exact Nat.one_pos) rfl
  case publish => 
    simp only [Bool.not_true, Bool.and_false]
    exact h.release (by rw [hl]; exact Nat.one_pos) rfl
  case free => exact h.release (by rw [hl]; exact Nat.one_pos) rfl
  case raise =>
    have hlive : (s.line.raiseInterruptSource).live = s.line.live := rfl
    simp only [hlive]
    exact h.keep (by simp [hl, Local.owns])
  case retractUpper =>
    rw [hhandle _ hl]
    exact h.keep (by simp [hl, Local.owns])
  all_goals exact h.keep (by simp [hl, Local.owns])

/-- What a thread relies on while it builds the registration up or takes it down. -/
def Local.ready (s : Shared) : Local → Prop
  | .clearStatus _ | .publishHandler _ => s.line.live = true ∧ s.line.enabled = true
  | .retractStatus _ | .retractHandler _ => s.interruptHandle = true
  | _ => True

theorem Local.ready.congr {l : Local} (h : l.ready s) (hlive : s'.line.live = s.line.live)
    (henabled : s'.line.enabled = s.line.enabled)
    (hhandle : s'.interruptHandle = s.interruptHandle) : l.ready s' := by
  cases l <;> simp_all [Local.ready]

/-- A thread that relies on the registration owns it, or on the handle holds the mutex. -/
theorem Local.ready_of_free {l : Local} (howns : l.owns = 0) (s : Shared) : l.ready s := by
  cases l <;> simp_all [Local.ready, Local.owns]

/-- The mutex and the registration have their owners, and an initialized backend can be
interrupted. -/
structure Owned (s : Shared) (f : ℕ → Local) : Prop where
  lock : Held Local.locks f s.locked
  line : Held Local.owns f (s.line.live && !s.initialized)
  on : s.initialized = true → s.line.live = true ∧ s.line.enabled = true ∧
    s.upperHandler.isSome ∧ s.interruptHandle = true
  ready : ∀ u, (f u).ready s

theorem Owned.others_free (h : Owned s f) (ht : 0 < (f t).owns) {u : ℕ} (hu : u ≠ t) :
    (f u).owns = 0 := by
  by_contra hne
  exact hu (h.line.eq_of_pos (Nat.pos_of_ne_zero hne) ht)

theorem ready_update (hl' : l'.ready s') (hothers : ∀ u, u ≠ t → (f u).ready s') :
    ∀ u, (Function.update f t l' u).ready s' :=
  (forall_update (Q := fun l : Local => l.ready s')).mpr ⟨hl', hothers⟩

/-- The owner of the registration changes it, and nobody else relies on it. -/
theorem Owned.ready_owner (h : Owned s f) (ht : 0 < (f t).owns) (hl' : l'.ready s') :
    ∀ u, (Function.update f t l' u).ready s' := by
  exact ready_update hl' fun u hu => Local.ready_of_free (h.others_free ht hu) s'

theorem Owned.ready_keep (h : Owned s f) (hl' : l'.ready s')
    (hlive : s'.line.live = s.line.live) (henabled : s'.line.enabled = s.line.enabled)
    (hhandle : s'.interruptHandle = s.interruptHandle) :
    ∀ u, (Function.update f t l' u).ready s' := by
  exact ready_update hl' fun u _ => (h.ready u).congr hlive henabled hhandle

theorem Owned.on_takes (h : Owned s f) (htakes : Takes s (f t) s' l')
    (hon' : s'.initialized = true) : s'.line.live = true ∧ s'.line.enabled = true ∧
      s'.upperHandler.isSome ∧ s'.interruptHandle = true := by
  have hready := h.ready t
  have hoff : 0 < (f t).owns → s.initialized = false := by
    intro hpos
    have := h.line.true_of_pos hpos
    simpa using (Bool.and_eq_true_iff.mp this).2
  generalize hl : f t = l at htakes hready hoff
  cases htakes
  case allocate hoff' hdead =>
    rw [show s.initialized = true from hon'] at hoff'
    cases hoff'
  case retire => cases hon'
  case enable =>
    rw [hoff Nat.one_pos] at hon'
    cases hon'
  case abandon =>
    rw [hoff Nat.one_pos] at hon'
    cases hon'
  case publish => exact ⟨hready.1, hready.2, rfl, rfl⟩
  case retractUpper =>
    rw [hoff Nat.one_pos] at hon'
    cases hon'
  case disable =>
    rw [hoff Nat.one_pos] at hon'
    cases hon'
  case free =>
    rw [show s.initialized = true from hon'] at hoff
    cases hoff Nat.one_pos
  all_goals exact h.on hon'

theorem Owned.ready_takes (h : Owned s f) (htakes : Takes s (f t) s' l') :
    ∀ u, (Function.update f t l' u).ready s' := by
  have hready := h.ready t
  have hlive : 0 < (f t).owns → s.line.live = true := by
    intro hpos
    have := h.line.true_of_pos hpos
    exact (Bool.and_eq_true_iff.mp this).1
  generalize hl : f t = l at htakes hready hlive
  cases htakes
  case allocate hdead =>
    have hline := h.line
    rw [hdead, Bool.false_and] at hline
    exact ready_update trivial fun v _ => Local.ready_of_free (hline v) _
  case retire hon _ => exact h.ready_keep (h.on hon).2.2.2 rfl rfl rfl
  case enable =>
    exact h.ready_owner (by rw [hl]; exact Nat.one_pos) ⟨hlive Nat.one_pos, rfl⟩
  case abandon => exact h.ready_owner (by rw [hl]; exact Nat.one_pos) trivial
  case publish => exact h.ready_owner (by rw [hl]; exact Nat.one_pos) trivial
  case retractUpper => exact h.ready_owner (by rw [hl]; exact Nat.one_pos) trivial
  case disable => exact h.ready_owner (by rw [hl]; exact Nat.one_pos) trivial
  case free => exact h.ready_owner (by rw [hl]; exact Nat.one_pos) trivial
  case clear => exact h.ready_keep hready rfl rfl rfl
  case retract => exact h.ready_keep hready rfl rfl rfl
  all_goals first
    | exact h.ready_keep trivial rfl rfl rfl
    | exact h.ready_keep (hready.congr rfl rfl rfl) rfl rfl rfl

theorem Owned.takes (h : Owned s f) (htakes : Takes s (f t) s' l') :
    Owned s' (Function.update f t l') where
  lock := lock_takes h.lock htakes
  line := line_takes h.line (fun hon => (h.on hon).1)
    (fun generation heq => by
      have := h.ready t
      rw [heq] at this
      exact this) htakes
  on := h.on_takes htakes
  ready := h.ready_takes htakes

end RooTesting.EspTimer
