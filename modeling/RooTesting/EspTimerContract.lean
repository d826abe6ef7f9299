import RooTesting.EspTimerStages

/-! # No wakeup is lost and none is delivered twice

The event of the current generation is at exactly one place as long as the compare is armed,
and what the upper handler is called for is never older than a call that has returned. -/
namespace RooTesting.EspTimer
open AlarmService AlarmTable Transition Threads

variable {s s' : Shared} {f : ℕ → Local} {t : ℕ} {l l' : Local} {stage : ℕ → Stage}

/-- The step that takes the event of a generation to its next stage leaves alone what is at
another stage. -/
theorem stage_kept {g : ℕ} {k k' : Stage} (hstage : stage g = k) {j : ℕ} {m : Stage}
    (hj : stage j = m) (hm : m ≠ k) : Function.update stage g k' j = m := by
  rw [Function.update_of_ne, hj]
  rintro rfl
  exact hm (hj.symm.trans hstage)

/-- What a step of one thread cannot take from another. -/
theorem thread_kept {Q : Local → Prop} (hnot : ¬ Q (f t)) {u : ℕ} (hu : Q (f u)) :
    Q (Function.update f t l' u) := by
  rw [Function.update_of_ne]
  · exact hu
  · rintro rfl
    exact hnot hu

theorem clears_update (hnot : ¬ (f t).clears) (h : ∃ u, (f u).clears) :
    ∃ u, (Function.update f t l' u).clears := by
  obtain ⟨u, hu⟩ := h
  exact ⟨u, thread_kept hnot hu⟩

theorem arming_update (hnew : ∀ g timestamp, l'.arms g timestamp → stage g = .arming t)
    (hold : ∀ u, u ≠ t → ∀ g timestamp, (f u).arms g timestamp → stage g = .arming u) :
    ∀ u g timestamp, (Function.update f t l' u).arms g timestamp → stage g = .arming u := by
  intro u g timestamp harms
  by_cases hu : u = t
  · subst hu
    rw [Function.update_self] at harms
    exact hnew g timestamp harms
  · rw [Function.update_of_ne hu] at harms
    exact hold u hu g timestamp harms

theorem claimed_update (hnew : ∀ g, l'.claims g → stage g = .claimed t)
    (hold : ∀ u, u ≠ t → ∀ g, (f u).claims g → stage g = .claimed u) :
    ∀ u g, (Function.update f t l' u).claims g → stage g = .claimed u := by
  intro u g hclaims
  by_cases hu : u = t
  · subst hu
    rw [Function.update_self] at hclaims
    exact hnew g hclaims
  · rw [Function.update_of_ne hu] at hclaims
    exact hold u hu g hclaims

/-- A call of `set_alarm` draws a generation. -/
theorem Sound.staged_draw (h : Sound stage s f) (hframe : s.frame = none)
    (hon : s.initialized = true) {g timestamp : ℕ} (hg : g = s.compareGeneration + 1) :
    Staged (Function.update stage g (if (timestamp : ℤ) ≤ int64Max then .arming t else .idle))
      { s with
        locked := true, compareGeneration := g, requestedCompare := timestamp,
        scheduledAlarm := 0 }
      (Function.update f t (.dropStatus g timestamp s.scheduledAlarm)) := by
  have hidle : stage g = .idle := h.fresh g (by omega)
  have hkeep : ∀ {j k}, stage j = k → k ≠ .idle → Function.update stage g
      (if (timestamp : ℤ) ≤ int64Max then .arming t else .idle) j = k :=
    stage_kept hidle
  constructor
  · intro j hj
    have hj : g < j := hj
    rw [Function.update_of_ne (by omega)]
    exact h.fresh j (by omega)
  · apply arming_update
    · rintro j ts ⟨rfl, rfl, hrange⟩
      rw [Function.update_self, if_pos hrange]
    · intro u _ j ts harms
      exact hkeep (h.arming u j ts harms) Stage.noConfusion
  · exact fun e he => hkeep (h.alarm e he) Stage.noConfusion
  · exact claimed_update (fun _ hclaims => hclaims.elim) fun u _ j hclaims =>
      hkeep (h.claimed u j hclaims) Stage.noConfusion
  · exact fun hstatus => hkeep (h.status hstatus) Stage.noConfusion
  · exact fun j hconsumes => absurd hconsumes (not_consumes hframe)
  · exact fun i hi => hkeep (h.handled i hi) Stage.noConfusion
  · exact fun _ => Or.inr ⟨t, by rw [Function.update_self]; trivial⟩
  · intro j hcall
    rw [show s.frame = some (.call j) from hcall] at hframe
    cases hframe
  · intro heq
    have := h.pendingGeneration
    have heq : s.pendingGeneration = g := heq
    omega
  · intro hoff
    rw [show s.initialized = false from hoff] at hon
    cases hon
  · simp only [Function.update_self]
    split
    · rename_i hrange
      simp only [Current, Function.update_self]
      exact ⟨rfl, rfl, hrange⟩
    · rename_i hrange
      intro _
      by_contra hfits
      have hbounds : kMinAlarmUptimeMicros ≤ (timestamp : ℤ) ∧
          (timestamp : ℤ) ≤ kMaxAlarmUptimeMicros := by
        by_contra hnot
        simp [alarmMicrosToNanos, hnot] at hfits
      have hmax : kMaxAlarmUptimeMicros ≤ int64Max := by decide
      exact hrange (hbounds.2.trans hmax)
  · exact h.nodup

/-- A call of `deinit` draws a generation and switches the backend off. -/
theorem Sound.staged_retire (h : Sound stage s f) (hframe : s.frame = none) {g : ℕ}
    (hg : g = s.compareGeneration + 1) :
    Staged stage
      { s with
        locked := true, compareGeneration := g, initialized := false,
        requestedCompare := kDisarmedCompare }
      (Function.update f t (.retractStatus g)) := by
  have hidle : stage g = .idle := h.fresh g (by omega)
  constructor
  · intro j hj
    have hj : g < j := hj
    exact h.fresh j (by omega)
  · exact arming_update (fun _ _ harms => harms.elim) fun u _ => h.arming u
  · exact h.alarm
  · exact claimed_update (fun _ hclaims => hclaims.elim) fun u _ => h.claimed u
  · exact h.status
  · exact fun j hconsumes => absurd hconsumes (not_consumes hframe)
  · exact h.handled
  · exact fun _ => Or.inr ⟨t, by rw [Function.update_self]; trivial⟩
  · intro j hcall
    rw [show s.frame = some (.call j) from hcall] at hframe
    cases hframe
  · intro heq
    have := h.pendingGeneration
    have heq : s.pendingGeneration = g := heq
    omega
  · exact fun _ => hidle
  · rw [hidle]
    intro hon
    cases hon
  · exact h.nodup

/-- The alarm service hands the alarm out. -/
theorem Sound.staged_take (h : Sound stage s f) (hl : f t = .idle) {due : ℤ × AlarmNode ℕ}
    (hdue : due ∈ s.service.alarms) :
    Staged (Function.update stage due.2.callback (.claimed t))
      { s with service := AlarmTable.eraseId due.2.id s.service }
      (Function.update f t (.deliver due.2.callback)) := by
  have hstage := h.alarm due hdue
  have hkeep : ∀ {j k}, stage j = k → k ≠ .scheduled due.2.id →
      Function.update stage due.2.callback (.claimed t) j = k :=
    stage_kept hstage
  have hidle : ∀ {u}, f u ≠ .idle → u ≠ t := by
    rintro u hu rfl
    exact hu hl
  constructor
  · intro j hj
    exact hkeep (h.fresh j hj) Stage.noConfusion
  · exact arming_update (fun _ _ harms => harms.elim) fun u _ j ts harms =>
      hkeep (h.arming u j ts harms) Stage.noConfusion
  · intro e he
    obtain ⟨he, hid⟩ := mem_alarms_eraseId.mp he
    exact hkeep (h.alarm e he) fun heq => hid (Stage.scheduled.inj heq)
  · apply claimed_update
    · rintro j rfl
      exact Function.update_self ..
    · exact fun u _ j hclaims => hkeep (h.claimed u j hclaims) Stage.noConfusion
  · exact fun hstatus => hkeep (h.status hstatus) Stage.noConfusion
  · exact fun j hconsumes => hkeep (h.frame j hconsumes) Stage.noConfusion
  · exact fun i hi => hkeep (h.handled i hi) Stage.noConfusion
  · exact fun hrecent => (h.recent hrecent).imp_right (clears_update (by rw [hl]; exact id))
  · exact h.called
  · intro heq
    by_cases hcurrent : due.2.callback = s.compareGeneration
    · simp only [← hcurrent, Function.update_self]
      exact ⟨fun _ => Stage.noConfusion, fun _ => Stage.noConfusion⟩
    · simp only [Function.update_of_ne (Ne.symm hcurrent)]
      exact h.published heq
  · intro hoff
    exact hkeep (h.off hoff) Stage.noConfusion
  · by_cases hcurrent : due.2.callback = s.compareGeneration
    · simp only [← hcurrent, Function.update_self]
      simp only [Current, Function.update_self]
      rfl
    · simp only [Function.update_of_ne (Ne.symm hcurrent)]
      apply KeepsCurrent.apply _ h.off h.current
      constructor
      · rfl
      · rfl
      · rfl
      · intro e he hcallback
        refine mem_alarms_eraseId.mpr ⟨he, fun hid => hcurrent ?_⟩
        rw [← h.table.eq_of_id he hdue hid]
        exact hcallback
      · exact fun u => thread_kept (Q := fun l => l.arms _ _) (by rw [hl]; exact id)
      · exact fun u => thread_kept (Q := fun l => l.claims _) (by rw [hl]; exact id)
      · exact fun _ hstatus hpending hraised =>
          ⟨hstatus, hpending, raised_update id rfl (by simp [hl]) hraised⟩
      · exact id
      · exact fun _ hi => hi
  · exact h.nodup

/-- The call schedules the alarm of its generation. -/
theorem Sound.staged_schedule (h : Sound stage s f) {g timestamp : ℕ}
    (hl : f t = .schedule g timestamp) (hframe : s.frame = none) :
    Staged (Function.update stage g (.scheduled s.service.nextAlarmId))
      { s with service := AlarmTable.register (timestamp : ℤ) g s.service }
      (Function.update f t (.install g s.service.nextAlarmId)) := by
  have hstage : stage g = .arming t := h.arming t g timestamp (by rw [hl]; exact ⟨rfl, rfl⟩)
  have hkeep : ∀ {j k}, stage j = k → k ≠ .arming t →
      Function.update stage g (.scheduled s.service.nextAlarmId) j = k :=
    stage_kept hstage
  constructor
  · intro j hj
    exact hkeep (h.fresh j hj) Stage.noConfusion
  · exact arming_update (fun _ _ harms => harms.elim) fun u hu j ts harms =>
      hkeep (h.arming u j ts harms) fun heq => hu (Stage.arming.inj heq)
  · intro e he
    rcases mem_alarms_register.mp he with rfl | he
    · exact Function.update_self ..
    · exact hkeep (h.alarm e he) Stage.noConfusion
  · exact claimed_update (fun _ hclaims => hclaims.elim) fun u _ j hclaims =>
      hkeep (h.claimed u j hclaims) Stage.noConfusion
  · exact fun hstatus => hkeep (h.status hstatus) Stage.noConfusion
  · exact fun j hconsumes => absurd hconsumes (not_consumes hframe)
  · exact fun i hi => hkeep (h.handled i hi) Stage.noConfusion
  · exact fun hrecent => (h.recent hrecent).imp_right (clears_update (by rw [hl]; exact id))
  · exact h.called
  · intro heq
    have hpublished := h.published heq
    by_cases hcurrent : g = s.compareGeneration
    · rw [hcurrent] at hstage
      exact absurd hstage (hpublished.1 t)
    · simp only [Function.update_of_ne (Ne.symm hcurrent)]
      exact hpublished
  · intro hoff
    exact hkeep (h.off hoff) Stage.noConfusion
  · by_cases hcurrent : g = s.compareGeneration
    · have hold := h.current
      rw [← hcurrent, hstage] at hold
      simp only [Current, hl, Local.arms] at hold
      subst hcurrent
      simp only [Function.update_self]
      refine ⟨_, mem_alarms_register.mpr (Or.inl rfl), rfl, ?_⟩
      rw [hold.2]
    · simp only [Function.update_of_ne (Ne.symm hcurrent)]
      apply KeepsCurrent.apply _ h.off h.current
      constructor
      · rfl
      · rfl
      · rfl
      · exact fun e he _ => mem_alarms_register.mpr (Or.inr he)
      · intro u
        refine thread_kept (Q := fun l => l.arms _ _) ?_
        rw [hl]
        exact fun harms => hcurrent harms.1
      · exact fun u => thread_kept (Q := fun l => l.claims _) (by rw [hl]; exact id)
      · exact fun _ hstatus hpending hraised =>
          ⟨hstatus, hpending, raised_update id rfl (by simp [hl]) hraised⟩
      · exact id
      · exact fun _ hi => hi
  · exact h.nodup

/-- As long as a thread publishes the current generation, no older status is left. -/
theorem Sound.no_status (h : Sound stage s f) (hlocks : 0 < (f t).locks)
    (hclaims : (f t).claims s.compareGeneration) (hnotClears : ¬ (f t).clears) :
    s.pendingStatus = false ∧ s.frame ≠ some .loadGeneration := by
  have hstage := h.claimed t _ hclaims
  have hnone : ∀ u, ¬ (f u).clears := by
    intro u hu
    have heq := h.lock.eq_of_pos hu.locks hlocks
    exact hnotClears (heq ▸ hu)
  have hcurrent : s.pendingStatus = true ∨ s.frame = some .loadGeneration →
      s.pendingGeneration = s.compareGeneration := by
    intro hrecent
    exact (h.recent hrecent).resolve_right fun hclears => hnone _ hclears.choose_spec
  constructor
  · by_contra hnot
    have hstatus : s.pendingStatus = true := by simpa using hnot
    have hpending := h.status hstatus
    rw [hcurrent (Or.inl hstatus), hstage] at hpending
    cases hpending
  · intro hload
    have hconsumed := h.frame _ (Or.inl ⟨hload, hcurrent (Or.inr hload)⟩)
    rw [hstage] at hconsumed
    cases hconsumed

/-- The delivering thread stores its generation. -/
theorem Sound.staged_storeGeneration (h : Sound stage s f) {g : ℕ}
    (hl : f t = .storeGeneration g) :
    Staged stage { s with pendingGeneration := g } (Function.update f t (.storeStatus g)) := by
  obtain ⟨rfl, hon⟩ : g = s.compareGeneration ∧ s.initialized = true := by
    have := h.holds t
    rwa [hl] at this
  have hstage : stage s.compareGeneration = .claimed t := h.claimed t _ (by rw [hl]; rfl)
  obtain ⟨hstatus, hload⟩ := h.no_status (t := t) (by rw [hl]; exact Nat.one_pos)
    (by rw [hl]; rfl) (by rw [hl]; exact id)
  constructor
  · exact h.fresh
  · exact arming_update (fun _ _ harms => harms.elim) fun u _ => h.arming u
  · exact h.alarm
  · apply claimed_update
    · rintro j rfl
      exact hstage
    · exact fun u _ => h.claimed u
  · intro hset
    rw [show s.pendingStatus = true from hset] at hstatus
    cases hstatus
  · rintro j (⟨hframe, _⟩ | hframe)
    · exact absurd hframe hload
    · exact h.frame j (Or.inr hframe)
  · exact h.handled
  · exact fun _ => Or.inl rfl
  · exact h.called
  · intro _
    simp only [hstage]
    exact ⟨fun _ => Stage.noConfusion, fun _ => Stage.noConfusion⟩
  · intro hoff
    rw [show s.initialized = false from hoff] at hon
    cases hon
  · simp only [hstage, Current, Function.update_self]
    rfl
  · exact h.nodup

/-- The delivering thread sets the status. -/
theorem Sound.staged_storeStatus (h : Sound stage s f) {g : ℕ} (hl : f t = .storeStatus g) :
    Staged (Function.update stage g .pending) { s with pendingStatus := true, locked := false }
      (Function.update f t .raise) := by
  obtain ⟨rfl, hon, hpending⟩ : g = s.compareGeneration ∧ s.initialized = true ∧
      s.pendingGeneration = g := by
    have := h.holds t
    rwa [hl] at this
  have hstage : stage s.compareGeneration = .claimed t := h.claimed t _ (by rw [hl]; rfl)
  have hkeep : ∀ {j k}, stage j = k → k ≠ .claimed t →
      Function.update stage s.compareGeneration .pending j = k :=
    stage_kept hstage
  constructor
  · intro j hj
    exact hkeep (h.fresh j hj) Stage.noConfusion
  · exact arming_update (fun _ _ harms => harms.elim) fun u _ j ts harms =>
      hkeep (h.arming u j ts harms) Stage.noConfusion
  · exact fun e he => hkeep (h.alarm e he) Stage.noConfusion
  · exact claimed_update (fun _ hclaims => hclaims.elim) fun u hu j hclaims =>
      hkeep (h.claimed u j hclaims) fun heq => hu (Stage.claimed.inj heq)
  · intro _
    simp only [hpending, Function.update_self]
  · exact fun j hconsumes => hkeep (h.frame j hconsumes) Stage.noConfusion
  · exact fun i hi => hkeep (h.handled i hi) Stage.noConfusion
  · exact fun _ => Or.inl hpending
  · exact h.called
  · intro _
    simp only [Function.update_self]
    exact ⟨fun _ => Stage.noConfusion, fun _ => Stage.noConfusion⟩
  · intro hoff
    rw [show s.initialized = false from hoff] at hon
    cases hon
  · simp only [Function.update_self]
    exact ⟨rfl, hpending, Or.inl ⟨t, Function.update_self ..⟩⟩
  · exact h.nodup

/-- The interrupt handler consumes the status. -/
theorem Sound.staged_consume (h : Sound stage s f) (hframe : s.frame = some .exchange)
    (hstatus : s.pendingStatus = true) :
    Staged (Function.update stage s.pendingGeneration .consumed)
      { s with pendingStatus := false, frame := some .loadGeneration } f := by
  have hstage := h.status hstatus
  have hkeep : ∀ {j k}, stage j = k → k ≠ .pending →
      Function.update stage s.pendingGeneration .consumed j = k :=
    stage_kept hstage
  constructor
  · intro j hj
    exact hkeep (h.fresh j hj) Stage.noConfusion
  · exact fun u j ts harms => hkeep (h.arming u j ts harms) Stage.noConfusion
  · exact fun e he => hkeep (h.alarm e he) Stage.noConfusion
  · exact fun u j hclaims => hkeep (h.claimed u j hclaims) Stage.noConfusion
  · intro hset
    cases hset
  · rintro j (⟨_, rfl⟩ | hcompare | hcall)
    · exact Function.update_self ..
    · cases hcompare
    · cases hcall
  · exact fun i hi => hkeep (h.handled i hi) Stage.noConfusion
  · exact fun _ => h.recent (Or.inl hstatus)
  · intro j hcall
    cases hcall
  · intro heq
    have heq : s.pendingGeneration = s.compareGeneration := heq
    simp only [heq, Function.update_self]
    exact ⟨fun _ => Stage.noConfusion, fun _ => Stage.noConfusion⟩
  · intro hoff
    exact hkeep (h.off hoff) Stage.noConfusion
  · by_cases hcurrent : s.pendingGeneration = s.compareGeneration
    · rw [show Function.update stage s.pendingGeneration .consumed s.compareGeneration =
        .consumed by rw [hcurrent, Function.update_self]]
      exact Or.inl ⟨rfl, hcurrent⟩
    · simp only [Function.update_of_ne (Ne.symm hcurrent)]
      apply KeepsCurrent.apply _ h.off h.current
      constructor
      · rfl
      · rfl
      · rfl
      · exact fun _ he _ => he
      · exact fun _ => id
      · exact fun _ => id
      · exact fun _ _ hpending => absurd hpending hcurrent
      · intro hconsumes
        simp [Shared.consumes, hframe] at hconsumes
      · exact fun _ hi => hi
  · exact h.nodup

/-- The interrupt handler calls the upper handler. -/
theorem Sound.staged_call (h : Sound stage s f) {g handler : ℕ}
    (hframe : s.frame = some (.call g)) :
    Staged (Function.update stage g .handled)
      { s with frame := none, invoked := ⟨g, handler⟩ :: s.invoked } f := by
  have hstage : stage g = .consumed := h.frame g (Or.inr (Or.inr hframe))
  have hcurrent : g = s.compareGeneration := h.called g hframe
  have hkeep : ∀ {j k}, stage j = k → k ≠ .consumed →
      Function.update stage g .handled j = k :=
    stage_kept hstage
  constructor
  · intro j hj
    exact hkeep (h.fresh j hj) Stage.noConfusion
  · exact fun u j ts harms => hkeep (h.arming u j ts harms) Stage.noConfusion
  · exact fun e he => hkeep (h.alarm e he) Stage.noConfusion
  · exact fun u j hclaims => hkeep (h.claimed u j hclaims) Stage.noConfusion
  · exact fun hstatus => hkeep (h.status hstatus) Stage.noConfusion
  · exact fun j hconsumes => absurd hconsumes (not_consumes rfl)
  · intro i hi
    rcases List.mem_cons.mp hi with rfl | hi
    · exact Function.update_self ..
    · exact hkeep (h.handled i hi) Stage.noConfusion
  · rintro (hstatus | hload)
    · exact h.recent (Or.inl hstatus)
    · cases hload
  · intro j hcall
    cases hcall
  · intro _
    simp only [← hcurrent, Function.update_self]
    exact ⟨fun _ => Stage.noConfusion, fun _ => Stage.noConfusion⟩
  · intro hoff
    exact hkeep (h.off hoff) Stage.noConfusion
  · rw [show Function.update stage g .handled s.compareGeneration = .handled by
      rw [hcurrent, Function.update_self]]
    exact ⟨_, List.mem_cons_self, hcurrent⟩
  · rw [List.map_cons, List.nodup_cons]
    refine ⟨?_, h.nodup⟩
    intro hmem
    obtain ⟨i, hi, hig⟩ := List.mem_map.mp hmem
    have hhandled := h.handled i hi
    rw [show i.generation = g from hig, hstage] at hhandled
    cases hhandled

/-- The backend is switched on, with the compare disarmed. -/
theorem Sound.staged_publish (h : Sound stage s f) {handler : ℕ}
    (hl : f t = .publishHandler handler) :
    Staged stage
      { s with
        interruptHandle := true, requestedCompare := kDisarmedCompare, scheduledAlarm := 0,
        upperHandler := some handler, initialized := true, locked := false }
      (Function.update f t .idle) := by
  have hoff : s.initialized = false := by
    have := h.holds t
    rwa [hl] at this
  have hidle := h.off hoff
  constructor
  · exact h.fresh
  · exact arming_update (fun _ _ harms => harms.elim) fun u _ => h.arming u
  · exact h.alarm
  · exact claimed_update (fun _ hclaims => hclaims.elim) fun u _ => h.claimed u
  · exact h.status
  · exact h.frame
  · exact h.handled
  · exact fun hrecent => (h.recent hrecent).imp_right (clears_update (by rw [hl]; exact id))
  · exact h.called
  · exact h.published
  · intro hnot
    cases hnot
  · simp only [hidle, Current]
    intro _
    decide
  · exact h.nodup

/-- A status that is not of the current generation is withdrawn. -/
theorem Staged.clear (h : Staged stage s f) (hframe : s.frame = none) {locked : Bool}
    (hnot : s.initialized = true → s.pendingGeneration ≠ s.compareGeneration)
    (harms : ∀ g timestamp, l'.arms g timestamp ↔ (f t).arms g timestamp)
    (hclaims : ∀ g, l'.claims g ↔ (f t).claims g) :
    Staged stage { s with pendingStatus := false, locked := locked }
      (Function.update f t l') := by
  constructor
  · exact h.fresh
  · exact arming_update (fun g timestamp hl' => h.arming t g timestamp ((harms g timestamp).mp hl'))
      fun u _ => h.arming u
  · exact h.alarm
  · exact claimed_update (fun g hl' => h.claimed t g ((hclaims g).mp hl')) fun u _ => h.claimed u
  · intro hset
    cases hset
  · exact h.frame
  · exact h.handled
  · rintro (hset | hload)
    · cases hset
    · rw [show s.frame = some .loadGeneration from hload] at hframe
      cases hframe
  · exact h.called
  · exact h.published
  · exact h.off
  · apply KeepsCurrent.apply _ h.off h.current
    constructor
    · rfl
    · rfl
    · rfl
    · exact fun _ he _ => he
    · exact update_related (Q := fun l k => l.arms _ _ → k.arms _ _) (fun _ => id)
        (harms _ _).mpr
    · exact update_related (Q := fun l k => l.claims _ → k.claims _) (fun _ => id) (hclaims _).mpr
    · exact fun hon _ hpending => absurd hpending (hnot hon)
    · exact fun hconsumes => absurd hconsumes (not_consumes hframe)
    · exact fun _ hi => hi
  · exact h.nodup

/-- A cancellation of an alarm of an old generation. -/
theorem Sound.staged_cancel (h : Sound stage s f) {id : ℕ} (hdead : s.dead id)
    (hraise : f t ≠ .raise) (halike : (f t).Alike s.compareGeneration l') {locked : Bool}
    {returned : List ℕ} :
    Staged stage { s.cancelSystemTimeAlarm id with locked := locked, returned := returned }
      (Function.update f t l') := by
  refine h.toStaged.same (SameTraces.thread rfl rfl rfl rfl rfl rfl rfl ?_ ?_ halike ?_)
  · exact fun e he => ((mem_alarms_cancel h.table).mp he).1
  · intro e he hcallback
    refine (mem_alarms_cancel h.table).mpr ⟨he, fun hid => ?_⟩
    have := hdead.2 e he hid
    omega
  · exact fun _ => raised_update (fun hline => hline) rfl fun heq => absurd heq hraise

/-- The thread that has published the status raises the interrupt. -/
theorem Sound.staged_raise (h : Sound stage s f) (hl : f t = .raise) :
    Staged stage { s with line := s.line.raiseInterruptSource } (Function.update f t .idle) := by
  have halike : (f t).Alike s.compareGeneration .idle := by
    rw [hl]
    exact Local.alike_traceless rfl rfl
  apply h.toStaged.move halike
  · exact fun hon _ => by simp [Line.raiseInterruptSource, (h.on hon).1]
  · exact fun hon _ => by simp [Line.raiseInterruptSource, (h.on hon).1]

/-- The handler that has compared the generation finds the upper handler in place: the call is
never lost. -/
theorem Sound.upperHandler_called (h : Sound stage s f) {g : ℕ}
    (hframe : s.frame = some (.call g)) : s.upperHandler ≠ none := by
  intro hhandler
  have hconsumed := h.frame g (Or.inr (Or.inr hframe))
  rw [h.called g hframe] at hconsumed
  by_cases hon : s.initialized = true
  · have := (h.on hon).2.2.1
    rw [hhandler] at this
    cases this
  · rw [h.off (by simpa using hon)] at hconsumed
    cases hconsumed

/-- A delivery that is refused is of an old generation. -/
theorem Sound.refused_old (h : Sound stage s f) {g : ℕ} (hl : f t = .deliver g)
    (hstale : s.initialized = false ∨ g ≠ s.compareGeneration) : g ≠ s.compareGeneration := by
  rcases hstale with hoff | hne
  · rintro rfl
    have hstage := h.claimed t s.compareGeneration (by rw [hl]; rfl)
    rw [h.off hoff] at hstage
    cases hstage
  · exact hne

/-- The stages follow every step. -/
theorem Sound.staged_takes (h : Sound stage s f) (htakes : Takes s (f t) s' l') :
    ∃ stage', Staged stage' s' (Function.update f t l') := by
  have hholds := h.holds t
  have hcounted := h.counted t
  have howns : 0 < (f t).owns → s.initialized = false := by
    intro hpos
    have := h.line.true_of_pos hpos
    simpa using (Bool.and_eq_true_iff.mp this).2
  have hquiet : ∀ {k : Local}, f t = k → k.traceless = true → l'.traceless = true →
      (f t).Alike s.compareGeneration l' := by
    rintro k hk htraceless htraceless'
    rw [hk]
    exact Local.alike_traceless htraceless htraceless'
  generalize hl : f t = l at htakes hholds hcounted howns
  cases htakes with
  | stay =>
    rw [← hl, Function.update_eq_self]
    exact ⟨_, h.toStaged⟩
  -- `esp_timer_impl_init`
  | allocate _ _ hoff =>
    exact ⟨_, h.toStaged.move (hquiet hl rfl rfl) (by simp [hoff]) (by simp [hl])⟩
  | enable => exact ⟨_, h.toStaged.move (hquiet hl rfl rfl) (fun _ => id) (by simp [hl])⟩
  | abandon =>
    have hoff := howns Nat.one_pos
    exact ⟨_, h.toStaged.move (hquiet hl rfl rfl) (by simp [hoff]) (by simp [hl])⟩
  | clear hframe =>
    refine ⟨_, h.toStaged.clear hframe ?_ ?_ ?_⟩
    · intro hon
      rw [show s.initialized = false from hholds] at hon
      cases hon
    · simp [hl, Local.arms]
    · simp [hl, Local.claims]
  | publish => exact ⟨_, h.staged_publish hl⟩
  -- `esp_timer_impl_set_alarm_id`
  | draw hframe _ hon hnext =>
    exact ⟨_, h.staged_draw hframe hon (nextGeneration_eq h.small hnext).1⟩
  | drop hframe =>
    refine ⟨_, h.toStaged.clear hframe ?_ ?_ ?_⟩
    · exact fun _ => hholds.2.2.ne
    · simp [hl, Local.arms]
    · simp [hl, Local.claims]
  | cancel _ hrange =>
    have halike := hl ▸ alike_schedule s.compareGeneration hrange
    exact ⟨_, h.staged_cancel hcounted.2 (by simp [hl]) halike⟩
  | cancelOnly _ hrange =>
    have halike := hl ▸ alike_leave s.compareGeneration hrange
    exact ⟨_, h.staged_cancel hcounted.2 (by simp [hl]) halike⟩
  | schedule hframe hscheduled =>
    obtain ⟨_, _, _, rfl, rfl⟩ := schedule_eq_some.mp hscheduled
    exact ⟨_, h.staged_schedule hl hframe⟩
  | keep => exact ⟨_, h.toStaged.move (hquiet hl rfl rfl) (fun _ => id) (by simp [hl])⟩
  | reject => exact ⟨_, h.toStaged.move (hquiet hl rfl rfl) (fun _ => id) (by simp [hl])⟩
  | discard => exact ⟨_, h.staged_cancel hcounted.2 (by simp [hl]) (hquiet hl rfl rfl)⟩
  -- `esp_timer_impl_deinit`
  | retire hframe _ _ hnext =>
    exact ⟨_, h.staged_retire hframe (nextGeneration_eq h.small hnext).1⟩
  | retract hframe =>
    refine ⟨_, h.toStaged.clear hframe ?_ ?_ ?_⟩
    · intro hon
      rw [hholds.1] at hon
      cases hon
    · simp [hl, Local.arms]
    · simp [hl, Local.claims]
  | retractUpper =>
    exact ⟨_, h.toStaged.move (hquiet hl rfl rfl) (fun _ => id) (by simp [hl])⟩
  | cancelLast => exact ⟨_, h.staged_cancel hcounted.2 (by simp [hl]) (hquiet hl rfl rfl)⟩
  | cancelAlone => exact ⟨_, h.staged_cancel hcounted.2 (by simp [hl]) (hquiet hl rfl rfl)⟩
  | disable => exact ⟨_, h.toStaged.move (hquiet hl rfl rfl) (fun _ => id) (by simp [hl])⟩
  | free =>
    have hoff := howns Nat.one_pos
    exact ⟨_, h.toStaged.move (hquiet hl rfl rfl) (by simp [hoff]) (by simp [hl])⟩
  -- the delivery of an alarm
  | take hdue =>
    obtain ⟨hmem, rfl⟩ := popDue_some h.table hdue
    exact ⟨_, h.staged_take hl hmem⟩
  | refuse _ hstale =>
    have halike := hl ▸ alike_refuse (h.refused_old hl hstale)
    exact ⟨_, h.toStaged.move halike (fun _ => id) (by simp [hl])⟩
  | accept =>
    exact ⟨_, h.toStaged.move (hl ▸ alike_accept _) (fun _ => id) (by simp [hl])⟩
  | storeGeneration => exact ⟨_, h.staged_storeGeneration hl⟩
  | storeStatus => exact ⟨_, h.staged_storeStatus hl⟩
  | raise => exact ⟨_, h.staged_raise hl⟩
  | advance =>
    rw [← hl]
    exact ⟨_, h.toStaged.advance⟩
  -- the interrupt
  | dispatch hframe =>
    rw [← hl, Function.update_eq_self]
    exact ⟨_, h.toStaged.dispatch hframe⟩
  | consume hframe hstatus =>
    rw [← hl, Function.update_eq_self]
    exact ⟨_, h.staged_consume hframe hstatus⟩
  | ignore hframe hstatus =>
    rw [← hl, Function.update_eq_self]
    exact ⟨_, h.toStaged.ignore hframe hstatus⟩
  | load hframe =>
    rw [← hl, Function.update_eq_self]
    exact ⟨_, h.toStaged.load hframe⟩
  | pass hframe hcurrent =>
    rw [← hl, Function.update_eq_self]
    exact ⟨_, h.toStaged.pass hframe hcurrent⟩
  | stale hframe hstale =>
    rw [← hl, Function.update_eq_self]
    exact ⟨_, h.toStaged.stale hframe hstale⟩
  | call hframe =>
    rw [← hl, Function.update_eq_self]
    exact ⟨_, h.staged_call hframe⟩
  | lose hframe hhandler => exact absurd hhandler (h.upperHandler_called hframe)

/-- The invariant holds at some assignment of stages. -/
def Invariant (c : System) : Prop := ∃ stage, Sound stage c.shared c.thread

theorem invariant_start (autoSync : Bool) (hostNowNs : ℤ) :
    Invariant (start autoSync hostNowNs) := by
  refine ⟨fun _ => .idle, ?_⟩
  have hempty : ∀ e ∈ (start autoSync hostNowNs).shared.service.alarms, False :=
    fun e he => by simp [start, initial] at he
  constructor
  · constructor
    · exact fun _ => rfl
    · exact fun _ => rfl
    · intro hon
      cases hon
    · exact fun _ => trivial
  · constructor
    · exact fun _ _ => rfl
    · exact fun _ _ _ harms => harms.elim
    · exact fun e he => (hempty e he).elim
    · exact fun _ _ hclaims => hclaims.elim
    · intro hstatus
      cases hstatus
    · exact fun g hconsumes => absurd hconsumes (not_consumes rfl)
    · simp [start]
    · rintro (hstatus | hload)
      · cases hstatus
      · cases hload
    · intro g hcall
      cases hcall
    · exact fun _ => ⟨fun _ => Stage.noConfusion, fun _ => Stage.noConfusion⟩
    · exact fun _ => rfl
    · intro hon
      cases hon
    · simp [start]
  · exact tableOk_initial autoSync hostNowNs
  · exact Nat.two_pow_pos 64
  · exact issued_pos
  · exact le_rfl
  · simp [start]
  · exact fun _ => trivial
  · exact fun _ => trivial

theorem invariant_step : Preserves (fire program) Invariant := by
  rintro c ⟨t, event⟩ c' hstep ⟨stage, h⟩
  obtain ⟨s', l', hprogram, rfl⟩ := fire_eq_some.mp hstep
  have htakes := program_takes hprogram
  obtain ⟨stage', hstaged⟩ := h.staged_takes htakes
  exact ⟨stage', h.of_staged htakes hstaged⟩

theorem Reachable.invariant {c : System} (h : Reachable c) : Invariant c := by
  obtain ⟨autoSync, hostNowNs, events, hrun⟩ := h
  exact invariant_step.run hrun (invariant_start autoSync hostNowNs)

/-- The check has held: no generation that is compared has wrapped. -/
theorem Reachable.generation_lt {c : System} (h : Reachable c) :
    c.shared.compareGeneration < uint64Size ∧ c.shared.pendingGeneration < uint64Size := by
  obtain ⟨stage, hsound⟩ := h.invariant
  exact ⟨hsound.small, hsound.pendingGeneration.trans_lt hsound.small⟩

/-- The place of the stage. -/
theorem Staged.at_place (h : Staged stage s f) {p : Place} (hat : At ⟨s, f⟩ p) :
    match p with
    | .arming => ∃ u, stage s.compareGeneration = .arming u
    | .scheduled => ∃ id, stage s.compareGeneration = .scheduled id
    | .claimed => ∃ u, stage s.compareGeneration = .claimed u
    | .pending => stage s.compareGeneration = .pending
    | .consumed => stage s.compareGeneration = .consumed
    | .handled => stage s.compareGeneration = .handled := by
  cases p with
  | arming =>
    obtain ⟨u, hu⟩ := hat
    exact ⟨u, h.arming u _ _ hu⟩
  | scheduled =>
    obtain ⟨e, he, hcallback, _⟩ := hat
    have := h.alarm e he
    rw [hcallback] at this
    exact ⟨_, this⟩
  | claimed =>
    obtain ⟨u, hu⟩ := hat
    exact ⟨u, h.claimed u _ hu⟩
  | pending =>
    have := h.status hat.1
    rw [hat.2.1] at this
    exact this
  | consumed => exact h.frame _ hat
  | handled =>
    obtain ⟨i, hi, hgeneration⟩ := hat
    have := h.handled i hi
    rw [hgeneration] at this
    exact this

/-- The event of the current generation is at one place at most. -/
theorem Staged.place_unique (h : Staged stage s f) {p q : Place} (hp : At ⟨s, f⟩ p)
    (hq : At ⟨s, f⟩ q) : p = q := by
  have hp := h.at_place hp
  have hq := h.at_place hq
  cases p <;> cases q <;> first
    | rfl
    | (obtain ⟨_, hp⟩ := hp; obtain ⟨_, hq⟩ := hq; rw [hp] at hq; cases hq)
    | (obtain ⟨_, hp⟩ := hp; rw [hp] at hq; cases hq)
    | (obtain ⟨_, hq⟩ := hq; rw [hp] at hq; cases hq)
    | (rw [hp] at hq; cases hq)

/-- With an armed compare in the range of the clock, it is at one place at least. -/
theorem Staged.place_exists (h : Staged stage s f) (hon : s.initialized = true)
    (hfits : (alarmMicrosToNanos s.requestedCompare).isSome) : ∃ p, At ⟨s, f⟩ p := by
  have hcurrent := h.current
  cases hk : stage s.compareGeneration with
  | idle =>
    rw [hk] at hcurrent
    rw [hcurrent hon] at hfits
    cases hfits
  | arming u =>
    rw [hk] at hcurrent
    exact ⟨.arming, u, hcurrent⟩
  | scheduled id =>
    rw [hk] at hcurrent
    exact ⟨.scheduled, hcurrent⟩
  | claimed u =>
    rw [hk] at hcurrent
    exact ⟨.claimed, u, hcurrent⟩
  | pending =>
    rw [hk] at hcurrent
    exact ⟨.pending, hcurrent⟩
  | consumed =>
    rw [hk] at hcurrent
    exact ⟨.consumed, hcurrent⟩
  | handled =>
    rw [hk] at hcurrent
    exact ⟨.handled, hcurrent⟩

/-- What a step adds to the invocations is of the current generation. -/
theorem invoked_step {c c' : System} (h : Invariant c) {a : ℕ × Event}
    (hstep : fire program c a = some c') :
    c.shared.compareGeneration ≤ c'.shared.compareGeneration ∧
    ∃ new, c'.shared.invoked = new ++ c.shared.invoked ∧
      ∀ i ∈ new, i.generation = c.shared.compareGeneration := by
  obtain ⟨stage, h⟩ := h
  obtain ⟨s', l', hprogram, rfl⟩ := fire_eq_some.mp hstep
  have htakes := program_takes hprogram
  refine ⟨(h.later htakes).generation, ?_⟩
  generalize c.thread a.1 = l at htakes
  cases htakes
  case call generation handler hframe _ =>
    refine ⟨[⟨generation, handler⟩], rfl, ?_⟩
    intro i hi
    rw [List.mem_singleton.mp hi]
    exact h.called generation hframe
  all_goals exact ⟨[], rfl, fun i hi => absurd hi List.not_mem_nil⟩

theorem invoked_run {c c' : System} {events : List (ℕ × Event)} (h : Invariant c)
    (hrun : run (fire program) c events = some c') :
    ∃ new, c'.shared.invoked = new ++ c.shared.invoked ∧
      ∀ i ∈ new, c.shared.compareGeneration ≤ i.generation := by
  induction events generalizing c with
  | nil =>
    obtain rfl := Option.some.inj hrun
    exact ⟨[], rfl, fun i hi => absurd hi List.not_mem_nil⟩
  | cons a events ih =>
    obtain ⟨d, hstep, hrun⟩ := run_cons_eq_some.mp hrun
    obtain ⟨hle, new, hnew, hgeneration⟩ := invoked_step h hstep
    obtain ⟨later, hlater, hgenerations⟩ := ih (invariant_step hstep h) hrun
    refine ⟨later ++ new, by rw [hlater, hnew, List.append_assoc], ?_⟩
    intro i hi
    rcases List.mem_append.mp hi with hi | hi
    · exact hle.trans (hgenerations i hi)
    · exact (hgeneration i hi).ge

/-- **The event of an armed compare is at exactly one place from the drawing of its
generation to the end of its handling, no generation is handled twice, and after a call of
`set_alarm` or `deinit` has returned the upper handler is called for no earlier generation.** -/
theorem wakeup_once {c : System} (h : Reachable c) :
    (c.shared.initialized = true → (alarmMicrosToNanos c.shared.requestedCompare).isSome →
      ∃! p, At c p) ∧
    (c.shared.invoked.map Invocation.generation).Nodup ∧
    ∀ events c', run (fire program) c events = some c' →
      ∃ new, c'.shared.invoked = new ++ c.shared.invoked ∧
        ∀ i ∈ new, ∀ g ∈ c.shared.returned, g ≤ i.generation := by
  obtain ⟨stage, hsound⟩ := h.invariant
  refine ⟨?_, hsound.nodup, ?_⟩
  · intro hon hfits
    obtain ⟨p, hp⟩ := hsound.place_exists hon hfits
    exact ⟨p, hp, fun q hq => hsound.place_unique hq hp⟩
  · intro events c' hrun
    obtain ⟨new, hnew, hgeneration⟩ := invoked_run h.invariant hrun
    exact ⟨new, hnew, fun i hi g hg => (hsound.returned g hg).trans (hgeneration i hi)⟩

/-- Thread 0 initializes the backend and arms the compare at 10 microseconds. -/
def armingRun : List (ℕ × Event) :=
  [(0, .init (some 7) true), (0, .resume true), (0, .resume true), (0, .resume true),
    (0, .setAlarm 10 0)]

/-- The alarm is delivered by thread 1 and handled in an interrupt frame. -/
def deliveryRun : List (ℕ × Event) :=
  armingRun ++ [(0, .resume true), (0, .resume true), (0, .resume true), (0, .resume true),
    (1, .advance 10000), (1, .claim), (1, .resume true), (1, .resume true), (1, .resume true),
    (1, .resume true), (2, .dispatch), (2, .interrupt), (2, .interrupt), (2, .interrupt),
    (2, .interrupt)]

theorem wakeup_once_delivered : ∃ c, run (fire program) (start false 0) deliveryRun = some c ∧
    c.shared.initialized = true ∧ (alarmMicrosToNanos c.shared.requestedCompare).isSome ∧
    c.shared.invoked = [⟨1, 7⟩] ∧ (∃! p, At c p) ∧
    (c.shared.invoked.map Invocation.generation).Nodup ∧
    ∀ events c', run (fire program) c events = some c' →
      ∃ new, c'.shared.invoked = new ++ c.shared.invoked ∧
        ∀ i ∈ new, ∀ g ∈ c.shared.returned, g ≤ i.generation := by
  have hrun : (run (fire program) (start false 0) deliveryRun).map (fun c =>
      (c.shared.initialized, c.shared.requestedCompare, c.shared.invoked)) =
        some (true, 10, [⟨1, 7⟩]) := by decide +kernel
  obtain ⟨c, hc, heq⟩ := Option.map_eq_some_iff.mp hrun
  simp only [Prod.mk.injEq] at heq
  obtain ⟨hon, hrequested, hinvoked⟩ := heq
  have hfits : (alarmMicrosToNanos c.shared.requestedCompare).isSome := by
    rw [hrequested]
    decide
  obtain ⟨hplace, hrest⟩ := wakeup_once ⟨false, 0, deliveryRun, hc⟩
  exact ⟨c, hc, hon, hfits, hinvoked, hplace hon hfits, hrest⟩

/-- Between the section of `set_alarm` and its registration the event is at none of the
places where it waits or has been consumed. -/
theorem places_arming : ¬ ∀ c : System, Reachable c → c.shared.initialized = true →
    (alarmMicrosToNanos c.shared.requestedCompare).isSome →
      At c .scheduled ∨ At c .pending ∨ At c .consumed ∨ At c .handled := by
  intro hplaces
  have hrun : (run (fire program) (start false 0) armingRun).map (fun c =>
      (c.shared.initialized, c.shared.requestedCompare, c.shared.service.alarms.length,
        c.shared.pendingStatus, c.shared.frame.isNone, c.shared.invoked.length)) =
        some (true, 10, 0, false, true, 0) := by decide +kernel
  obtain ⟨c, hc, heq⟩ := Option.map_eq_some_iff.mp hrun
  simp only [Prod.mk.injEq] at heq
  obtain ⟨hon, hrequested, halarms, hstatus, hframe, hinvoked⟩ := heq
  rcases hplaces c ⟨false, 0, armingRun, hc⟩ hon (by rw [hrequested]; decide) with
    ⟨e, he, _⟩ | ⟨hset, _⟩ | hconsumes | ⟨i, hi, _⟩
  · rw [List.length_eq_zero_iff.mp halarms] at he
    exact absurd he List.not_mem_nil
  · rw [hstatus] at hset
    cases hset
  · exact not_consumes (Option.isNone_iff_eq_none.mp hframe) hconsumes
  · rw [List.length_eq_zero_iff.mp hinvoked] at hi
    exact absurd hi List.not_mem_nil

end RooTesting.EspTimer
