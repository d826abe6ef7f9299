import RooTesting.EspTimerSteps

/-! # Where the event of each generation is

A generation passes from the call that has drawn it to its alarm, to the thread that
delivers the alarm, to the status, to the interrupt frame and to the upper handler. Each
generation is at one stage, and all traces of it agree on the stage. -/
namespace RooTesting.EspTimer
open AlarmService AlarmTable Transition Threads

inductive Stage where
  | idle
  | arming (thread : ℕ)
  | scheduled (id : ℕ)
  | claimed (thread : ℕ)
  | pending
  | consumed
  | handled
  deriving DecidableEq

variable {s s' : Shared} {f : ℕ → Local} {t : ℕ} {l l' : Local} {stage : ℕ → Stage}

/-- No alarm with the id belongs to the current generation. -/
def Shared.dead (s : Shared) (id : ℕ) : Prop :=
  id < issued s.service ∧ ∀ e ∈ s.service.alarms, e.2.id = id → e.2.callback < s.compareGeneration

/-- The generations that a thread knows have been drawn, and the alarms that it will cancel
are of old generations. -/
def Local.counted (s : Shared) : Local → Prop
  | .dropStatus g _ a | .cancelOld g _ a | .cancelNew g a | .cancelAlarm g a _ =>
    g ≤ s.compareGeneration ∧ s.dead a
  | .install g a => g ≤ s.compareGeneration ∧ a < issued s.service ∧
      ∀ e ∈ s.service.alarms, e.2.id = a → e.2.callback = g
  | .schedule g _ | .retractStatus g | .retractHandler g | .disableInterrupt g
  | .freeInterrupt g | .deliver g | .storeGeneration g | .storeStatus g =>
    g ≤ s.compareGeneration
  | _ => True

/-- What the owner of the mutex knows until it gives the mutex back. -/
def Local.holds (s : Shared) : Local → Prop
  | .enableInterrupt _ | .clearStatus _ | .publishHandler _ => s.initialized = false
  | .dropStatus g t _ => g = s.compareGeneration ∧ t = s.requestedCompare ∧
      s.pendingGeneration < s.compareGeneration
  | .retractStatus _ | .retractHandler _ => s.initialized = false ∧ s.dead s.scheduledAlarm
  | .storeGeneration g => g = s.compareGeneration ∧ s.initialized = true
  | .storeStatus g => g = s.compareGeneration ∧ s.initialized = true ∧ s.pendingGeneration = g
  | _ => True

/-- Generations and ids only grow, and an alarm with an issued id was there before. -/
structure Later (s s' : Shared) : Prop where
  generation : s.compareGeneration ≤ s'.compareGeneration
  issued : issued s.service ≤ issued s'.service
  alarms : ∀ e ∈ s'.service.alarms, e.2.id < AlarmTable.issued s.service → e ∈ s.service.alarms

theorem Later.of_eq (hgeneration : s.compareGeneration = s'.compareGeneration)
    (hservice : s'.service = s.service) : Later s s' where
  generation := hgeneration.le
  issued := by rw [hservice]
  alarms := by
    rw [hservice]
    exact fun e he _ => he

theorem Later.leave (h : Later s s') (g : ℕ) : Later s (s'.leave g).1 :=
  ⟨h.generation, h.issued, h.alarms⟩

theorem Later.dead (h : Later s s') {id : ℕ} (hdead : s.dead id) : s'.dead id := by
  refine ⟨hdead.1.trans_le h.issued, ?_⟩
  intro e he hid
  have hold := h.alarms e he (hid ▸ hdead.1)
  exact (hdead.2 e hold hid).trans_le h.generation

theorem Later.counted (h : Later s s') (hl : l.counted s) : l.counted s' := by
  cases l
  case install =>
    obtain ⟨hle, hissued, hall⟩ := hl
    refine ⟨hle.trans h.generation, hissued.trans_le h.issued, ?_⟩
    intro e he hid
    exact hall e (h.alarms e he (hid ▸ hissued)) hid
  case dropStatus => exact ⟨hl.1.trans h.generation, h.dead hl.2⟩
  case cancelOld => exact ⟨hl.1.trans h.generation, h.dead hl.2⟩
  case cancelNew => exact ⟨hl.1.trans h.generation, h.dead hl.2⟩
  case cancelAlarm => exact ⟨hl.1.trans h.generation, h.dead hl.2⟩
  all_goals first
    | trivial
    | exact le_trans hl h.generation

theorem Local.holds_of_free (hfree : l.locks = 0) (s : Shared) : l.holds s := by
  cases l <;> simp_all [Local.holds, Local.locks]

theorem nextGeneration_eq {g : ℕ} (hsmall : s.compareGeneration < uint64Size)
    (h : s.nextGeneration = some g) : g = s.compareGeneration + 1 ∧ g < uint64Size := by
  unfold Shared.nextGeneration at h
  dsimp only at h
  split at h
  · cases h
  · rename_i hne
    obtain rfl := Option.some.inj h
    by_cases hlast : s.compareGeneration + 1 = uint64Size
    · rw [hlast, Nat.mod_self] at hne
      exact absurd rfl hne
    · rw [Nat.mod_eq_of_lt (by omega)]
      exact ⟨rfl, by omega⟩

/-- A cancellation takes out at most the alarms with the id. -/
theorem mem_alarms_cancel {id : ℕ} (h : TableOk s.service) {e : ℤ × AlarmNode ℕ} :
    e ∈ (s.cancelSystemTimeAlarm id).service.alarms ↔ e ∈ s.service.alarms ∧ e.2.id ≠ id := by
  rcases h.cancel_cases id with ⟨hmem, heq⟩ | ⟨_, heq⟩
  · simp only [Shared.cancelSystemTimeAlarm, heq]
    constructor
    · intro he
      refine ⟨he, fun hid => hmem ?_⟩
      exact hid ▸ List.mem_map_of_mem he
    · exact And.left
  · simp only [Shared.cancelSystemTimeAlarm, heq]
    exact mem_alarms_eraseId

theorem issued_cancel (id : ℕ) (h : TableOk s.service) :
    issued (s.cancelSystemTimeAlarm id).service = issued s.service := by
  rcases h.cancel_cases id with ⟨_, heq⟩ | ⟨_, heq⟩ <;>
    simp [Shared.cancelSystemTimeAlarm, heq]

theorem tableOk_cancel (id : ℕ) (h : TableOk s.service) :
    TableOk (s.cancelSystemTimeAlarm id).service := by
  rcases h.cancel_cases id with ⟨_, heq⟩ | ⟨_, heq⟩
  · simpa [Shared.cancelSystemTimeAlarm, heq] using h
  · simpa [Shared.cancelSystemTimeAlarm, heq] using h.eraseId id

theorem later_cancel (id : ℕ) (h : TableOk s.service) :
    Later s (s.cancelSystemTimeAlarm id) where
  generation := le_rfl
  issued := (issued_cancel id h).ge
  alarms := fun _ he _ => ((mem_alarms_cancel h).mp he).1

theorem popDue_some {service : Service ℕ} {due : ℤ × AlarmNode ℕ} (h : TableOk s.service)
    (hdue : s.service.popDue = some (some due, service)) :
    due ∈ s.service.alarms ∧ service = AlarmTable.eraseId due.2.id s.service := by
  rcases h.popDue_cases with ⟨hnone, _⟩ | ⟨first, rest, halarms, _, hpop⟩
  · rw [hnone] at hdue
    cases hdue
  · rw [hpop] at hdue
    obtain ⟨rfl, rfl⟩ := Prod.mk.inj (Option.some.inj hdue) |>.imp Option.some.inj id
    exact ⟨by rw [halarms]; exact List.mem_cons_self, rfl⟩

/-- The thread stands between the new generation and the end of the old status. -/
def Local.clears : Local → Prop
  | .dropStatus _ _ _ | .retractStatus _ => True
  | _ => False

theorem Local.clears.locks (h : l.clears) : 0 < l.locks := by
  cases l <;> simp_all [Local.clears, Local.locks]

/-- What the stage of the current generation says. -/
def Current (s : Shared) (f : ℕ → Local) : Stage → Prop
  | .idle => s.initialized = true → (alarmMicrosToNanos s.requestedCompare).isSome = false
  | .arming u => (f u).arms s.compareGeneration s.requestedCompare
  | .scheduled _ => ∃ e ∈ s.service.alarms,
      e.2.callback = s.compareGeneration ∧ e.1 = s.requestedCompare
  | .claimed u => (f u).claims s.compareGeneration
  | .pending => s.pendingStatus = true ∧ s.pendingGeneration = s.compareGeneration ∧
      Raised ⟨s, f⟩
  | .consumed => s.consumes s.compareGeneration
  | .handled => ∃ i ∈ s.invoked, i.generation = s.compareGeneration

/-- The traces of every generation agree with its stage, and the current generation has left
its trace. -/
structure Staged (stage : ℕ → Stage) (s : Shared) (f : ℕ → Local) : Prop where
  fresh : ∀ g, s.compareGeneration < g → stage g = .idle
  arming : ∀ u g timestamp, (f u).arms g timestamp → stage g = .arming u
  alarm : ∀ e ∈ s.service.alarms, stage e.2.callback = .scheduled e.2.id
  claimed : ∀ u g, (f u).claims g → stage g = .claimed u
  status : s.pendingStatus = true → stage s.pendingGeneration = .pending
  frame : ∀ g, s.consumes g → stage g = .consumed
  handled : ∀ i ∈ s.invoked, stage i.generation = .handled
  recent : s.pendingStatus = true ∨ s.frame = some .loadGeneration →
    s.pendingGeneration = s.compareGeneration ∨ ∃ u, (f u).clears
  called : ∀ g, s.frame = some (.call g) → g = s.compareGeneration
  published : s.pendingGeneration = s.compareGeneration →
    (∀ u, stage s.compareGeneration ≠ .arming u) ∧
      ∀ id, stage s.compareGeneration ≠ .scheduled id
  off : s.initialized = false → stage s.compareGeneration = .idle
  current : Current s f (stage s.compareGeneration)
  nodup : (s.invoked.map Invocation.generation).Nodup

/-- The invariant of the backend. -/
structure Sound (stage : ℕ → Stage) (s : Shared) (f : ℕ → Local) : Prop extends
    Owned s f, Staged stage s f where
  table : TableOk s.service
  small : s.compareGeneration < uint64Size
  scheduledAlarm : s.scheduledAlarm < issued s.service
  pendingGeneration : s.pendingGeneration ≤ s.compareGeneration
  returned : ∀ g ∈ s.returned, g ≤ s.compareGeneration
  counted : ∀ u, (f u).counted s
  holds : ∀ u, (f u).holds s

theorem Sound.later (h : Sound stage s f) (htakes : Takes s (f t) s' l') : Later s s' := by
  generalize f t = l at htakes
  cases htakes
  case draw g hnext =>
    obtain ⟨rfl, _⟩ := nextGeneration_eq h.small hnext
    exact ⟨Nat.le_succ _, le_rfl, fun e he _ => he⟩
  case retire hnext =>
    obtain ⟨rfl, _⟩ := nextGeneration_eq h.small hnext
    exact ⟨Nat.le_succ _, le_rfl, fun e he _ => he⟩
  case take hdue =>
    obtain ⟨_, rfl⟩ := popDue_some h.table hdue
    exact ⟨le_rfl, le_rfl, fun e he _ => (mem_alarms_eraseId.mp he).1⟩
  case schedule g timestamp _ _ _ hscheduled =>
    obtain ⟨_, _, hid, rfl, rfl⟩ := schedule_eq_some.mp hscheduled
    obtain ⟨hold, hnew⟩ := issued_register (timestamp : ℤ) g h.table.next_lt hid
    refine ⟨le_rfl, by simp only [hold, hnew]; omega, ?_⟩
    intro e he hlt
    rcases mem_alarms_register.mp he with rfl | he
    · rw [hold] at hlt
      exact absurd hlt (Nat.lt_irrefl _)
    · exact he
  case cancel => exact later_cancel _ h.table
  case cancelOnly => exact (later_cancel _ h.table).leave _
  case discard => exact (later_cancel _ h.table).leave _
  case cancelLast => exact later_cancel _ h.table
  case cancelAlone => exact (later_cancel _ h.table).leave _
  case advance => exact ⟨le_rfl, le_rfl, fun e he _ => he⟩
  all_goals exact Later.of_eq rfl rfl

theorem Sound.table_takes (h : Sound stage s f) (htakes : Takes s (f t) s' l') :
    TableOk s'.service := by
  generalize f t = l at htakes
  cases htakes
  case take hdue =>
    obtain ⟨_, rfl⟩ := popDue_some h.table hdue
    exact h.table.eraseId _
  case schedule hscheduled =>
    obtain ⟨hd, _, hid, rfl, rfl⟩ := schedule_eq_some.mp hscheduled
    exact h.table.register _ hd hid
  case cancel => exact tableOk_cancel _ h.table
  case cancelOnly => exact tableOk_cancel _ h.table
  case discard => exact tableOk_cancel _ h.table
  case cancelLast => exact tableOk_cancel _ h.table
  case cancelAlone => exact tableOk_cancel _ h.table
  case advance => exact h.table.congr rfl rfl rfl rfl
  all_goals exact h.table

theorem Sound.small_takes (h : Sound stage s f) (htakes : Takes s (f t) s' l') :
    s'.compareGeneration < uint64Size := by
  generalize f t = l at htakes
  cases htakes
  case draw hnext => exact (nextGeneration_eq h.small hnext).2
  case retire hnext => exact (nextGeneration_eq h.small hnext).2
  all_goals exact h.small

theorem Sound.scheduledAlarm_takes (h : Sound stage s f) (htakes : Takes s (f t) s' l') :
    s'.scheduledAlarm < issued s'.service := by
  have hlater := (h.later htakes).issued
  have hcounted := h.counted t
  have hpos : 0 < issued s'.service := issued_pos
  generalize f t = l at htakes hcounted
  cases htakes
  case draw => exact hpos
  case publish => exact hpos
  case retractUpper => exact hpos
  case accept => exact hpos
  case keep => exact hcounted.2.1
  all_goals exact h.scheduledAlarm.trans_le hlater

theorem Sound.pendingGeneration_takes (h : Sound stage s f) (htakes : Takes s (f t) s' l') :
    s'.pendingGeneration ≤ s'.compareGeneration := by
  have hlater := (h.later htakes).generation
  have hcounted := h.counted t
  generalize f t = l at htakes hcounted
  cases htakes
  case storeGeneration => exact hcounted
  all_goals exact h.pendingGeneration.trans hlater

/-- A call that returns has drawn its generation. -/
theorem Sound.returned_takes (h : Sound stage s f) (htakes : Takes s (f t) s' l') :
    ∀ g ∈ s'.returned, g ≤ s'.compareGeneration := by
  have hlater := (h.later htakes).generation
  have hcounted := h.counted t
  have hold : ∀ g ∈ s.returned, g ≤ s'.compareGeneration :=
    fun g hg => (h.returned g hg).trans hlater
  have hleave : ∀ g, g ≤ s'.compareGeneration →
      ∀ k ∈ g :: s.returned, k ≤ s'.compareGeneration := by
    intro g hg k hk
    rcases List.mem_cons.mp hk with rfl | hk
    · exact hg
    · exact hold k hk
  generalize f t = l at htakes hcounted
  cases htakes
  case cancelOnly => exact hleave _ hcounted.1
  case keep => exact hleave _ hcounted.1
  case discard => exact hleave _ hcounted.1
  case cancelAlone => exact hleave _ hcounted.1
  case free => exact hleave _ hcounted
  all_goals exact hold

/-- An alarm of the current generation is scheduled at its stage only. -/
theorem Sound.dead_of_stage (h : Sound stage s f) {id g : ℕ} (hid : id < issued s.service)
    (hg : g ≤ s.compareGeneration)
    (hall : ∀ e ∈ s.service.alarms, e.2.id = id → e.2.callback = g)
    (hstale : g ≠ s.compareGeneration ∨ ∀ id, stage s.compareGeneration ≠ .scheduled id) :
    s.dead id := by
  refine ⟨hid, fun e he heq => ?_⟩
  rw [hall e he heq]
  rcases hstale with hne | hstage
  · omega
  · by_contra hnot
    have hcurrent : g = s.compareGeneration := by omega
    have hscheduled := h.alarm e he
    rw [hall e he heq, hcurrent] at hscheduled
    exact hstage _ hscheduled

theorem Sound.callback_le (h : Sound stage s f) {e : ℤ × AlarmNode ℕ}
    (he : e ∈ s.service.alarms) : e.2.callback ≤ s.compareGeneration := by
  by_contra hnot
  have hidle := h.fresh e.2.callback (by omega)
  rw [h.alarm e he] at hidle
  cases hidle

theorem Sound.counted_takes (h : Sound stage s f) (htakes : Takes s (f t) s' l') :
    ∀ u, (Function.update f t l' u).counted s' := by
  have hlater := h.later htakes
  have hothers : ∀ u, (f u).counted s' := fun u => hlater.counted (h.counted u)
  suffices hnew : l'.counted s' from
    (forall_update (Q := fun l : Local => l.counted s')).mpr ⟨hnew, fun u _ => hothers u⟩
  have hsame := hothers t
  have hcounted := h.counted t
  have hholds := h.holds t
  generalize f t = l at htakes hsame hcounted hholds
  cases htakes
  case draw hnext =>
    obtain ⟨rfl, _⟩ := nextGeneration_eq h.small hnext
    refine ⟨le_rfl, h.scheduledAlarm, fun e he _ => ?_⟩
    exact Nat.lt_succ_of_le (h.callback_le he)
  case retire => exact le_refl _
  case take hdue =>
    obtain ⟨hmem, rfl⟩ := popDue_some h.table hdue
    exact h.callback_le hmem
  case cancel => exact hsame.1
  case schedule g timestamp _ _ _ hscheduled =>
    have hle : g ≤ s.compareGeneration := hcounted
    obtain ⟨_, _, hid, rfl, rfl⟩ := schedule_eq_some.mp hscheduled
    obtain ⟨hold, hnew⟩ := issued_register (timestamp : ℤ) g h.table.next_lt hid
    refine ⟨hle, by simp only [hnew]; omega, fun e he heq => ?_⟩
    rcases mem_alarms_register.mp he with rfl | he
    · rfl
    · have := h.table.id_lt e he
      rw [hold, heq] at this
      exact absurd this (Nat.lt_irrefl _)
  case reject hstale =>
    refine ⟨hcounted.1, h.dead_of_stage hcounted.2.1 hcounted.1 hcounted.2.2 ?_⟩
    rcases hstale with hoff | hne | hpending
    · right
      intro id
      rw [h.off hoff]
      exact Stage.noConfusion
    · exact Or.inl hne
    · by_cases hcurrent : s.pendingGeneration = s.compareGeneration
      · exact Or.inr (h.published hcurrent).2
      · exact Or.inl (hpending ▸ hcurrent)
  case retractUpper => exact ⟨hcounted, hholds.2⟩
  case cancelLast => exact hsame.1
  case disable => exact hsame
  all_goals trivial

theorem Local.holds.congr (h : l.holds s) (hlater : Later s s')
    (hgeneration : s'.compareGeneration = s.compareGeneration)
    (hrequested : s'.requestedCompare = s.requestedCompare)
    (hpending : s'.pendingGeneration = s.pendingGeneration)
    (hinitialized : s'.initialized = s.initialized)
    (hscheduled : s'.scheduledAlarm = s.scheduledAlarm) : l.holds s' := by
  cases l <;> simp_all [Local.holds]
  case retractStatus => exact hlater.dead h.2
  case retractHandler => exact hlater.dead h.2

theorem Owned.unlocked (h : Owned s f) (hlock : s.locked = false) (u : ℕ) : (f u).locks = 0 := by
  have := h.lock
  rw [hlock] at this
  exact this u

theorem Owned.others_unlocked (h : Owned s f) (ht : 0 < (f t).locks) {u : ℕ} (hu : u ≠ t) :
    (f u).locks = 0 := by
  by_contra hne
  exact hu (h.lock.eq_of_pos (Nat.pos_of_ne_zero hne) ht)

/-- What another thread knows as the owner of the mutex stays true: a step that touches it is
a step of an owner or finds the mutex free. -/
theorem Sound.holds_others (h : Sound stage s f) (htakes : Takes s (f t) s' l') {u : ℕ}
    (hu : u ≠ t) : (f u).holds s' := by
  have hlater := h.later htakes
  have howner : 0 < (f t).locks → (f u).holds s' :=
    fun hpos => Local.holds_of_free (h.others_unlocked hpos hu) s'
  have hfree : s.locked = false → (f u).holds s' :=
    fun hlock => Local.holds_of_free (h.unlocked hlock u) s'
  have hkeep := fun h₁ h₂ h₃ h₄ h₅ => (h.holds u).congr hlater h₁ h₂ h₃ h₄ h₅
  generalize f t = l at htakes howner
  cases htakes
  case allocate hlock _ _ => exact hfree hlock
  case draw hlock _ _ => exact hfree hlock
  case retire hlock _ _ => exact hfree hlock
  case enable => exact howner Nat.one_pos
  case abandon => exact howner Nat.one_pos
  case clear => exact howner Nat.one_pos
  case publish => exact howner Nat.one_pos
  case drop => exact howner Nat.one_pos
  case keep hlock => exact hfree hlock
  case retract => exact howner Nat.one_pos
  case retractUpper => exact howner Nat.one_pos
  case accept hlock _ _ => exact hfree hlock
  case storeGeneration => exact howner Nat.one_pos
  case storeStatus => exact howner Nat.one_pos
  all_goals exact hkeep rfl rfl rfl rfl rfl

theorem Sound.holds_takes (h : Sound stage s f) (htakes : Takes s (f t) s' l') :
    ∀ u, (Function.update f t l' u).holds s' := by
  have hothers := fun u hu => h.holds_others htakes (u := u) hu
  suffices hnew : l'.holds s' from
    (forall_update (Q := fun l : Local => l.holds s')).mpr ⟨hnew, hothers⟩
  have hholds := h.holds t
  generalize f t = l at htakes hholds
  cases htakes
  case allocate hoff _ => exact hoff
  case draw hnext =>
    obtain ⟨rfl, _⟩ := nextGeneration_eq h.small hnext
    exact ⟨rfl, rfl, Nat.lt_succ_of_le h.pendingGeneration⟩
  case retire hnext =>
    obtain ⟨rfl, _⟩ := nextGeneration_eq h.small hnext
    refine ⟨rfl, h.scheduledAlarm, fun e he _ => ?_⟩
    exact Nat.lt_succ_of_le (h.callback_le he)
  case accept hon hcurrent => exact ⟨hcurrent, hon⟩
  case storeGeneration => exact ⟨hholds.1, hholds.2, rfl⟩
  all_goals trivial

/-- The numbers and what the threads know, after a step. -/
theorem Sound.of_staged (h : Sound stage s f) (htakes : Takes s (f t) s' l')
    {stage' : ℕ → Stage} (hstaged : Staged stage' s' (Function.update f t l')) :
    Sound stage' s' (Function.update f t l') where
  toOwned := h.toOwned.takes htakes
  toStaged := hstaged
  table := h.table_takes htakes
  small := h.small_takes htakes
  scheduledAlarm := h.scheduledAlarm_takes htakes
  pendingGeneration := h.pendingGeneration_takes htakes
  returned := h.returned_takes htakes
  counted := h.counted_takes htakes
  holds := h.holds_takes htakes

/-- The trace of the current generation stays where it is. -/
structure KeepsCurrent (s : Shared) (f : ℕ → Local) (s' : Shared) (f' : ℕ → Local) : Prop where
  generation : s'.compareGeneration = s.compareGeneration
  requested : s'.requestedCompare = s.requestedCompare
  initialized : s'.initialized = s.initialized
  current : ∀ e ∈ s.service.alarms, e.2.callback = s.compareGeneration → e ∈ s'.service.alarms
  armed : ∀ u, (f u).arms s.compareGeneration s.requestedCompare →
    (f' u).arms s.compareGeneration s.requestedCompare
  claimed : ∀ u, (f u).claims s.compareGeneration → (f' u).claims s.compareGeneration
  kept : s.initialized = true → s.pendingStatus = true →
    s.pendingGeneration = s.compareGeneration → Raised ⟨s, f⟩ →
      s'.pendingStatus = true ∧ s'.pendingGeneration = s.compareGeneration ∧ Raised ⟨s', f'⟩
  consumed : s.consumes s.compareGeneration → s'.consumes s.compareGeneration
  called : ∀ i ∈ s.invoked, i ∈ s'.invoked

theorem KeepsCurrent.apply {f' : ℕ → Local} {k : Stage} (hkeeps : KeepsCurrent s f s' f')
    (hoff : s.initialized = false → k = .idle) (h : Current s f k) : Current s' f' k := by
  cases k with
  | idle =>
    simp only [Current, hkeeps.initialized, hkeeps.requested]
    exact h
  | arming u =>
    simp only [Current, hkeeps.generation, hkeeps.requested]
    exact hkeeps.armed u h
  | scheduled id =>
    obtain ⟨e, he, hcallback, hdeadline⟩ := h
    simp only [Current, hkeeps.generation, hkeeps.requested]
    exact ⟨e, hkeeps.current e he hcallback, hcallback, hdeadline⟩
  | claimed u =>
    simp only [Current, hkeeps.generation]
    exact hkeeps.claimed u h
  | pending =>
    obtain ⟨hstatus, hpending, hraised⟩ := h
    have hon : s.initialized = true := by
      by_contra hnot
      cases hoff (by simpa using hnot)
    obtain ⟨hstatus', hpending', hraised'⟩ := hkeeps.kept hon hstatus hpending hraised
    exact ⟨hstatus', hpending'.trans hkeeps.generation.symm, hraised'⟩
  | consumed =>
    simp only [Current, hkeeps.generation]
    exact hkeeps.consumed h
  | handled =>
    obtain ⟨i, hi, hgeneration⟩ := h
    exact ⟨i, hkeeps.called i hi, hgeneration.trans hkeeps.generation.symm⟩

/-- Two states show the same traces of the generations; alarms of old generations may go. -/
structure SameTraces (s : Shared) (f : ℕ → Local) (s' : Shared) (f' : ℕ → Local) : Prop extends
    KeepsCurrent s f s' f' where
  invoked : s'.invoked = s.invoked
  pending : s'.pendingGeneration = s.pendingGeneration
  status : s'.pendingStatus = s.pendingStatus
  alarms : ∀ e ∈ s'.service.alarms, e ∈ s.service.alarms
  arms : ∀ u g timestamp, (f' u).arms g timestamp → (f u).arms g timestamp
  claims : ∀ u g, (f' u).claims g → (f u).claims g
  clears : (∃ u, (f u).clears) → ∃ u, (f' u).clears
  consumes : ∀ g, s'.consumes g → s.consumes g
  loading : s'.frame = some .loadGeneration → s.frame = some .loadGeneration
  calling : ∀ g, s'.frame = some (.call g) →
    s.frame = some (.call g) ∨ g = s.compareGeneration

theorem Staged.same {f' : ℕ → Local} (h : Staged stage s f) (hsame : SameTraces s f s' f') :
    Staged stage s' f' where
  fresh := by
    rw [hsame.generation]
    exact h.fresh
  arming := fun u g timestamp harms => h.arming u g timestamp (hsame.arms u g timestamp harms)
  alarm := fun e he => h.alarm e (hsame.alarms e he)
  claimed := fun u g hclaims => h.claimed u g (hsame.claims u g hclaims)
  status := by
    rw [hsame.status, hsame.pending]
    exact h.status
  frame := fun g hconsumes => h.frame g (hsame.consumes g hconsumes)
  handled := by
    rw [hsame.invoked]
    exact h.handled
  recent := by
    rw [hsame.status, hsame.pending, hsame.generation]
    intro hrecent
    exact (h.recent (hrecent.imp_right hsame.loading)).imp_right hsame.clears
  called := by
    intro g hcall
    rw [hsame.generation]
    exact (hsame.calling g hcall).elim (h.called g) id
  published := by
    rw [hsame.pending, hsame.generation]
    exact h.published
  off := by
    rw [hsame.initialized, hsame.generation]
    exact h.off
  current := by
    rw [hsame.generation]
    exact hsame.toKeepsCurrent.apply h.off h.current
  nodup := by
    rw [hsame.invoked]
    exact h.nodup

/-- The interrupt stays raised when the line stays asserted and a thread that was about to
raise it has done so. -/
theorem raised_update (hline : s.line.asserted = true → s'.line.asserted = true)
    (hframe : s'.frame = s.frame) (hraise : f t = .raise → s'.line.asserted = true)
    (h : Raised ⟨s, f⟩) : Raised ⟨s', Function.update f t l'⟩ := by
  rcases h with ⟨u, hu⟩ | hasserted | hexchange
  · by_cases hut : u = t
    · subst hut
      exact Or.inr (Or.inl (hraise hu))
    · exact Or.inl ⟨u, by simpa [Function.update_of_ne hut] using hu⟩
  · exact Or.inr (Or.inl (hline hasserted))
  · exact Or.inr (Or.inr (hframe.trans hexchange))

/-- Two points of a call between which no trace of a generation is new, and the current one keeps
its own. -/
structure Local.Alike (current : ℕ) (l l' : Local) : Prop where
  arms : ∀ g timestamp, l'.arms g timestamp → l.arms g timestamp
  armed : ∀ timestamp, l.arms current timestamp → l'.arms current timestamp
  claims : ∀ g, l'.claims g → l.claims g
  claimed : l.claims current → l'.claims current
  clears : l.clears → l'.clears

theorem Local.Alike.refl (current : ℕ) (l : Local) : l.Alike current l where
  arms := fun _ _ => id
  armed := fun _ => id
  claims := fun _ => id
  claimed := id
  clears := id

/-- A point that arms nothing, has taken no alarm and withdraws no status. -/
def Local.traceless : Local → Bool
  | .dropStatus _ _ _ | .cancelOld _ _ _ | .schedule _ _ | .retractStatus _ => false
  | .deliver _ | .storeGeneration _ | .storeStatus _ => false
  | _ => true

theorem Local.alike_traceless (h : l.traceless = true) (h' : l'.traceless = true) {current : ℕ} :
    l.Alike current l' := by
  have hnone : ∀ k : Local, k.traceless = true →
      (∀ g timestamp, ¬ k.arms g timestamp) ∧ (∀ g, ¬ k.claims g) ∧ ¬ k.clears := by
    intro k hk
    cases k <;> simp_all [Local.traceless, Local.arms, Local.claims, Local.clears]
  obtain ⟨harms, hclaims, hclears⟩ := hnone l h
  obtain ⟨harms', hclaims', -⟩ := hnone l' h'
  exact ⟨fun g timestamp hl' => absurd hl' (harms' g timestamp),
    fun timestamp hl => absurd hl (harms current timestamp), fun g hl' => absurd hl' (hclaims' g),
    fun hl => absurd hl (hclaims current), fun hl => absurd hl hclears⟩

section Alike
variable {g alarm timestamp : ℕ} (current : ℕ)

/-- The call of `set_alarm` goes on to the alarm service with the same timestamp. -/
theorem alike_schedule (hrange : (timestamp : ℤ) ≤ int64Max) :
    (Local.cancelOld g timestamp alarm).Alike current (.schedule g timestamp) where
  arms := by
    rintro _ _ ⟨rfl, rfl⟩
    exact ⟨rfl, rfl, hrange⟩
  armed := fun _ harms => ⟨harms.1, harms.2.1⟩
  claims := fun _ => id
  claimed := id
  clears := id

/-- A timestamp out of range arms nothing. -/
theorem alike_leave (hrange : int64Max < (timestamp : ℤ)) :
    (Local.cancelOld g timestamp alarm).Alike current .idle where
  arms := fun _ _ => False.elim
  armed := by
    rintro _ ⟨-, rfl, hle⟩
    exact absurd hle (not_le.mpr hrange)
  claims := fun _ => id
  claimed := id
  clears := id

/-- The delivery that is accepted keeps what it has taken. -/
theorem alike_accept : (Local.deliver g).Alike current (.storeGeneration g) where
  arms := fun _ _ => id
  armed := fun _ => id
  claims := fun _ => id
  claimed := id
  clears := id

/-- A delivery of an old generation ends without a trace. -/
theorem alike_refuse {current : ℕ} (hold : g ≠ current) : (Local.deliver g).Alike current .idle where
  arms := fun _ _ => id
  armed := fun _ => id
  claims := fun _ => False.elim
  claimed := fun hclaims => hold hclaims
  clears := id

end Alike

/-- What holds between every point and itself, and between the two points of a step, holds between
the threads before and after it. -/
theorem update_related {Q : Local → Local → Prop} (hrefl : ∀ l, Q l l) (hstep : Q (f t) l')
    (u : ℕ) : Q (f u) (Function.update f t l' u) := by
  by_cases hu : u = t
  · subst hu
    rw [Function.update_self]
    exact hstep
  · rw [Function.update_of_ne hu]
    exact hrefl (f u)

/-- A step of one thread that leaves the variables of the backend alone. -/
theorem SameTraces.thread (hgeneration : s'.compareGeneration = s.compareGeneration)
    (hrequested : s'.requestedCompare = s.requestedCompare)
    (hinitialized : s'.initialized = s.initialized) (hinvoked : s'.invoked = s.invoked)
    (hpending : s'.pendingGeneration = s.pendingGeneration)
    (hstatus : s'.pendingStatus = s.pendingStatus) (hframe : s'.frame = s.frame)
    (halarms : ∀ e ∈ s'.service.alarms, e ∈ s.service.alarms)
    (hcurrent : ∀ e ∈ s.service.alarms, e.2.callback = s.compareGeneration →
      e ∈ s'.service.alarms)
    (halike : (f t).Alike s.compareGeneration l')
    (hraised : s.initialized = true → Raised ⟨s, f⟩ → Raised ⟨s', Function.update f t l'⟩) :
    SameTraces s f s' (Function.update f t l') := by
  have hconsumes : ∀ g, s'.consumes g ↔ s.consumes g := by
    intro g
    simp only [Shared.consumes, hframe, hpending]
  refine ⟨⟨hgeneration, hrequested, hinitialized, hcurrent,
    update_related (Q := fun l k => l.arms _ _ → k.arms _ _) (fun _ => id) (halike.armed _),
    update_related (Q := fun l k => l.claims _ → k.claims _) (fun _ => id) halike.claimed,
    fun hon h₁ h₂ h₃ => ⟨hstatus.trans h₁, hpending.trans h₂, hraised hon h₃⟩,
    (hconsumes _).mpr, fun i hi => hinvoked ▸ hi⟩, hinvoked, hpending, hstatus, halarms,
    update_related (Q := fun l k => ∀ g timestamp, k.arms g timestamp → l.arms g timestamp)
      (fun _ _ _ => id) halike.arms,
    update_related (Q := fun l k => ∀ g, k.claims g → l.claims g) (fun _ _ => id) halike.claims,
    ?_, fun g => (hconsumes g).mp, fun hload => hframe.symm.trans hload,
    fun g hcall => Or.inl (hframe.symm.trans hcall)⟩
  rintro ⟨u, hu⟩
  exact ⟨u, update_related (Q := fun l k => l.clears → k.clears) (fun _ => id) halike.clears u hu⟩

/-- A step of one thread that changes no variable a trace depends on. -/
theorem Staged.move (h : Staged stage s f) (halike : (f t).Alike s.compareGeneration l')
    {locked interruptHandle : Bool} {scheduledAlarm : ℕ} {upperHandler : Option ℕ} {line : Line}
    {returned : List ℕ}
    (hline : s.initialized = true → s.line.asserted = true → line.asserted = true)
    (hraise : s.initialized = true → f t = .raise → line.asserted = true) :
    Staged stage
      { s with
        locked := locked, interruptHandle := interruptHandle, scheduledAlarm := scheduledAlarm,
        upperHandler := upperHandler, line := line, returned := returned }
      (Function.update f t l') := by
  refine h.same (SameTraces.thread rfl rfl rfl rfl rfl rfl rfl (fun _ he => he)
    (fun _ he _ => he) halike ?_)
  exact fun hon => raised_update (hline hon) rfl (hraise hon)

/-- The clock moves on without a step of the backend. -/
theorem Staged.advance (h : Staged stage s f) {uptimeNs : ℤ} :
    Staged stage { s with service := s.service.publishAtLeast uptimeNs }
      (Function.update f t (f t)) := by
  refine h.same (SameTraces.thread rfl rfl rfl rfl rfl rfl rfl (fun _ he => he)
    (fun _ he _ => he) (.refl _ _) ?_)
  intro _ hraised
  rw [Function.update_eq_self]
  exact hraised

/-- A step of the interrupt frame alone. -/
theorem SameTraces.interrupt (s : Shared) {frame : Option Frame} {line : Line}
    (hconsumes : ∀ g, ({ s with frame := frame } : Shared).consumes g → s.consumes g)
    (hconsumed : s.consumes s.compareGeneration →
      ({ s with frame := frame } : Shared).consumes s.compareGeneration)
    (hloading : frame = some .loadGeneration → s.frame = some .loadGeneration)
    (hcalling : ∀ g, frame = some (.call g) →
      s.frame = some (.call g) ∨ g = s.compareGeneration)
    (hraised : s.pendingStatus = true → Raised ⟨s, f⟩ →
      Raised ⟨{ s with frame := frame, line := line }, f⟩) :
    SameTraces s f { s with frame := frame, line := line } f where
  generation := rfl
  requested := rfl
  initialized := rfl
  invoked := rfl
  pending := rfl
  status := rfl
  alarms := fun _ he => he
  current := fun _ he _ => he
  arms := fun _ _ _ harms => harms
  armed := fun _ harms => harms
  claims := fun _ _ hclaims => hclaims
  claimed := fun _ hclaims => hclaims
  kept := fun _ hstatus hpending hraise => ⟨hstatus, hpending, hraised hstatus hraise⟩
  called := fun _ hi => hi
  clears := id
  consumes := hconsumes
  consumed := hconsumed
  loading := hloading
  calling := hcalling

/-- An interrupt that is raised stays so when the frame goes on, past the exchange. -/
theorem Raised.frame_left (hframe : s.frame ≠ some .exchange)
    (hline : s'.line.asserted = s.line.asserted) (h : Raised ⟨s, f⟩) : Raised ⟨s', f⟩ := by
  rcases h with hraise | hasserted | hexchange
  · exact Or.inl hraise
  · exact Or.inr (Or.inl (hline.trans hasserted))
  · exact absurd hexchange hframe

theorem not_consumes {g : ℕ} (hframe : s.frame = none) : ¬ s.consumes g := by
  simp [Shared.consumes, hframe]

/-- The interrupt is entered. -/
theorem Staged.dispatch (h : Staged stage s f) (hframe : s.frame = none) :
    Staged stage
      { s with line := { s.line with asserted := false }, frame := some .exchange } f := by
  refine h.same (SameTraces.interrupt s ?_ ?_ ?_ ?_ ?_)
  · simp [Shared.consumes]
  · exact fun hconsumes => absurd hconsumes (not_consumes hframe)
  · simp
  · simp
  · exact fun _ _ => Or.inr (Or.inr rfl)

/-- The handler finds no status. -/
theorem Staged.ignore (h : Staged stage s f) (hframe : s.frame = some .exchange)
    (hstatus : s.pendingStatus = false) : Staged stage { s with frame := none } f := by
  refine h.same (SameTraces.interrupt s ?_ ?_ ?_ ?_ ?_)
  · simp [Shared.consumes]
  · simp [Shared.consumes, hframe]
  · simp
  · simp
  · simp [hstatus]

/-- The handler reads the generation of the status it has consumed. -/
theorem Staged.load (h : Staged stage s f) (hframe : s.frame = some .loadGeneration) :
    Staged stage { s with frame := some (.compare s.pendingGeneration) } f := by
  refine h.same (SameTraces.interrupt s ?_ ?_ ?_ ?_ ?_)
  · simp [Shared.consumes, hframe]
  · simp [Shared.consumes, hframe]
  · simp
  · simp
  · exact fun _ => Raised.frame_left (by simp [hframe]) rfl

/-- The generation is the current one. -/
theorem Staged.pass (h : Staged stage s f) {g : ℕ} (hframe : s.frame = some (.compare g))
    (hcurrent : g = s.compareGeneration) :
    Staged stage { s with frame := some (.call g) } f := by
  refine h.same (SameTraces.interrupt s ?_ ?_ ?_ ?_ ?_)
  · simp [Shared.consumes, hframe]
  · simp [Shared.consumes, hframe]
  · simp
  · intro other hcall
    obtain rfl := Frame.call.inj (Option.some.inj hcall)
    exact Or.inr hcurrent
  · exact fun _ => Raised.frame_left (by simp [hframe]) rfl

/-- The generation is an old one. -/
theorem Staged.stale (h : Staged stage s f) {g : ℕ} (hframe : s.frame = some (.compare g))
    (hstale : g ≠ s.compareGeneration) : Staged stage { s with frame := none } f := by
  refine h.same (SameTraces.interrupt s ?_ ?_ ?_ ?_ ?_)
  · simp [Shared.consumes]
  · intro hconsumes
    simp [Shared.consumes, hframe] at hconsumes
    exact absurd hconsumes hstale
  · simp
  · simp
  · exact fun _ => Raised.frame_left (by simp [hframe]) rfl

end RooTesting.EspTimer
