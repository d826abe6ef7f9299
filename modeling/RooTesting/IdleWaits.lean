import RooTesting.IdleClock

/-! # Waits for a time of the clock

A wait is in the list of waiters from its registration to its end, and ends only at its deadline or
later. While nobody but the idle hook sets the clock forward it ends at its deadline to the
microsecond. -/
namespace RooTesting.IdleClock
open Transition KernelTicks

variable {s s' : State} {task : ℕ} {w : Wait}

/-- The wait of a task, if it has one. -/
def Stage.wait : Stage → Option Wait
  | .out => none
  | .entered w | .looking w | .taking w | .blocked w | .leaving w => some w

/-- The wait of a task, if its record is in the list. -/
def Stage.linked : Stage → Option Wait
  | .out | .entered _ => none
  | .looking w | .taking w | .blocked w | .leaving w => some w

/-- The list has each wait that is registered, once. A task is blocked only if its semaphore is not
given, and a wait does not end early. -/
structure WaitInv (s : State) : Prop where
  nodup : (s.waiters.map Prod.fst).Nodup
  waiters : ∀ task d, (task, d) ∈ s.waiters ↔ ∃ w, (s.stage task).linked = some w ∧ w.deadline = d
  blocked : ∀ task w, s.stage task = .blocked w → s.event task = false
  leaving : ∀ task w, s.stage task = .leaving w → w.deadline ≤ s.uptime
  since : ∀ task w, (s.stage task).wait = some w → w.since ≤ s.uptime
  returned : ∀ p ∈ s.returned, p.2.1.deadline ≤ p.2.2 ∧ p.2.1.since ≤ p.2.2

/-- Another time, and another stage for tasks that stay linked as they are. -/
theorem WaitInv.congr (h : WaitInv s) (hwaiters : s'.waiters = s.waiters)
    (hreturned : s'.returned = s.returned) (huptime : s.uptime ≤ s'.uptime)
    (hlinked : ∀ task, (s'.stage task).linked = (s.stage task).linked)
    (hwait : ∀ task, (s'.stage task).wait = (s.stage task).wait)
    (hblocked : ∀ task w, s'.stage task = .blocked w → s'.event task = false)
    (hleaving : ∀ task w, s'.stage task = .leaving w → s.stage task = .leaving w) :
    WaitInv s' where
  nodup := hwaiters ▸ h.nodup
  waiters := fun task d => by rw [hwaiters, hlinked, h.waiters]
  blocked := hblocked
  leaving := fun task w hw => (h.leaving task w (hleaving task w hw)).trans huptime
  since := fun task w hw => (h.since task w ((hwait task).symm.trans hw)).trans huptime
  returned := hreturned ▸ h.returned

theorem give_event (s : State) (task : ℕ) :
    (s.give task).event = Function.update s.event task true := by
  unfold State.give
  split_ifs with hevent
  · rw [← hevent, Function.update_eq_self]
  · dsimp only
    split <;> rfl

/-- A semaphore that is given moves its task on if it is blocked. -/
theorem give_stage (s : State) (task u : ℕ) :
    (s.give task).stage u = s.stage u ∨
      u = task ∧ ∃ w, s.stage task = .blocked w ∧ (s.give task).stage u = .taking w := by
  unfold State.give
  split_ifs with hevent
  · exact Or.inl rfl
  · dsimp only
    split
    · next w hw =>
      by_cases hu : u = task
      · subst hu
        exact Or.inr ⟨rfl, w, hw, Function.update_self ..⟩
      · exact Or.inl (Function.update_of_ne hu ..)
    · exact Or.inl rfl

theorem WaitInv.give (h : WaitInv s) (task : ℕ) : WaitInv (s.give task) := by
  have hgiven := give_given s task
  refine h.congr hgiven.waiters hgiven.returned hgiven.uptime.ge (fun u => ?_) (fun u => ?_)
    (fun u w hw => ?_) fun u w hw => ?_
  · rcases give_stage s task u with heq | ⟨rfl, w, hw, heq⟩
    · rw [heq]
    · rw [heq, hw]
      rfl
  · rcases give_stage s task u with heq | ⟨rfl, w, hw, heq⟩
    · rw [heq]
    · rw [heq, hw]
      rfl
  · rcases give_stage s task u with heq | ⟨rfl, w', hw', heq⟩
    · rw [heq] at hw
      have hfalse := h.blocked u w hw
      by_cases hu : u = task
      · -- a task that stays blocked was not the one whose semaphore is given
        subst hu
        unfold State.give at heq
        rw [if_neg (by simp [hfalse])] at heq
        simp only [hw] at heq
        simp [State.setStage] at heq
      · rw [give_event, Function.update_of_ne hu, hfalse]
    · rw [heq] at hw
      cases hw
  · rcases give_stage s task u with heq | ⟨rfl, w', hw', heq⟩
    · rw [← heq]
      exact hw
    · rw [heq] at hw
      cases hw

theorem WaitInv.pollWaiters (h : WaitInv s) : WaitInv s.pollWaiters :=
  pollWaiters_induction h fun _ task ht => ht.give task

/-- The poll gives the semaphore of each waiter whose deadline is reached. -/
theorem pollWaiters_event {w : ℕ × ℤ} (hw : w ∈ s.waiters) (hdeadline : w.2 ≤ s.uptime) :
    s.pollWaiters.event w.1 = true := by
  have hkept : ∀ (waiters : List (ℕ × ℤ)) (t : State), t.event w.1 = true →
      (waiters.foldl (fun s waiter => if waiter.2 ≤ s.uptime then s.give waiter.1 else s) t).event
        w.1 = true := by
    intro waiters
    induction waiters with
    | nil => exact fun _ => id
    | cons waiter waiters ih =>
      intro t ht
      rw [List.foldl_cons]
      split_ifs
      · refine ih _ ?_
        rw [give_event, Function.update_apply, ht, ite_self]
      · exact ih t ht
  unfold State.pollWaiters
  generalize s.waiters = waiters at hw
  induction waiters generalizing s with
  | nil => exact (List.not_mem_nil hw).elim
  | cons waiter waiters ih =>
    rw [List.foldl_cons]
    rcases List.mem_cons.mp hw with rfl | hw
    · rw [if_pos hdeadline]
      refine hkept waiters _ ?_
      rw [give_event, Function.update_self]
    · split_ifs
      · exact ih (by rw [(give_given s waiter.1).uptime]; exact hdeadline) hw
      · exact ih hdeadline hw

/-- The interrupt is the poll and some ticks. -/
theorem tick_eq_some (h : s.tick = some s') :
    ∃ kernel n, s' = { s.pollWaiters with
      kernel := kernel
      processedTicks := s.pollWaiters.processedTicks + n } := by
  unfold State.tick at h
  dsimp only at h
  generalize min (((s.pollWaiters.uptime - s.pollWaiters.tickOrigin) / kTickMicros).toNat -
    s.pollWaiters.processedTicks) 128 = count at h
  split_ifs at h
  obtain ⟨kernel, -, rfl⟩ := Option.map_eq_some_iff.mp h
  exact ⟨kernel, count, rfl⟩

/-- A removed record is the only one of its task. -/
theorem eraseP_eq_filter {waiters : List (ℕ × ℤ)} (h : (waiters.map Prod.fst).Nodup) (task : ℕ) :
    waiters.eraseP (fun waiter => waiter.1 = task) =
      waiters.filter fun waiter => waiter.1 ≠ task := by
  induction waiters with
  | nil => rfl
  | cons waiter waiters ih =>
    rw [List.map_cons] at h
    obtain ⟨hnew, hrest⟩ := List.nodup_cons.mp h
    by_cases htask : waiter.1 = task
    · rw [List.eraseP_cons_of_pos (by simpa using htask),
        List.filter_cons_of_neg (by simpa using htask), List.filter_eq_self.mpr]
      intro other hother
      have hne : other.1 ≠ task := by
        rintro rfl
        exact hnew (htask ▸ List.mem_map_of_mem hother)
      simpa using hne
    · rw [List.eraseP_cons_of_neg (by simpa using htask),
        List.filter_cons_of_pos (by simpa using htask), ih hrest]

/-- A task moves to another stage, and its record with it. -/
theorem WaitInv.move (h : WaitInv s) {stage : Stage}
    (hstage : s'.stage = Function.update s.stage task stage)
    (hnodup : (s'.waiters.map Prod.fst).Nodup)
    (hwaiters : ∀ u d, (u, d) ∈ s'.waiters ↔
      if u = task then ∃ w, stage.linked = some w ∧ w.deadline = d else (u, d) ∈ s.waiters)
    (hevent : ∀ u, u ≠ task → s'.event u = s.event u)
    (hblocked : ∀ w, stage = .blocked w → s'.event task = false)
    (huptime : s'.uptime = s.uptime) (hleaving : ∀ w, stage = .leaving w → w.deadline ≤ s.uptime)
    (hsince : ∀ w, stage.wait = some w → w.since ≤ s.uptime)
    (hreturned : ∀ p ∈ s'.returned, p.2.1.deadline ≤ p.2.2 ∧ p.2.1.since ≤ p.2.2) :
    WaitInv s' := by
  have hstages : ∀ {Q : ℕ → Stage → Prop}, Q task stage → (∀ u, Q u (s.stage u)) →
      ∀ u, Q u (s'.stage u) := by
    intro Q htask hothers u
    rw [hstage, Function.update_apply]
    split_ifs with hu
    · exact hu ▸ htask
    · exact hothers u
  refine ⟨hnodup, fun u d => ?_, fun u w hw => ?_, fun u => ?_, fun u => ?_, hreturned⟩
  · rw [hwaiters, hstage, Function.update_apply]
    by_cases hu : u = task
    · rw [if_pos hu, if_pos hu]
    · rw [if_neg hu, if_neg hu, h.waiters]
  · rw [hstage, Function.update_apply] at hw
    by_cases hu : u = task
    · rw [if_pos hu] at hw
      exact hu ▸ hblocked w hw
    · rw [if_neg hu] at hw
      rw [hevent u hu, h.blocked u w hw]
  · rw [huptime]
    exact hstages (Q := fun _ stage => ∀ w, stage = .leaving w → w.deadline ≤ s.uptime) hleaving
      h.leaving u
  · rw [huptime]
    exact hstages (Q := fun _ stage => ∀ w, stage.wait = some w → w.since ≤ s.uptime) hsince
      h.since u

/-- The record stays as it is. -/
theorem WaitInv.waiters_move (h : WaitInv s) {stage : Stage}
    (hlinked : stage.linked = (s.stage task).linked) (u : ℕ) (d : ℤ) :
    (u, d) ∈ s.waiters ↔
      if u = task then ∃ w, stage.linked = some w ∧ w.deadline = d else (u, d) ∈ s.waiters := by
  split_ifs with hu
  · rw [h.waiters, hu, hlinked]
  · exact Iff.rfl

theorem WaitInv.wake (h : WaitInv s) {next : Wait → Stage}
    (hnext : ∀ w, next w = .looking w ∨ next w = .taking w) : WaitInv (s.wake task next) := by
  unfold State.wake
  split
  · next w hw =>
    refine h.move rfl h.nodup (h.waiters_move ?_) (fun _ _ => rfl) (fun v hv => ?_) rfl
      (fun v hv => ?_) (fun v hv => ?_) h.returned
    · rcases hnext w with heq | heq <;> rw [heq, hw] <;> rfl
    · rcases hnext w with heq | heq <;> rw [heq] at hv <;> cases hv
    · rcases hnext w with heq | heq <;> rw [heq] at hv <;> cases hv
    · refine h.since task v ?_
      rw [hw]
      rcases hnext w with heq | heq <;> rw [heq] at hv <;> exact hv
  · exact h

theorem mem_remove_record {stage : Stage} (hlinked : stage.linked = none)
    (u : ℕ) (d : ℤ) : (u, d) ∈ s.waiters.filter (fun waiter => waiter.1 ≠ task) ↔
      if u = task then ∃ w, stage.linked = some w ∧ w.deadline = d else (u, d) ∈ s.waiters := by
  rw [List.mem_filter, hlinked]
  split_ifs with hu <;> simp [hu]

theorem proceed_waitInv (h : WaitInv s) (hstep : s.proceed task = some s') : WaitInv s' := by
  unfold State.proceed at hstep
  split at hstep
  · cases hstep
  · -- the record is linked
    next w hw =>
    obtain rfl := Option.some.inj hstep
    have hnew : ∀ d, (task, d) ∉ s.waiters := by
      intro d hd
      obtain ⟨v, hv, -⟩ := (h.waiters task d).mp hd
      rw [hw] at hv
      cases hv
    refine h.move rfl (List.nodup_cons.mpr ⟨?_, h.nodup⟩) (fun u d => ?_) (fun _ _ => rfl)
      (fun _ hv => by cases hv) rfl (fun _ hv => by cases hv) (fun v hv => ?_) h.returned
    · rintro hmem
      obtain ⟨⟨u, d⟩, hd, rfl⟩ := List.mem_map.mp hmem
      exact hnew d hd
    · change (u, d) ∈ (task, w.deadline) :: s.waiters ↔ _
      rw [List.mem_cons]
      split_ifs with hu
      · subst hu
        simp [hnew, Stage.linked, eq_comm]
      · simp [hu]
    · exact h.since task v (by rw [hw]; exact hv)
  · -- the clock is looked at
    next w hw =>
    obtain rfl := Option.some.inj hstep
    by_cases hlt : s.uptime < w.deadline
    · rw [if_pos hlt]
      refine h.move rfl h.nodup (h.waiters_move (by rw [hw]; rfl)) (fun _ _ => rfl)
        (fun _ hv => by cases hv) rfl (fun _ hv => by cases hv) (fun v hv => ?_) h.returned
      exact h.since task v (by rw [hw]; exact hv)
    · rw [if_neg hlt]
      refine h.move rfl h.nodup (h.waiters_move (by rw [hw]; rfl)) (fun _ _ => rfl)
        (fun _ hv => by cases hv) rfl (fun v hv => ?_) (fun v hv => ?_) h.returned
      · cases hv
        omega
      · exact h.since task v (by rw [hw]; exact hv)
  · next w hw =>
    split_ifs at hstep with hevent
    · obtain rfl := Option.some.inj hstep
      refine h.move rfl h.nodup (h.waiters_move (by rw [hw]; rfl))
        (fun _ hu => Function.update_of_ne hu ..) (fun _ hv => by cases hv) rfl
        (fun _ hv => by cases hv) (fun v hv => ?_) h.returned
      exact h.since task v (by rw [hw]; exact hv)
    · obtain rfl := Option.some.inj hstep
      refine h.move rfl h.nodup (h.waiters_move (by rw [hw]; rfl)) (fun _ _ => rfl)
        (fun _ _ => Bool.eq_false_iff.mpr hevent) rfl (fun _ hv => by cases hv) (fun v hv => ?_)
        h.returned
      exact h.since task v (by rw [hw]; exact hv)
  · cases hstep
  · -- the record is removed
    next w hw =>
    obtain rfl := Option.some.inj hstep
    rw [eraseP_eq_filter h.nodup]
    refine h.move rfl (h.nodup.sublist (List.filter_sublist.map _)) (mem_remove_record rfl)
      (fun _ _ => rfl) (fun _ hv => by cases hv) rfl (fun _ hv => by cases hv)
      (fun _ hv => by cases hv) fun p hp => ?_
    rcases List.mem_append.mp hp with hp | hp
    · exact h.returned p hp
    · obtain rfl := List.mem_singleton.mp hp
      exact ⟨h.leaving task w hw, h.since task w (by rw [hw]; rfl)⟩

/-- Steps that are not about waits. -/
theorem WaitInv.elsewhere (h : WaitInv s) (hwaiters : s'.waiters = s.waiters)
    (hreturned : s'.returned = s.returned) (hevent : s'.event = s.event)
    (hstage : s'.stage = s.stage) (huptime : s.uptime ≤ s'.uptime) : WaitInv s' :=
  h.congr hwaiters hreturned huptime (fun task => by rw [hstage]) (fun task => by rw [hstage])
    (fun task w hw => by rw [hevent]; exact h.blocked task w (by rw [← hstage]; exact hw))
    fun task w hw => by rw [← hstage]; exact hw

theorem step_waitInv (start : ℕ) : Preserves step fun s => Inv start s ∧ WaitInv s := by
  rintro s a s' h ⟨hs, hw⟩
  refine ⟨step_inv start h hs, ?_⟩
  have hother : ∀ {t : State}, t.waiters = s.waiters → t.returned = s.returned →
      t.event = s.event → t.stage = s.stage → s.uptime ≤ t.uptime → WaitInv t := hw.elsewhere
  cases a with
  | delay task ticks =>
    simp only [step] at h
    split_ifs at h
    obtain rfl := Option.some.inj h
    exact hother rfl rfl rfl rfl (le_refl _)
  | unblock task | notifyFromISR task | suspendAll =>
    obtain rfl := Option.some.inj h
    exact hother rfl rfl rfl rfl (le_refl _)
  | abortDelay task =>
    simp only [step] at h
    split_ifs at h
    obtain rfl := Option.some.inj h
    have hkernel : WaitInv { s with kernel := s.kernel.take (· == task) } :=
      hother rfl rfl rfl rfl (le_refl _)
    exact hkernel.wake fun _ => Or.inl rfl
  | remove task =>
    obtain rfl := Option.some.inj h
    have hkernel : WaitInv { s with kernel := s.kernel.remove task } :=
      hother rfl rfl rfl rfl (le_refl _)
    exact hkernel.wake fun _ => Or.inr rfl
  | resumeAll =>
    obtain ⟨kernel, -, rfl⟩ := Option.map_eq_some_iff.mp h
    exact hother rfl rfl rfl rfl (le_refl _)
  | advance us =>
    obtain rfl := Option.some.inj h
    exact hother rfl rfl rfl rfl (by dsimp only; omega)
  | tick =>
    obtain ⟨kernel, n, rfl⟩ := tick_eq_some h
    exact hw.pollWaiters.elsewhere rfl rfl rfl rfl (le_refl _)
  | idle alarm =>
    obtain ⟨deadline, -, -, -, -, n, rfl⟩ := idle_idleStep hs h
    refine hother rfl rfl rfl rfl ?_
    dsimp only
    split_ifs
    · exact le_refl _
    · exact le_max_left _ _
  | waitUntil task deadline =>
    simp only [step] at h
    split_ifs at h with hout
    obtain rfl := Option.some.inj h
    refine hw.move rfl hw.nodup (hw.waiters_move (by rw [hout.1]; rfl))
      (fun _ hu => Function.update_of_ne hu ..) (fun _ hv => by cases hv) rfl
      (fun _ hv => by cases hv) (fun v hv => ?_) hw.returned
    cases hv
    exact le_refl _
  | proceed task => exact proceed_waitInv hw h
  | taskDeleted task =>
    obtain rfl := Option.some.inj h
    exact hw.move rfl (hw.nodup.sublist (List.filter_sublist.map _)) (mem_remove_record rfl)
      (fun _ _ => rfl) (fun _ hv => by cases hv) rfl (fun _ hv => by cases hv)
      (fun _ hv => by cases hv) hw.returned

/-- A wait that is not blocked and whose deadline is reached ends within three steps of its own. -/
theorem returns_of_due (hstage : s.stage task = .looking w ∨ s.stage task = .leaving w ∨
      s.stage task = .taking w ∧ s.event task = true) (hdue : w.deadline ≤ s.uptime) :
    ∃ k ≤ 3, ∃ z, run step s (List.replicate k (.proceed task)) = some z ∧
      (task, w, s.uptime) ∈ z.returned := by
  have hleaving : ∀ {s : State}, s.stage task = .leaving w →
      ∃ z, step s (.proceed task) = some z ∧ (task, w, s.uptime) ∈ z.returned := by
    intro s hs
    simp only [step, State.proceed, hs]
    exact ⟨_, rfl, List.mem_append_right _ (List.mem_singleton_self _)⟩
  have hlooking : ∀ {s : State}, s.stage task = .looking w → w.deadline ≤ s.uptime →
      ∃ t, step s (.proceed task) = some t ∧ t.stage task = .leaving w ∧ t.uptime = s.uptime := by
    intro s hs hdue
    simp only [step, State.proceed, hs]
    rw [if_neg (by omega)]
    exact ⟨_, rfl, Function.update_self .., rfl⟩
  rcases hstage with hs | hs | ⟨hs, hevent⟩
  · obtain ⟨t, ht, hstage, huptime⟩ := hlooking hs hdue
    obtain ⟨z, hz, hreturned⟩ := hleaving hstage
    refine ⟨2, by decide, z, ?_, huptime ▸ hreturned⟩
    exact run_cons_eq_some.mpr ⟨t, ht, run_cons_eq_some.mpr ⟨z, hz, rfl⟩⟩
  · obtain ⟨z, hz, hreturned⟩ := hleaving hs
    exact ⟨1, by decide, z, run_cons_eq_some.mpr ⟨z, hz, rfl⟩, hreturned⟩
  · have htaking : ∃ t, step s (.proceed task) = some t ∧ t.stage task = .looking w ∧
        t.uptime = s.uptime := by
      simp only [step, State.proceed, hs]
      rw [if_pos hevent]
      exact ⟨_, rfl, Function.update_self .., rfl⟩
    obtain ⟨t, ht, hstage, huptime⟩ := htaking
    obtain ⟨t', ht', hstage', huptime'⟩ := hlooking hstage (huptime ▸ hdue)
    obtain ⟨z, hz, hreturned⟩ := hleaving hstage'
    rw [huptime', huptime] at hreturned
    exact ⟨3, le_refl _, z, run_cons_eq_some.mpr ⟨t, ht, run_cons_eq_some.mpr ⟨t', ht',
      run_cons_eq_some.mpr ⟨z, hz, rfl⟩⟩⟩, hreturned⟩

theorem returns_after_tick (h : WaitInv s) (hstep : step s .tick = some s')
    (hlinked : (s'.stage task).linked = some w) (hdue : w.deadline ≤ s'.uptime) :
    ∃ k ≤ 3, ∃ z, run step s' (List.replicate k (.proceed task)) = some z ∧
      (task, w, s'.uptime) ∈ z.returned := by
  obtain ⟨kernel, n, rfl⟩ := tick_eq_some hstep
  have hpolled := h.pollWaiters
  have hgiven := pollWaiters_given s
  have hmem : (task, w.deadline) ∈ s.waiters := by
    rw [← hgiven.waiters]
    exact (hpolled.waiters task w.deadline).mpr ⟨w, hlinked, rfl⟩
  have hevent : s.pollWaiters.event task = true :=
    pollWaiters_event hmem (by rw [← hgiven.uptime]; exact hdue)
  refine returns_of_due ?_ hdue
  change s.pollWaiters.stage task = .looking w ∨ s.pollWaiters.stage task = .leaving w ∨
    s.pollWaiters.stage task = .taking w ∧ s.pollWaiters.event task = true
  change (s.pollWaiters.stage task).linked = some w at hlinked
  cases hstage : s.pollWaiters.stage task with
  | out => rw [hstage] at hlinked; cases hlinked
  | entered v => rw [hstage] at hlinked; cases hlinked
  | looking v =>
    rw [hstage] at hlinked
    cases hlinked
    exact Or.inl rfl
  | taking v =>
    rw [hstage] at hlinked
    cases hlinked
    exact Or.inr (Or.inr ⟨rfl, hevent⟩)
  | blocked v =>
    have hfalse := hpolled.blocked task v hstage
    rw [hevent] at hfalse
    cases hfalse
  | leaving v =>
    rw [hstage] at hlinked
    cases hlinked
    exact Or.inr (Or.inl rfl)

/-- Only the idle hook sets the clock forward, and it runs while no wait can go on. -/
def Undisturbed (s : State) : Act → Prop
  | .advance _ => False
  | .idle _ => ∀ task, s.stage task = .out ∨ ∃ w, s.stage task = .blocked w
  | _ => True

/-- Nobody is past a deadline, and each wait has ended on time. -/
structure Timely (s : State) : Prop where
  wait : ∀ task w, (s.stage task).wait = some w → s.uptime ≤ max w.deadline w.since
  returned : ∀ p ∈ s.returned, p.2.2 = max p.2.1.deadline p.2.1.since

theorem wait_pollWaiters (s : State) (task : ℕ) :
    (s.pollWaiters.stage task).wait = (s.stage task).wait := by
  refine pollWaiters_induction (P := fun t => (t.stage task).wait = (s.stage task).wait) rfl
    fun t u ht => ?_
  rcases give_stage t u task with heq | ⟨rfl, w, hw, heq⟩
  · rw [heq, ht]
  · rw [heq, ← ht, hw]
    rfl

/-- A step that leaves the clock as it is starts a wait now, if any, and ends one now, if any. -/
theorem Timely.of_step (h : Timely s) (hw : WaitInv s) (huptime : s'.uptime = s.uptime)
    (hwait : ∀ task w, (s'.stage task).wait = some w →
      (s.stage task).wait = some w ∨ w.since = s.uptime)
    (hreturned : ∀ p ∈ s'.returned, p ∈ s.returned ∨
      s.stage p.1 = .leaving p.2.1 ∧ p.2.2 = s.uptime) : Timely s' where
  wait := fun task w hstage => by
    rw [huptime]
    rcases hwait task w hstage with hold | hnew
    · exact h.wait task w hold
    · exact hnew ▸ le_max_right _ _
  returned := fun p hp => by
    rcases hreturned p hp with hold | ⟨hstage, hnow⟩
    · exact h.returned p hold
    · have hsome : (s.stage p.1).wait = some p.2.1 := by rw [hstage]; rfl
      have hle := h.wait p.1 p.2.1 hsome
      have hdeadline := hw.leaving p.1 p.2.1 hstage
      have hsince := hw.since p.1 p.2.1 hsome
      omega

theorem wait_update {f : ℕ → Stage} {stage : Stage} (hstage : stage.wait = (f task).wait) (u : ℕ) :
    (Function.update f task stage u).wait = (f u).wait := by
  rw [Function.update_apply]
  split_ifs with hu
  · rw [hstage, hu]
  · rfl

theorem wait_wake {next : Wait → Stage} (hnext : ∀ w, (next w).wait = some w) (u : ℕ) :
    ((s.wake task next).stage u).wait = (s.stage u).wait := by
  unfold State.wake
  split
  · next w hw => exact wait_update (by rw [hnext, hw]; rfl) u
  · rfl

theorem proceed_timely (h : Timely s) (hw : WaitInv s) (hstep : s.proceed task = some s') :
    Timely s' := by
  refine h.of_step hw (proceed_ticks hstep).2.1 (fun u v hv => ?_) fun p hp => ?_
  · left
    unfold State.proceed at hstep
    split at hstep
    · cases hstep
    · next w hstage =>
      obtain rfl := Option.some.inj hstep
      rwa [State.setStage, wait_update (by rw [hstage]; rfl)] at hv
    · next w hstage =>
      obtain rfl := Option.some.inj hstep
      rwa [State.setStage, wait_update (by rw [hstage]; split_ifs <;> rfl)] at hv
    · next w hstage =>
      split_ifs at hstep <;> obtain rfl := Option.some.inj hstep <;>
        rwa [State.setStage, wait_update (by rw [hstage]; rfl)] at hv
    · cases hstep
    · next w hstage =>
      obtain rfl := Option.some.inj hstep
      simp only [State.setStage, Function.update_apply] at hv
      split_ifs at hv
      · cases hv
      · exact hv
  · unfold State.proceed at hstep
    split at hstep
    · cases hstep
    · obtain rfl := Option.some.inj hstep
      exact Or.inl hp
    · obtain rfl := Option.some.inj hstep
      exact Or.inl hp
    · split_ifs at hstep <;> obtain rfl := Option.some.inj hstep <;> exact Or.inl hp
    · cases hstep
    · next w hstage =>
      obtain rfl := Option.some.inj hstep
      rcases List.mem_append.mp hp with hp | hp
      · exact Or.inl hp
      · obtain rfl := List.mem_singleton.mp hp
        exact Or.inr ⟨hstage, rfl⟩

theorem step_timely (start : ℕ) : PreservesWhen step Undisturbed
    fun s => (Inv start s ∧ WaitInv s) ∧ Timely s := by
  rintro s a s' ha h ⟨hs, ht⟩
  refine ⟨step_waitInv start h hs, ?_⟩
  have hother : ∀ {t : State}, t.uptime = s.uptime → t.returned = s.returned →
      (∀ u, (t.stage u).wait = (s.stage u).wait) → Timely t :=
    fun huptime hreturned hwait => ht.of_step hs.2 huptime
      (fun u w hw => Or.inl ((hwait u).symm.trans hw)) fun p hp => Or.inl (hreturned ▸ hp)
  cases a with
  | delay task ticks =>
    simp only [step] at h
    split_ifs at h
    obtain rfl := Option.some.inj h
    exact hother rfl rfl fun _ => rfl
  | unblock task | notifyFromISR task | suspendAll =>
    obtain rfl := Option.some.inj h
    exact hother rfl rfl fun _ => rfl
  | abortDelay task =>
    simp only [step] at h
    split_ifs at h
    obtain rfl := Option.some.inj h
    have hgiven := wake_given { s with kernel := s.kernel.take (· == task) } task .looking
    exact hother hgiven.uptime hgiven.returned fun u => wait_wake (fun _ => rfl) u
  | remove task =>
    obtain rfl := Option.some.inj h
    have hgiven := wake_given { s with kernel := s.kernel.remove task } task .taking
    exact hother hgiven.uptime hgiven.returned fun u => wait_wake (fun _ => rfl) u
  | resumeAll =>
    obtain ⟨kernel, -, rfl⟩ := Option.map_eq_some_iff.mp h
    exact hother rfl rfl fun _ => rfl
  | advance us => exact ha.elim
  | tick =>
    obtain ⟨kernel, n, rfl⟩ := tick_eq_some h
    have hgiven := pollWaiters_given s
    exact hother hgiven.uptime hgiven.returned (wait_pollWaiters s)
  | idle alarm =>
    obtain ⟨deadline, -, hwaiters, -, -, n, rfl⟩ := idle_idleStep hs.1 h
    refine ⟨fun u w hw => ?_, ht.returned⟩
    have hbefore := ht.wait u w hw
    rcases ha u with hout | ⟨v, hblocked⟩
    · change (s.stage u).wait = some w at hw
      rw [hout] at hw
      cases hw
    · change (s.stage u).wait = some w at hw
      rw [hblocked] at hw
      cases hw
      have hmem : (u, w.deadline) ∈ s.waiters :=
        (hs.2.waiters u w.deadline).mpr ⟨w, by rw [hblocked]; rfl, rfl⟩
      have hle := hwaiters _ hmem
      dsimp only at hle ⊢
      split_ifs
      · exact hbefore
      · omega
  | waitUntil task deadline =>
    simp only [step] at h
    split_ifs at h
    obtain rfl := Option.some.inj h
    refine ht.of_step hs.2 rfl (fun u w hw => ?_) fun p hp => Or.inl hp
    simp only [State.waitUntil, State.setStage, Function.update_apply] at hw
    split_ifs at hw
    · cases hw
      exact Or.inr rfl
    · exact Or.inl hw
  | proceed task => exact proceed_timely ht hs.2 h
  | taskDeleted task =>
    obtain rfl := Option.some.inj h
    refine ht.of_step hs.2 rfl (fun u w hw => ?_) fun p hp => Or.inl hp
    simp only [State.setStage, Function.update_apply] at hw
    split_ifs at hw
    · cases hw
    · exact Or.inl hw

theorem Started.waits (h : Started s) : WaitInv s ∧ Timely s := by
  refine ⟨⟨?_, fun task d => ?_, fun task w hw => ?_, fun task w hw => ?_, fun task w hw => ?_,
    fun p hp => ?_⟩, fun task w hw => ?_, fun p hp => ?_⟩
  · rw [h.waiters]
    exact List.nodup_nil
  · rw [h.waiters, h.stage]
    simp [Stage.linked]
  · rw [h.stage] at hw
    cases hw
  · rw [h.stage] at hw
    cases hw
  · rw [h.stage] at hw
    cases hw
  · rw [h.returned] at hp
    exact (List.not_mem_nil hp).elim
  · rw [h.stage] at hw
    cases hw
  · rw [h.returned] at hp
    exact (List.not_mem_nil hp).elim

/-- In every run: the list of waiters has each wait that is registered and has not ended, once. No
wait ends before its deadline, and after a tick each whose deadline is reached ends within three
steps of its own. While only the idle hook sets the clock forward, and only when no wait can go on,
each wait ends at its deadline, or at once where that has passed. -/
theorem waits_kept {s₀ : State} {acts : List Act} (h₀ : Started s₀)
    (hr : run step s₀ acts = some s) :
    (s.waiters.map Prod.fst).Nodup ∧
    (∀ task d, (task, d) ∈ s.waiters ↔ ∃ w, (s.stage task).linked = some w ∧ w.deadline = d) ∧
    (∀ p ∈ s.returned, p.2.1.deadline ≤ p.2.2) ∧
    (∀ s', step s .tick = some s' → ∀ task w, (s'.stage task).linked = some w →
      w.deadline ≤ s'.uptime →
      ∃ k ≤ 3, ∃ z, run step s' (List.replicate k (.proceed task)) = some z ∧
        (task, w, s'.uptime) ∈ z.returned) ∧
    (Meets step Undisturbed s₀ acts →
      ∀ p ∈ s.returned, p.2.2 = max p.2.1.deadline p.2.1.since) := by
  obtain ⟨hwaits₀, htimely₀⟩ := h₀.waits
  obtain ⟨hs, hw⟩ := (step_waitInv s₀.kernel.now).run hr ⟨h₀.inv.1, hwaits₀⟩
  refine ⟨hw.nodup, hw.waiters, fun p hp => (hw.returned p hp).1,
    fun s' hstep task w hlinked hdue => returns_after_tick hw hstep hlinked hdue, fun hmeets => ?_⟩
  exact ((step_timely s₀.kernel.now).run hmeets hr ⟨⟨h₀.inv.1, hwaits₀⟩, htimely₀⟩).2.returned

/-- Two tasks wait, the second for an earlier time. -/
def overlapping : List Act :=
  [.waitUntil 1 7500, .proceed 1, .proceed 1, .proceed 1, .waitUntil 2 2500, .proceed 2, .proceed 2,
    .proceed 2, .idle 900000, .tick, .idle 900000, .tick, .proceed 2, .proceed 2, .proceed 2,
    .idle 900000, .tick, .idle 900000, .tick, .proceed 1, .proceed 1, .proceed 1]

def Stage.resting : Stage → Bool
  | .out | .blocked _ => true
  | _ => false

/-- The act is about the two tasks, and the idle hook runs while they rest. -/
def aboutBoth (s : State) : Act → Bool
  | .waitUntil task _ | .proceed task => task == 1 || task == 2
  | .tick => true
  | .idle _ => (s.stage 1).resting && (s.stage 2).resting
  | _ => false

theorem overlapping_undisturbed : Meets step Undisturbed started overlapping := by
  have hcheck : check step aboutBoth started overlapping = true := by decide
  refine Meets.of_check (I := fun s => ∀ task, task ≠ 1 → task ≠ 2 → s.stage task = .out) ?_ ?_
    (fun _ _ _ => rfl) hcheck
  · intro s a s' hout htest hstep task hone htwo
    have hupdate : ∀ {u stage}, (u == 1 || u == 2) = true →
        Function.update s.stage u stage task = .out := by
      intro u stage hu
      have hne : task ≠ u := by
        rintro rfl
        simp [hone, htwo] at hu
      rw [Function.update_of_ne hne]
      exact hout task hone htwo
    cases a with
    | waitUntil u d =>
      simp only [step] at hstep
      split_ifs at hstep
      obtain rfl := Option.some.inj hstep
      exact hupdate htest
    | proceed u =>
      simp only [step, State.proceed] at hstep
      split at hstep
      case h_1 | h_5 => cases hstep
      case h_4 =>
        split_ifs at hstep <;> obtain rfl := Option.some.inj hstep <;> exact hupdate htest
      all_goals
        obtain rfl := Option.some.inj hstep
        exact hupdate htest
    | tick =>
      obtain ⟨kernel, n, rfl⟩ := tick_eq_some hstep
      have hnone : (s.pollWaiters.stage task).wait = none := by
        rw [wait_pollWaiters, hout task hone htwo]
        rfl
      change s.pollWaiters.stage task = .out
      cases hstage : s.pollWaiters.stage task with
      | out => rfl
      | _ =>
        rw [hstage] at hnone
        cases hnone
    | idle alarm =>
      simp only [step, State.idle] at hstep
      split_ifs at hstep
      · obtain rfl := Option.some.inj hstep
        exact hout task hone htwo
      all_goals
        obtain ⟨kernel, -, rfl⟩ := Option.map_eq_some_iff.mp hstep
        exact hout task hone htwo
    | _ => cases htest
  · intro s a hout htest
    cases a with
    | idle alarm =>
      intro task
      have hrest : ∀ u, (s.stage u).resting = true →
          s.stage u = .out ∨ ∃ w, s.stage u = .blocked w := by
        intro u hu
        cases hstage : s.stage u <;> rw [hstage] at hu
        case out => exact Or.inl rfl
        case blocked w => exact Or.inr ⟨w, rfl⟩
        all_goals cases hu
      obtain ⟨hone, htwo⟩ := Bool.and_eq_true_iff.mp htest
      by_cases h1 : task = 1
      · exact h1 ▸ hrest 1 hone
      · by_cases h2 : task = 2
        · exact h2 ▸ hrest 2 htwo
        · exact Or.inl (hout task h1 h2)
    | advance us => cases htest
    | _ => trivial

/-- Both end at their deadlines, though the hook stops at the wrap between them. -/
theorem waits_kept_overlapping :
    ∃ s, run step started overlapping = some s ∧ s.uptime = 7500 ∧
      s.returned.map (fun p => (p.1, p.2.2)) = [(2, 2500), (1, 7500)] ∧
      ∀ p ∈ s.returned, p.2.2 = max p.2.1.deadline p.2.1.since := by
  have hrun : run step started overlapping =
      some ((run step started overlapping).get (by decide)) := (Option.some_get _).symm
  obtain ⟨-, -, -, -, hontime⟩ := waits_kept started_started hrun
  exact ⟨_, hrun, by decide, by decide, hontime overlapping_undisturbed⟩

end RooTesting.IdleClock
