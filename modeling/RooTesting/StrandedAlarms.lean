import RooTesting.ConcurrentDelays

/-! # What concurrent delays keep, and when they strand an alarm

An owner that has seen nothing due gives the delivery up in a later section. A delay
that publishes its target in between relies on an owner that will not look again. -/
namespace RooTesting.AlarmThreads
open Transition Threads AlarmService AlarmTable AlarmDelay

variable {κ : Type}

/-- How often a thread is inside an alarm callback. -/
def callbacks (st : List (Frame κ)) : ℕ :=
  st.countP fun | .pump _ (.running _) => true | _ => false

/-- A delay that finds the delivery owned publishes its target to an owner that looks
again, unless nothing it owes is pending any more. -/
def PublishesInTime (c : System κ) (a : ℕ × Event κ) : Prop :=
  a.2 = .resume → ∀ d rest, c.thread a.1 = .enter (.delay d) :: rest →
    (∃ t caller, .pump caller .release ∈ c.thread t) →
      ∀ e ∈ c.shared.service.alarms, e.2.id ∉ d.owed

section Covering

variable {c : System κ} {t : ℕ} {e : Event κ} {s s' : Shared κ} {st st' : List (Frame κ)}
  {before : List ℕ}

/-- Somebody will look again, or no alarm that a settled delay owes is pending. -/
def Covered (c : System κ) : Prop :=
  ∀ d, Settled c d → (∃ t, scans (c.thread t) = true) ∨
    ∀ e ∈ c.shared.service.alarms, e.2.id ∉ d.owed

theorem covered_start (s : Service κ) : Covered (start s) := by
  rintro d (hd | ⟨t, hd⟩)
  · simp [start, returnedDelays] at hd
  · by_cases ht : t = 0 <;> simp [start, ht, settledIn, Frame.settled] at hd

/-- An owner looks again, or it has decided to stop. -/
theorem scans_or_release (h : 0 < owners st) :
    scans st = true ∨ ∃ caller, .pump caller .release ∈ st := by
  obtain ⟨f, hf, howns⟩ := List.countP_pos_iff.mp h
  cases f with
  | pump caller phase =>
    cases phase with
    | release => exact Or.inr ⟨caller, hf⟩
    | _ => exact Or.inl (List.any_eq_true.mpr ⟨_, hf, rfl⟩)
  | _ => cases howns

/-- Only the decision that nothing is due ends the scanning of a thread. -/
theorem scans_of_effect (he : Effect s e st s' st') (hscan : scans st = true)
    (ht : TableOk s.service) :
    scans st' = true ∨ ∀ a ∈ s'.service.alarms, s'.service.uptimeNs < a.1 * kNanosPerMicrosecond := by
  cases he with
  | quiet p hp hs hh hcore => exact Or.inl ((views_eq_of_core hcore).2.2.trans hscan)
  | decide hc =>
    obtain ⟨p, -, ⟨-, rfl, hnone, -⟩ | ⟨first, rest, hr, -⟩⟩ := ht.claimDue_cases hc
    · exact Or.inr hnone
    · cases hr
  | own ho => exact Or.inl rfl
  | claim hc => exact Or.inl rfl
  | invoke => exact Or.inl rfl
  | ret => exact Or.inl rfl
  | _ => exact Or.inl hscan

theorem Covered.step (h : Covered c) (hc : Consistent before c) (hd : Debts before c)
    (ht : Targets c) (hrun : c.shared.service.state = .running)
    (hok : PublishesInTime c (t, e)) (he : Effect c.shared e (c.thread t) s' st') :
    Covered ⟨s', Function.update c.thread t st'⟩ := by
  have ht' := ht.step hc.ledger.table hrun he
  have hd' := hd.step hc.ledger ht hrun he
  intro d hset
  -- with nothing due, nothing that a settled delay owes is left
  have idle : (∀ a ∈ s'.service.alarms, s'.service.uptimeNs < a.1 * kNanosPerMicrosecond) →
      ∀ a ∈ s'.service.alarms, a.2.id ∉ d.owed := by
    intro hnone a ha hid
    obtain ⟨hbegun, hreach⟩ := ht'.settled d hset
    exact absurd ((hd'.due d hbegun a ha hid).trans hreach) (not_le.mpr (hnone a ha))
  -- the alarms a delay owes are not among the new ones
  have keep : d ∈ begunDelays c.shared.history →
      (∀ a ∈ c.shared.service.alarms, a.2.id ∉ d.owed) →
        ∀ a ∈ s'.service.alarms, a.2.id ∉ d.owed := by
    intro hbegun hnone a ha hid
    exact hnone a (hc.ledger.alarms_of_known he ha (hd.known d hbegun _ hid)) hid
  have scan : (∃ u, scans (c.thread u) = true) →
      (∃ u, scans (Function.update c.thread t st' u) = true) ∨
        ∀ a ∈ s'.service.alarms, a.2.id ∉ d.owed := by
    rintro ⟨u, hu⟩
    by_cases hut : u = t
    · subst hut
      rcases scans_of_effect he hu hc.ledger.table with hs | hnone
      · exact Or.inl ⟨u, by simpa using hs⟩
      · exact Or.inr (idle hnone)
    · exact Or.inl ⟨u, by simpa [Function.update_of_ne hut] using hu⟩
  have old : Settled c d → (∃ u, scans (Function.update c.thread t st' u) = true) ∨
      ∀ a ∈ s'.service.alarms, a.2.id ∉ d.owed := by
    intro hold
    rcases h d hold with hs | hnone
    · exact scan hs
    · exact Or.inr (keep (ht.settled d hold).1 hnone)
  have hmove := delayMove_of_effect he hc.ledger.table ht.manual hrun fun d hd =>
    (ht.target d (ht.unsettled t d hd)).2
  rcases settled_of_move hmove hset with hold | ⟨huns, -, ⟨hresume, hactive, rest, hst⟩ | hnone⟩
  · exact old hold
  · -- the step publishes the target of this delay to the owner
    obtain ⟨u, hu, -⟩ : ∃ u, owners (c.thread u) = 1 ∧ _ := hactive ▸ hc.ownership.held
    rcases scans_or_release (hu ▸ Nat.one_pos) with hs | ⟨caller, hrel⟩
    · exact scan ⟨u, hs⟩
    · exact Or.inr (keep (ht.unsettled t d huns) (hok hresume d rest hst ⟨u, caller, hrel⟩))
  · exact Or.inr (idle hnone)

end Covering

section Runs

/-- The state of a run of concurrent delays in a running service. -/
structure Delaying (before : List ℕ) (c : System κ) : Prop where
  consistent : Consistent before c
  running : c.shared.service.state = .running ∧ discardedIds c.shared.history = []
  targets : Targets c
  debts : Debts before c

theorem delaying_start {s : Service κ} (h : Idle s) : Delaying (ids s) (start s) :=
  ⟨consistent_start h.table h.inactive, ⟨h.running, rfl⟩, targets_start h,
    ⟨by simp [start, begunDelays], by simp [start, begunDelays]⟩⟩

theorem Delaying.effect {before : List ℕ} {c : System κ} (h : Delaying before c) {t : ℕ}
    {e : Event κ} {s' : Shared κ} {st' : List (Frame κ)} (hne : e ≠ .tryBegin)
    (he : Effect c.shared e (c.thread t) s' st') :
    Delaying before ⟨s', Function.update c.thread t st'⟩ := by
  refine ⟨h.consistent.effect he, ?_, h.targets.step h.consistent.ledger.table h.running.1 he,
    h.debts.step h.consistent.ledger h.targets h.running.1 he⟩
  have hrun := h.running
  have ht := h.consistent.ledger.table
  generalize hst : c.thread t = st at he
  cases he with
  | quiet p hp hs hh hcore => simpa [hs, hh] using hrun
  | schedule hs =>
    obtain ⟨-, -, -, -, rfl⟩ := schedule_eq_some.mp hs
    exact hrun
  | cancel hc =>
    obtain ⟨-, rfl⟩ := ht.cancel_eq_true hc
    exact hrun
  | delay hmicros hr hd =>
    obtain ⟨-, -, rfl⟩ := reserve_eq_some hr
    exact hrun
  | lag hl =>
    obtain ⟨-, p, -, rfl⟩ := add_eq_some hl
    exact hrun
  | closing hc => exact absurd rfl hne
  | own ho =>
    obtain ⟨-, -, rfl⟩ := enter_eq_true ho
    exact hrun
  | pass ho =>
    obtain ⟨p, -, rfl, -⟩ := enter_eq_false ho
    exact hrun
  | decide hc =>
    obtain ⟨p, -, ⟨-, rfl, -⟩ | ⟨first, rest, hr, -⟩⟩ := ht.claimDue_cases hc
    · exact hrun
    · cases hr
  | claim hc =>
    obtain ⟨p, -, ⟨hr, -⟩ | ⟨first, rest, -, -, -, rfl⟩⟩ := ht.claimDue_cases hc
    · cases hr
    · exact hrun
  | @discard j rest => exact absurd hrun.1 (h.consistent.ownership.joining t j (by simp [hst]))
  | _ => exact hrun

theorem delaying_step (before : List ℕ) : PreservesWhen (fire (step (κ := κ)))
    (fun _ a => a.2 ≠ .tryBegin) (Delaying before) := by
  intro c a c' hne hstep h
  obtain ⟨s', st', hp, rfl⟩ := fire_eq_some.mp hstep
  exact h.effect hne (effect_of_step hp)

theorem covered_step (before : List ℕ) : PreservesWhen (fire (step (κ := κ)))
    (fun c a => a.2 ≠ .tryBegin ∧ PublishesInTime c a) (fun c => Delaying before c ∧ Covered c) := by
  rintro c ⟨t, e⟩ c' ⟨hne, hok⟩ hstep ⟨h, hcov⟩
  obtain ⟨s', st', hp, rfl⟩ := fire_eq_some.mp hstep
  exact ⟨h.effect hne (effect_of_step hp), hcov.step h.consistent h.debts h.targets h.running.1 hok
    (effect_of_step hp)⟩

/-- The furthest instant reached or reserved, against the delays begun. -/
def Total (originNs : ℤ) (c : System κ) : Prop :=
  max c.shared.service.uptimeNs c.shared.service.reservedUptimeNs =
    originNs + ((begunDelays c.shared.history).map DelayRecord.durationNs).sum

theorem total_run_step (before : List ℕ) (originNs : ℤ) : PreservesWhen (fire (step (κ := κ)))
    (fun _ a => a.2 ≠ .tryBegin ∧ ∀ ns, a.2 ≠ .lag ns)
    (fun c => Delaying before c ∧ Total originNs c) := by
  rintro c a c' ⟨hne, hlag⟩ hstep ⟨h, htotal⟩
  obtain ⟨s', st', hp, rfl⟩ := fire_eq_some.mp hstep
  exact ⟨h.effect hne (effect_of_step hp), total_step h.targets h.consistent.ledger.table h.running.1
    (effect_of_step hp) hlag htotal⟩

/-- The uptime never decreases. -/
theorem uptime_mono {before : List ℕ} {c c' : System κ} {es : List (ℕ × Event κ)}
    (hne : ∀ a ∈ es, a.2 ≠ .tryBegin) (h : Delaying before c)
    (hr : run (fire step) c es = some c') :
    c.shared.service.uptimeNs ≤ c'.shared.service.uptimeNs := by
  suffices hkeep : PreservesWhen (fire (step (κ := κ))) (fun _ a => a.2 ≠ .tryBegin) (fun d =>
      Delaying before d ∧ c.shared.service.uptimeNs ≤ d.shared.service.uptimeNs) from
    (hkeep.run (.of_forall hne) hr ⟨h, le_rfl⟩).2
  rintro d a d' hstep_ne hstep ⟨hd, hle⟩
  refine ⟨delaying_step before hstep_ne hstep hd, hle.trans ?_⟩
  obtain ⟨s', st', hp, rfl⟩ := fire_eq_some.mp hstep
  have hmove := delayMove_of_effect (effect_of_step hp) hd.consistent.ledger.table
    hd.targets.manual hd.running.1 fun r hr => (hd.targets.target r (hd.targets.unsettled _ r hr)).2
  cases hmove with
  | begin r hs hstart htarget hduration howed hset huns hbegun hret =>
    simp [hs, Service.uptimeNs, Publication.read, hd.targets.manual]
  | same hclock _ _ _ _ => exact hclock.uptime_le
  | settle r hclock _ _ _ _ _ _ => exact hclock.uptime_le
  | finish r hclock _ _ _ _ => exact hclock.uptime_le

/-- An outermost or nested delay returns only after its target has been reached. -/
theorem Delaying.returned {before : List ℕ} {c : System κ} (h : Delaying before c)
    {d : DelayRecord} (hd : d ∈ returnedDelays c.shared.history) :
    d.startNs + d.durationNs ≤ c.shared.service.uptimeNs := by
  obtain ⟨hbegun, hreach⟩ := h.targets.settled d (Or.inl hd)
  exact (h.targets.target d hbegun).1.trans hreach

theorem callbacks_le_owners (st : List (Frame κ)) : callbacks st ≤ owners st := by
  refine List.countP_mono_left fun f _ hf => ?_
  cases f with
  | pump c phase => rfl
  | _ => cases hf

/-- No thread is inside a delay. -/
def Resting (c : System κ) : Prop :=
  ∀ t, unsettledIn (c.thread t) = [] ∧ settledIn (c.thread t) = []

/-- What holds of every run of concurrent delays. -/
structure ClockContract (origin : Service κ) (es : List (ℕ × Event κ)) (c : System κ) : Prop where
  one_callback : ∀ t, callbacks (c.thread t) ≤ 1
  one_thread : ∀ t u, 0 < callbacks (c.thread t) → 0 < callbacks (c.thread u) → t = u
  monotone : ∀ fs c', (∀ a ∈ fs, a.2 ≠ .tryBegin) → run (fire step) c fs = some c' →
    c.shared.service.uptimeNs ≤ c'.shared.service.uptimeNs
  completed : ∀ d ∈ returnedDelays c.shared.history,
    d.startNs + d.durationNs ≤ c.shared.service.uptimeNs
  total : (∀ a ∈ es, ∀ ns, a.2 ≠ .lag ns) → Resting c → c.shared.service.uptimeNs =
    origin.uptimeNs + ((begunDelays c.shared.history).map DelayRecord.durationNs).sum

/-- Without an active pump, every alarm that a returned delay owed is delivered or cancelled. -/
def NoneStranded (c : System κ) : Prop :=
  c.shared.service.deliveryActive = false → ∀ d ∈ returnedDelays c.shared.history, ∀ id ∈ d.owed,
    id ∈ invokedIds c.shared.history ∨ id ∈ cancelledIds c.shared.history

theorem noneStranded_of_covered {before : List ℕ} {c : System κ} (h : Delaying before c)
    (hcov : Covered c) : NoneStranded c := by
  intro hinactive d hd id hid
  have hfree : ∀ t, owners (c.thread t) = 0 := by
    have hheld := h.consistent.ownership.held
    rw [hinactive] at hheld
    exact hheld
  have hpending : id ∉ ids c.shared.service := by
    intro hmem
    obtain ⟨e, he, rfl⟩ := List.mem_map.mp hmem
    rcases hcov d (Or.inl hd) with ⟨t, hscan⟩ | hnone
    · obtain ⟨f, hf, hs⟩ := List.any_eq_true.mp hscan
      have howns : f.owns = true := by cases f <;> first | rfl | cases hs
      exact absurd (hfree t) (List.countP_pos_iff.mpr ⟨f, hf, howns⟩).ne'
    · exact hnone e he hid
  have hknown := h.debts.known d (h.targets.settled d (Or.inl hd)).1 id hid
  have hplace := h.consistent.ledger.balance.mem_iff.mpr hknown
  simp only [h.running.2, List.append_nil, List.mem_append, hpending, false_or] at hplace
  refine hplace.imp_left fun hclaimed => ?_
  rcases h.consistent.invocations.covered id hclaimed with hv | ⟨t, ht⟩
  · exact hv
  · rw [invoking_eq_nil (hfree t)] at ht
    cases ht

/-- Delays, lags, pumps and registrations in any order keep the clock contract, and they
strand no alarm when every delay publishes its target in time. -/
theorem delays_contract {s : Service κ} (hidle : Idle s) {es : List (ℕ × Event κ)} {c : System κ}
    (hr : run (fire step) (start s) es = some c) (hne : ∀ a ∈ es, a.2 ≠ .tryBegin) :
    ClockContract s es c ∧
      (Meets (fire step) PublishesInTime (start s) es → NoneStranded c) := by
  have h := (delaying_step (ids s)).run (.of_forall hne) hr (delaying_start hidle)
  have hheld := h.consistent.ownership.held
  refine ⟨⟨fun t => (callbacks_le_owners _).trans (hheld.count_le_one t),
    fun t u ht hu => hheld.eq_of_pos (ht.trans_le (callbacks_le_owners _))
      (hu.trans_le (callbacks_le_owners _)),
    fun fs c' hfs hrun => uptime_mono hfs h hrun, fun d hd => h.returned hd,
    fun hlag hrest => ?_⟩, fun hmeets => ?_⟩
  · have hstart : Total s.uptimeNs (start s) := by
      simp [Total, start, begunDelays, max_eq_left hidle.reserved_le]
    have htotal := ((total_run_step (ids s) s.uptimeNs).run
      ((Meets.of_forall hne).and (.of_forall hlag)) hr ⟨delaying_start hidle, hstart⟩).2
    rcases h.targets.last with hlast | ⟨t, d, hd, -⟩
    · exact (max_eq_left hlast).symm.trans htotal
    · rw [(hrest t).1] at hd
      cases hd
  · have hcov := (covered_step (ids s)).run ((Meets.of_forall hne).and hmeets) hr
      ⟨delaying_start hidle, covered_start s⟩
    exact noneStranded_of_covered h hcov.2

/-- Two delays that overlap: the second publishes its target to the pump of the first while
that still looks for work, and the pump delivers the alarm that the second owes. -/
def overlappingDelays : List (ℕ × Event Unit) :=
  [(1, .schedule 30 ()), (1, .resume), (1, .resume), (1, .delay 10), (1, .resume),
    (2, .delay 40), (2, .resume), (2, .resume), (1, .resume), (1, .resume), (1, .resume),
    (1, .resume), (1, .resume), (1, .resume), (1, .resume), (1, .resume), (1, .resume),
    (1, .resume)]

/-- The owner has decided to stop. -/
def Frame.stopping : Frame κ → Bool
  | .pump _ .release => true
  | _ => false

/-- One of the two threads acts, and when it is about to rely on an owner, neither of
them has decided to stop. -/
def reliesInTime (c : System κ) (a : ℕ × Event κ) : Bool :=
  (a.1 == 1 || a.1 == 2) &&
    match c.thread a.1 with
    | .enter (.delay _) :: _ =>
      !(c.thread 1).any Frame.stopping && !(c.thread 2).any Frame.stopping
    | _ => true

theorem publishesInTime_of_relies {c : System κ} {a : ℕ × Event κ}
    (hothers : ∀ t, t ≠ 1 → t ≠ 2 → (c.thread t).any Frame.stopping = false)
    (h : reliesInTime c a = true) : PublishesInTime c a := by
  rintro - d rest henter ⟨t, caller, hrelease⟩
  have hstops : (c.thread t).any Frame.stopping = true :=
    List.any_eq_true.mpr ⟨_, hrelease, rfl⟩
  simp only [reliesInTime, henter, Bool.and_eq_true, Bool.not_eq_true'] at h
  by_cases hone : t = 1
  · rw [hone, h.2.1] at hstops
    cases hstops
  by_cases htwo : t = 2
  · rw [htwo, h.2.2] at hstops
    cases hstops
  · rw [hothers t hone htwo] at hstops
    cases hstops

theorem overlappingDelays_inTime :
    Meets (fire step) PublishesInTime (start (initial false 0)) overlappingDelays := by
  have hcheck : check (fire step) reliesInTime (start (initial false 0)) overlappingDelays = true := by
    decide
  refine Meets.of_check
    (I := fun c => ∀ t, t ≠ 1 → t ≠ 2 → (c.thread t).any Frame.stopping = false)
    (fun c a c' hothers htest hstep t hone htwo => ?_)
    (fun c a hothers htest => publishesInTime_of_relies hothers htest) (fun t _ _ => ?_) hcheck
  · obtain ⟨s', st', -, rfl⟩ := fire_eq_some.mp hstep
    rw [reliesInTime, Bool.and_eq_true, Bool.or_eq_true, beq_iff_eq, beq_iff_eq] at htest
    have hne : t ≠ a.1 := by
      rintro rfl
      exact htest.1.elim hone htwo
    simpa [Function.update_of_ne hne] using hothers t hone htwo
  · by_cases ht : t = 0 <;> simp [start, ht, Frame.stopping]

/-- The alarm at 30 µs is pending while the second delay runs, and delivered when both are over. -/
theorem delays_contract_overlapping :
    ∃ c, run (fire step) (start (initial false 0)) overlappingDelays = some c ∧
      (⟨0, 40000, 50000, [1]⟩ : DelayRecord) ∈ returnedDelays c.shared.history ∧
      c.shared.service.deliveryActive = false ∧ invokedIds c.shared.history = [1] ∧
      ClockContract (initial false 0) overlappingDelays c ∧ NoneStranded c := by
  have h := @delays_contract Unit _ (idle_initial 0) overlappingDelays _ rfl (by decide)
  exact ⟨_, rfl, by decide, rfl, rfl, h.1, h.2 overlappingDelays_inTime⟩

/-- The first delay has seen nothing due up to 10 µs; before it gives the delivery up, a
second one publishes 50 µs to it and returns. -/
def lateTarget : List (ℕ × Event Unit) :=
  [(1, .schedule 30 ()), (1, .resume), (1, .resume), (1, .delay 10), (1, .resume), (1, .resume),
    (2, .delay 40), (2, .resume), (2, .resume), (1, .resume), (1, .resume), (1, .resume),
    (1, .resume)]

/-- The alarm at 30 µs is stranded at 50 µs, with every call returned and no pump active. -/
theorem delays_strand_alarm_lateTarget :
    ∃ c, run (fire step) (start (initial false 0)) lateTarget = some c ∧
      c.thread 1 = [] ∧ c.thread 2 = [] ∧ c.shared.service.uptimeNs = 50000 ∧
        ids c.shared.service = [1] ∧ ¬ NoneStranded c := by
  refine ⟨_, rfl, rfl, rfl, rfl, rfl, fun h => ?_⟩
  have hlost := h rfl ⟨10000, 40000, 50000, [1]⟩ (by decide) 1 (by decide)
  exact absurd hlost (by decide)

end Runs

end RooTesting.AlarmThreads
