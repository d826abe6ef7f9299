import RooTesting.AlarmAccounts

/-! # When a delay delivers on time

In manual time a turn of the delivery loop finds an alarm overdue, delivers one at
its instant, or finds nothing due up to the target. Only the first case breaks the
contract of the delay, and it is exactly the case in which the code's loop differs
from the chronological one. -/
namespace RooTesting.AlarmDelay
open OrderedTables AlarmService AlarmTable

variable {κ ω : Type}

/-- The service with its published uptime at an instant. -/
def atUptime (t : ℤ) (s : Service κ) : Service κ := { s with clock := { s.clock with uptimeNs := t } }

theorem publishAtLeast_eq {t : ℤ} {s : Service κ} (h : s.uptimeNs ≤ t) :
    s.publishAtLeast t = atUptime t s := by
  simp [Service.publishAtLeast, Publication.publishAtLeast, atUptime, max_eq_right h]

theorem atUptime_self (s : Service κ) : atUptime s.uptimeNs s = s := rfl

theorem read_manual {s : Service κ} (h : s.clock.autoSync = false) : s.read = s := by
  simp [Service.read, Publication.read, h]

theorem read_atUptime {s : Service κ} (h : s.clock.autoSync = false) (t : ℤ) :
    (atUptime t s).read = atUptime t s :=
  read_manual h

theorem TableOk_atUptime {t : ℤ} {s : Service κ} (h : TableOk s) : TableOk (atUptime t s) :=
  h.congr rfl rfl rfl rfl

/-- What the locked section of a turn can do. -/
inductive ClaimCase (limitNs : ℤ) (s : Service κ) :
    Option (Option (ℤ × AlarmNode κ) × Service κ) → Prop where
  | late {first rest} (hs : s.alarms = first :: rest) (hshort : s.uptimeNs < limitNs)
      (hdue : first.1 * kNanosPerMicrosecond ≤ s.uptimeNs) :
      ClaimCase limitNs s (some (some first, eraseId first.2.id (atUptime limitNs s)))
  | onTime {first rest} (hs : s.alarms = first :: rest)
      (hle : first.1 * kNanosPerMicrosecond ≤ limitNs) (hp : Punctual limitNs s) :
      ClaimCase limitNs s (some (some first, eraseId first.2.id
        (atUptime (max s.uptimeNs (first.1 * kNanosPerMicrosecond)) s)))
  | idle (h : ∀ e ∈ s.alarms, limitNs < e.1 * kNanosPerMicrosecond) :
      ClaimCase limitNs s (some (none, atUptime limitNs s))

theorem first_minimal {s : Service κ} (h : TableOk s) {first : ℤ × AlarmNode κ}
    {rest : List (ℤ × AlarmNode κ)} (hs : s.alarms = first :: rest) :
    ∀ e ∈ s.alarms, first.1 * kNanosPerMicrosecond ≤ e.1 * kNanosPerMicrosecond := by
  intro e he
  have hle : first.1 ≤ e.1 := by
    by_cases hid : e.2.id = first.2.id
    · rw [h.eq_of_id he (by simp [hs]) hid]
    · exact (h.first_le hs he hid).elim le_of_lt fun hh => hh.1.le
  exact Int.mul_le_mul_of_nonneg_right hle (by decide)

theorem popDue_of_due {s : Service κ} (h : TableOk s) {first : ℤ × AlarmNode κ}
    {rest : List (ℤ × AlarmNode κ)} (hs : s.alarms = first :: rest)
    (hdue : first.1 * kNanosPerMicrosecond ≤ s.uptimeNs) :
    s.popDue = some (some first, eraseId first.2.id s) := by
  rcases h.popDue_cases with ⟨-, hnone⟩ | ⟨first', rest', hs', -, hpop⟩
  · exact absurd (hnone first (by simp [hs])) (not_lt.mpr hdue)
  · obtain ⟨rfl, rfl⟩ := List.cons.inj (hs.symm.trans hs')
    exact hpop

theorem popDue_of_none {s : Service κ} (h : TableOk s)
    (hnone : ∀ e ∈ s.alarms, s.uptimeNs < e.1 * kNanosPerMicrosecond) :
    s.popDue = some (none, s) := by
  rcases h.popDue_cases with ⟨hpop, -⟩ | ⟨first, rest, hs, hdue, -⟩
  · exact hpop
  · exact absurd (hnone first (by simp [hs])) (not_lt.mpr hdue)

/-- The advance inside a turn, by what the queue holds. -/
theorem advanceTowards_cases {limitNs : ℤ} {s : Service κ} (h : TableOk s)
    (hlt : s.uptimeNs < limitNs) :
    (∃ first rest, s.alarms = first :: rest ∧ s.uptimeNs < first.1 * kNanosPerMicrosecond ∧
      first.1 * kNanosPerMicrosecond ≤ limitNs ∧
      s.advanceTowards limitNs = some (atUptime (first.1 * kNanosPerMicrosecond) s)) ∨
    (s.advanceTowards limitNs = some (atUptime limitNs s) ∧
      ((∃ first rest, s.alarms = first :: rest ∧ first.1 * kNanosPerMicrosecond ≤ s.uptimeNs) ∨
        ∀ e ∈ s.alarms, limitNs < e.1 * kNanosPerMicrosecond)) := by
  unfold Service.advanceTowards
  cases hs : s.alarms with
  | nil => exact Or.inr ⟨by rw [publishAtLeast_eq hlt.le], Or.inr (by simp)⟩
  | cons first rest =>
    simp only [h.toNanos (e := first) (by simp [hs]), Option.map_some]
    by_cases hahead : s.uptimeNs < first.1 * kNanosPerMicrosecond
    · by_cases hle : first.1 * kNanosPerMicrosecond ≤ limitNs
      · refine Or.inl ⟨first, rest, rfl, hahead, hle, ?_⟩
        simp only [hahead, hle, and_self, if_true, publishAtLeast_eq hahead.le]
      · refine Or.inr ⟨?_, Or.inr fun e he => ?_⟩
        · simp only [hle, and_false, if_false, publishAtLeast_eq hlt.le]
        · exact (not_le.mp hle).trans_le (first_minimal h hs e (hs ▸ he))
    · refine Or.inr ⟨?_, Or.inl ⟨first, rest, rfl, not_lt.mp hahead⟩⟩
      simp only [hahead, false_and, if_false, publishAtLeast_eq hlt.le]

theorem claimDue_cases {limitNs : ℤ} {s : Service κ} (h : TableOk s)
    (hm : s.clock.autoSync = false) (hle : s.uptimeNs ≤ limitNs) :
    ClaimCase limitNs s (s.claimDue limitNs true) := by
  unfold Service.claimDue
  simp only [read_manual hm, true_and]
  by_cases hlt : s.uptimeNs < limitNs
  · rw [if_pos hlt]
    rcases advanceTowards_cases h hlt with ⟨first, rest, hs, hahead, hdl, hadv⟩ | ⟨hadv, hcase⟩
    · have hp : Punctual limitNs s := fun _ e he => hahead.trans_le (first_minimal h hs e he)
      have hpop := popDue_of_due (s := atUptime (first.1 * kNanosPerMicrosecond) s)
        (TableOk_atUptime h) hs le_rfl
      simp only [hadv, Option.bind_some, read_atUptime hm, hpop]
      simpa [max_eq_right hahead.le] using ClaimCase.onTime hs hdl hp
    · simp only [hadv, Option.bind_some, read_atUptime hm]
      rcases hcase with ⟨first, rest, hs, hdue⟩ | hnone
      · rw [popDue_of_due (s := atUptime limitNs s) (TableOk_atUptime h) hs (hdue.trans hlt.le)]
        exact .late hs hlt hdue
      · rw [popDue_of_none (s := atUptime limitNs s) (TableOk_atUptime h) hnone]
        exact .idle hnone
  · have heq : s.uptimeNs = limitNs := le_antisymm hle (not_lt.mp hlt)
    rw [if_neg hlt]
    rcases h.popDue_cases with ⟨hpop, hnone⟩ | ⟨first, rest, hs, hdue, hpop⟩
    · have hidle := ClaimCase.idle (heq ▸ hnone)
      rw [← heq, atUptime_self] at hidle
      rw [hpop, ← heq]
      exact hidle
    · have hon := ClaimCase.onTime hs (hdue.trans hle) fun hh => absurd hh hlt
      rw [max_eq_left hdue, atUptime_self] at hon
      rw [hpop]
      exact hon

/-- Without an overdue alarm the code's section is the chronological one. -/
theorem claimDue_eq_chronological {limitNs : ℤ} {s : Service κ} (h : TableOk s)
    (hm : s.clock.autoSync = false) (hp : Punctual limitNs s) :
    s.claimDue limitNs true = claimChronological limitNs s := by
  unfold Service.claimDue claimChronological
  simp only [read_manual hm, true_and]
  by_cases hlt : s.uptimeNs < limitNs
  · rw [if_pos hlt, if_pos ⟨hp hlt, hlt⟩]
    rcases advanceTowards_cases h hlt with ⟨first, rest, -, -, -, hadv⟩ | ⟨hadv, -⟩ <;>
      simp [hadv, read_atUptime hm]
  · rw [if_neg hlt, if_neg (fun hh => hlt hh.2)]

/-- Whatever a registration and a cancellation keep, a callback body keeps. -/
theorem runScript_keeps {I : Run κ ω → Prop} (hworld : ∀ r world, I r → I { r with world := world })
    (hreg : ∀ r deadlineUs callback id s,
      r.service.scheduleSystemTimeAlarm deadlineUs callback = some (id, s) → I r →
        I (r.record (.registered ⟨id, deadlineUs, r.service.uptimeNs⟩) s))
    (hcancel : ∀ r id s, r.service.cancelSystemTimeAlarm id = (true, s) → I r →
      I (r.record (.cancelled id) s)) (script : Script κ ω) (r : Run κ ω) (h : I r) :
    I (runScript script r).2 := by
  induction script generalizing r with
  | done world => exact hworld r world h
  | schedule deadlineUs callback next ih =>
    cases hs : r.service.scheduleSystemTimeAlarm deadlineUs callback with
    | none => simpa [runScript, hs] using h
    | some p =>
      obtain ⟨id, s⟩ := p
      simpa [runScript, hs] using ih id _ (hreg r deadlineUs callback id s hs h)
  | cancel id next ih =>
    cases hs : r.service.cancelSystemTimeAlarm id with
    | mk found s =>
      cases found with
      | false => simpa [runScript, hs] using ih r h
      | true => simpa [runScript, hs] using ih _ (hcancel r id s hs h)
  | getMicros next ih => simpa [runScript] using ih _ r h

/-- What holds of the run before every turn, on time or not. -/
structure LoopInvariant (start : Service κ) (limitNs : ℤ) (r : Run κ ω) : Prop where
  accounts : Accounts start r.log r.service
  manual : r.service.clock.autoSync = false
  uptime_le : r.service.uptimeNs ≤ limitNs
  since_le : ∀ k ∈ known start r.log, k.sinceNs ≤ r.service.uptimeNs
  due : ∀ d ∈ deliveries r.log, d.deadlineUs * kNanosPerMicrosecond ≤ limitNs

/-- No delivery so far was late. -/
def OnTime (start : Service κ) (log : List LogEntry) : Prop :=
  ∀ d ∈ deliveries log, ∃ k ∈ known start log, k.id = d.id ∧ k.deadlineUs = d.deadlineUs ∧
    d.observedNs = max k.sinceNs (k.deadlineUs * kNanosPerMicrosecond)

/-- No outstanding alarm has been passed over. -/
def Fresh (start : Service κ) (r : Run κ ω) : Prop :=
  ∀ k ∈ outstanding start r.log,
    r.service.uptimeNs ≤ max k.sinceNs (k.deadlineUs * kNanosPerMicrosecond)

section Steps

variable {start : Service κ} {limitNs : ℤ} {r : Run κ ω}

theorem LoopInvariant.register (h : LoopInvariant start limitNs r) {deadlineUs : ℤ} {callback : κ}
    {id : ℕ} {s : Service κ}
    (hs : r.service.scheduleSystemTimeAlarm deadlineUs callback = some (id, s)) :
    LoopInvariant start limitNs
      (r.record (.registered ⟨id, deadlineUs, r.service.uptimeNs⟩) s) := by
  obtain ⟨hd, -, h0, rfl, rfl⟩ := schedule_eq_some.mp hs
  refine ⟨h.accounts.register callback hd h0, h.manual, h.uptime_le, ?_, ?_⟩
  · intro k hk
    simp only [Run.record, known_append, registrations_singleton, List.mem_append,
      List.mem_singleton] at hk
    rcases hk with hk | rfl
    · exact h.since_le k hk
    · exact le_rfl
  · simpa [Run.record] using h.due

theorem LoopInvariant.cancel (h : LoopInvariant start limitNs r) {id : ℕ} {s : Service κ}
    (hs : r.service.cancelSystemTimeAlarm id = (true, s)) :
    id ∈ ids r.service ∧ s = eraseId id r.service ∧
      LoopInvariant start limitNs (r.record (.cancelled id) s) := by
  rcases h.accounts.table.cancel_cases id with ⟨-, hf⟩ | ⟨hid, hf⟩
  · simp [hf] at hs
  · obtain rfl : eraseId id r.service = s := by simpa [hf] using hs
    refine ⟨hid, rfl, h.accounts.cancel hid, h.manual, h.uptime_le, ?_, ?_⟩
    · exact fun k hk => h.since_le k (by simpa [Run.record, known_append] using hk)
    · simpa [Run.record] using h.due

theorem LoopInvariant.script (h : LoopInvariant start limitNs r) (script : Script κ ω) :
    LoopInvariant start limitNs (runScript script r).2 :=
  runScript_keeps (I := LoopInvariant start limitNs)
    (fun _ _ h => ⟨h.accounts, h.manual, h.uptime_le, h.since_le, h.due⟩)
    (fun _ _ _ _ _ hs h => h.register hs) (fun _ _ _ hs h => (h.cancel hs).2.2) script r h

/-- A callback body delivers nothing itself. -/
theorem deliveries_script (script : Script κ ω) (r : Run κ ω) :
    deliveries (runScript script r).2.log = deliveries r.log :=
  runScript_keeps (I := fun r' => deliveries r'.log = deliveries r.log) (fun _ _ h => h)
    (fun _ _ _ _ _ _ h => by simpa [Run.record] using h)
    (fun _ _ _ _ h => by simpa [Run.record] using h) script r rfl

theorem log_script (script : Script κ ω) (r : Run κ ω) :
    r.log <+: (runScript script r).2.log :=
  runScript_keeps (I := fun r' => r.log <+: r'.log) (fun _ _ h => h)
    (fun _ _ _ _ _ _ h => h.trans (List.prefix_append _ _))
    (fun _ _ _ _ h => h.trans (List.prefix_append _ _)) script r (List.prefix_refl _)

/-- A callback body passes over no alarm: the clock stands still while it runs. -/
theorem Fresh.script (h : LoopInvariant start limitNs r) (hf : Fresh start r)
    (script : Script κ ω) : Fresh start (runScript script r).2 := by
  refine (runScript_keeps (I := fun r' => LoopInvariant start limitNs r' ∧ Fresh start r')
    (fun _ _ h => ⟨⟨h.1.accounts, h.1.manual, h.1.uptime_le, h.1.since_le, h.1.due⟩, h.2⟩)
    ?_ ?_ script r ⟨h, hf⟩).2
  · rintro r deadlineUs callback id s hs ⟨hinv, hfresh⟩
    refine ⟨hinv.register hs, ?_⟩
    obtain ⟨-, -, -, rfl, rfl⟩ := schedule_eq_some.mp hs
    intro k hk
    have hk' := mem_outstanding.mp hk
    simp only [Run.record, known_append, registrations_singleton, deliveredIds_append,
      deliveredIds_singleton, cancelledIds_append, cancelledIds_singleton, List.append_nil,
      List.mem_append, List.mem_singleton] at hk'
    rcases hk' with ⟨hk' | rfl, hrest⟩
    · exact hfresh k (mem_outstanding.mpr ⟨hk', hrest⟩)
    · exact le_max_left _ _
  · rintro r id s hs ⟨hinv, hfresh⟩
    obtain ⟨-, rfl, hinv'⟩ := hinv.cancel hs
    exact ⟨hinv', fun k hk => hfresh k (mem_outstanding_cancelled.mp hk).1⟩

theorem OnTime.mono {log log' : List LogEntry} (h : OnTime start log) (hp : log <+: log')
    (hd : deliveries log' = deliveries log) : OnTime start log' := by
  intro d hmem
  obtain ⟨k, hk, hrest⟩ := h d (hd ▸ hmem)
  exact ⟨k, known_mono hp hk, hrest⟩

/-- The run in which the first alarm has just been claimed at an instant. -/
def claimed (r : Run κ ω) (first : ℤ × AlarmNode κ) (t : ℤ) : Run κ ω :=
  r.record (.delivered ⟨first.2.id, first.1, t⟩) (eraseId first.2.id (atUptime t r.service))

theorem LoopInvariant.claim (h : LoopInvariant start limitNs r) {first : ℤ × AlarmNode κ}
    {rest : List (ℤ × AlarmNode κ)} (hs : r.service.alarms = first :: rest) {t : ℤ}
    (hut : r.service.uptimeNs ≤ t) (ht : t ≤ limitNs)
    (hdue : first.1 * kNanosPerMicrosecond ≤ limitNs) :
    LoopInvariant start limitNs (claimed r first t) := by
  refine ⟨(h.accounts.clock { r.service.clock with uptimeNs := t }).deliver hs t, h.manual, ht,
    ?_, ?_⟩
  · intro k hk
    exact (h.since_le k (by simpa [claimed, Run.record, known_append] using hk)).trans hut
  · intro d hd
    simp only [claimed, Run.record, deliveries_append, deliveries_singleton, List.mem_append,
      List.mem_singleton] at hd
    rcases hd with hd | rfl
    · exact h.due d hd
    · exact hdue

/-- A turn of the code's loop: a delivery and its callback, or the end. -/
theorem turn_cases (body : κ → ω → Script κ ω) (h : LoopInvariant start limitNs r) :
    (∃ first rest t, r.service.alarms = first :: rest ∧ r.service.uptimeNs ≤ t ∧ t ≤ limitNs ∧
      first.1 * kNanosPerMicrosecond ≤ limitNs ∧
      (t = max r.service.uptimeNs (first.1 * kNanosPerMicrosecond) ∧ Punctual limitNs r.service ∨
        t = limitNs ∧ ¬ Punctual limitNs r.service) ∧
      ∃ ok : Bool, turn (Service.claimDue limitNs true) body r =
        (if ok then .running else .aborted,
          (runScript (body first.2.callback r.world) (claimed r first t)).2)) ∨
    ((∀ e ∈ r.service.alarms, limitNs < e.1 * kNanosPerMicrosecond) ∧
      turn (Service.claimDue limitNs true) body r = (.finished,
        { r with service := (atUptime limitNs r.service).releaseDeliveryOwnership })) := by
  have hcase := claimDue_cases h.accounts.table h.manual h.uptime_le
  generalize hc : r.service.claimDue limitNs true = c at hcase
  cases hcase with
  | @late first rest hs hshort hdue =>
    refine Or.inl ⟨first, rest, limitNs, hs, hshort.le, le_rfl, hdue.trans hshort.le,
      Or.inr ⟨rfl, fun hp => ?_⟩, _, by simp only [turn, hc]; rfl⟩
    exact absurd (hp hshort first (by simp [hs])) (not_lt.mpr hdue)
  | @onTime first rest hs hle hp =>
    exact Or.inl ⟨first, rest, _, hs, le_max_left _ _, max_le h.uptime_le hle, hle,
      Or.inl ⟨rfl, hp⟩, _, by simp only [turn, hc]; rfl⟩
  | idle hnone => exact Or.inr ⟨hnone, by simp only [turn, hc]⟩

theorem loopInvariant_turn (h : LoopInvariant start limitNs r) (body : κ → ω → Script κ ω) :
    LoopInvariant start limitNs (turn (Service.claimDue limitNs true) body r).2 := by
  rcases turn_cases body h with ⟨first, rest, t, hs, hut, ht, hdue, -, ok, hturn⟩ | ⟨-, hturn⟩
  · rw [hturn]
    exact (h.claim hs hut ht hdue).script _
  · rw [hturn]
    exact ⟨(h.accounts.clock _).released, h.manual, le_rfl,
      fun k hk => (h.since_le k hk).trans h.uptime_le, h.due⟩

/-- A punctual turn delivers at the alarm's instant and passes over nothing. -/
theorem onTime_turn (h : LoopInvariant start limitNs r) (hf : Fresh start r)
    (ho : OnTime start r.log) (hp : Punctual limitNs r.service) (body : κ → ω → Script κ ω) :
    OnTime start (turn (Service.claimDue limitNs true) body r).2.log ∧
      ((turn (Service.claimDue limitNs true) body r).1 ≠ .finished →
        Fresh start (turn (Service.claimDue limitNs true) body r).2) := by
  rcases turn_cases body h with ⟨first, rest, t, hs, hut, ht, hdue, ht', ok, hturn⟩ | ⟨-, hturn⟩
  · obtain rfl : t = max r.service.uptimeNs (first.1 * kNanosPerMicrosecond) := by
      rcases ht' with ⟨rfl, -⟩ | ⟨-, hnp⟩
      · rfl
      · exact absurd hp hnp
    have hclaim := h.claim hs hut ht hdue
    have hfresh : Fresh start (claimed r first
        (max r.service.uptimeNs (first.1 * kNanosPerMicrosecond))) := by
      intro k hk
      have hk' := (mem_outstanding_delivered.mp hk).1
      obtain ⟨e, he, -, hedl⟩ := h.accounts.mem_of_outstanding hk'
      refine max_le (hf k hk') (le_max_of_le_right ?_)
      rw [← hedl]
      exact first_minimal h.accounts.table hs e he
    have hon : OnTime start (claimed r first
        (max r.service.uptimeNs (first.1 * kNanosPerMicrosecond))).log := by
      intro d hd
      simp only [claimed, Run.record, deliveries_append, deliveries_singleton, List.mem_append,
        List.mem_singleton] at hd
      rcases hd with hd | rfl
      · obtain ⟨k, hk, hrest⟩ := ho d hd
        exact ⟨k, by simp [claimed, Run.record, known_append, hk], hrest⟩
      · obtain ⟨k, hk, hkid, hkdl⟩ := h.accounts.outstanding_of_mem (e := first) (by simp [hs])
        have hk' := (mem_outstanding.mp hk).1
        refine ⟨k, by simp [claimed, Run.record, known_append, hk'], hkid, hkdl, ?_⟩
        have hge := hf k hk
        have hsince := h.since_le k hk'
        rw [hkdl] at hge ⊢
        exact le_antisymm (max_le hge (le_max_right _ _)) (max_le_max_right _ hsince)
    rw [hturn]
    exact ⟨hon.mono (log_script _ _) (deliveries_script _ _), fun _ => hfresh.script hclaim _⟩
  · rw [hturn]
    exact ⟨ho, fun hne => absurd rfl hne⟩

/-- A late turn leaves a late delivery in the history. -/
theorem not_onTime_of_late (h : LoopInvariant start limitNs r)
    (hp : ¬ Punctual limitNs r.service) (body : κ → ω → Script κ ω) :
    ¬ OnTime start (turn (Service.claimDue limitNs true) body r).2.log := by
  obtain ⟨hshort, e, he, hlate⟩ : r.service.uptimeNs < limitNs ∧
      ∃ e ∈ r.service.alarms, e.1 * kNanosPerMicrosecond ≤ r.service.uptimeNs := by
    simpa [Punctual] using hp
  rcases turn_cases body h with ⟨first, rest, t, hs, -, -, hdue, ht', ok, hturn⟩ | ⟨hnone, -⟩
  · obtain rfl : t = limitNs := by
      rcases ht' with ⟨-, hp'⟩ | ⟨rfl, -⟩
      · exact absurd hp' hp
      · rfl
    have hfirst : first.1 * kNanosPerMicrosecond ≤ r.service.uptimeNs :=
      (first_minimal h.accounts.table hs e he).trans hlate
    have hinv := loopInvariant_turn h body
    intro hon
    rw [hturn] at hon hinv
    obtain ⟨k, hk, hkid, -⟩ := h.accounts.outstanding_of_mem (e := first) (by simp [hs])
    have hkr := (mem_outstanding.mp hk).1
    obtain ⟨j, hj, hjid, hjdl, hobs⟩ := hon ⟨first.2.id, first.1, t⟩ (by
      rw [deliveries_script]
      simp [claimed, Run.record])
    have hgrow : r.log <+: (runScript (body first.2.callback r.world) (claimed r first t)).2.log :=
      (List.prefix_append r.log [.delivered ⟨first.2.id, first.1, t⟩]).trans
        (log_script _ (claimed r first t))
    have hkj : k = j := hinv.accounts.eq_of_id (known_mono hgrow hkr) hj (hkid.trans hjid.symm)
    subst hkj
    have hsince := h.since_le k hkr
    simp only [hjdl] at hobs
    omega
  · exact absurd (hnone e he) (not_lt.mpr (hlate.trans hshort.le))

/-- The code's turn and the chronological turn agree on a punctual run. -/
theorem turn_eq_chronological (h : LoopInvariant start limitNs r) (hp : Punctual limitNs r.service)
    (body : κ → ω → Script κ ω) :
    turn (Service.claimDue limitNs true) body r = turn (claimChronological limitNs) body r := by
  simp only [turn, claimDue_eq_chronological h.accounts.table h.manual hp]

end Steps

section Loops

variable {start : Service κ} {limitNs : ℤ}

theorem turns_succ (f : Run κ ω → Status × Run κ ω) (n : ℕ) (r : Run κ ω) :
    turns f (n + 1) r = if (f r).1 = .running then turns f n (f r).2 else f r := by
  rw [turns]
  rcases hf : f r with ⟨status, r'⟩
  cases status <;> simp

/-- Loops that agree on every run they come through agree. -/
theorem turns_congr {f g : Run κ ω → Status × Run κ ω} {n : ℕ} {r : Run κ ω}
    (h : ∀ k < n, ∀ r', turns g k r = (.running, r') → f r' = g r') :
    turns f n r = turns g n r := by
  induction n generalizing r with
  | zero => rfl
  | succ n ih =>
    have h₀ : f r = g r := h 0 (Nat.succ_pos n) r rfl
    rw [turns_succ, turns_succ, h₀]
    split
    · rename_i hrun
      refine ih fun k hk r' hr' => h (k + 1) (Nat.succ_lt_succ hk) r' ?_
      rw [turns_succ, if_pos hrun, hr']
    · rfl

/-- One more turn at the end of a loop that is still running. -/
theorem turns_add_one {f : Run κ ω → Status × Run κ ω} {n : ℕ} {r r' : Run κ ω}
    (h : turns f n r = (.running, r')) : turns f (n + 1) r = f r' := by
  induction n generalizing r with
  | zero =>
    obtain rfl : r = r' := by simpa [turns] using h
    rw [turns_succ]
    split
    · rename_i hrun
      exact Prod.ext hrun.symm rfl
    · rfl
  | succ n ih =>
    rw [turns_succ] at h
    rw [turns_succ]
    split at h
    · rename_i hrun
      rw [if_pos hrun]
      exact ih h
    · rename_i hrun
      exact absurd (by rw [h]) hrun

variable (body : κ → ω → Script κ ω)

theorem loopInvariant_turns {r : Run κ ω} (h : LoopInvariant start limitNs r) (n : ℕ) :
    LoopInvariant start limitNs (turns (turn (Service.claimDue limitNs true) body) n r).2 := by
  induction n generalizing r with
  | zero => exact h
  | succ n ih =>
    rw [turns_succ]
    split
    · exact ih (loopInvariant_turn h body)
    · exact loopInvariant_turn h body

/-- Every turn that is not the last delivers one alarm. -/
theorem length_deliveries {r : Run κ ω} (h : LoopInvariant start limitNs r) (n : ℕ)
    (hrun : (turns (turn (Service.claimDue limitNs true) body) n r).1 = .running) :
    (deliveries (turns (turn (Service.claimDue limitNs true) body) n r).2.log).length =
      (deliveries r.log).length + n := by
  induction n generalizing r with
  | zero => rfl
  | succ n ih =>
    rw [turns_succ] at hrun ⊢
    split at hrun
    · rename_i hturn
      rw [if_pos hturn, ih (loopInvariant_turn h body) hrun]
      rcases turn_cases body h with ⟨first, rest, t, -, -, -, -, -, ok, heq⟩ | ⟨-, heq⟩
      · rw [heq, deliveries_script]
        simp [claimed, Run.record, Nat.add_assoc, Nat.add_comm]
      · simp [heq] at hturn
    · rename_i hturn
      exact absurd hrun hturn

/-- The loop ends at the target with nothing due. -/
theorem turns_finished {r : Run κ ω} (h : LoopInvariant start limitNs r) (n : ℕ)
    (hfin : (turns (turn (Service.claimDue limitNs true) body) n r).1 = .finished) :
    (turns (turn (Service.claimDue limitNs true) body) n r).2.service.uptimeNs = limitNs ∧
      ∀ e ∈ (turns (turn (Service.claimDue limitNs true) body) n r).2.service.alarms,
        limitNs < e.1 * kNanosPerMicrosecond := by
  induction n generalizing r with
  | zero => simp [AlarmDelay.turns] at hfin
  | succ n ih =>
    rw [turns_succ] at hfin ⊢
    split at hfin
    · rename_i hturn
      rw [if_pos hturn]
      exact ih (loopInvariant_turn h body) hfin
    · rename_i hturn
      rw [if_neg hturn]
      rcases turn_cases body h with ⟨first, rest, t, -, -, -, -, -, ok, heq⟩ | ⟨hnone, heq⟩
      · rw [heq] at hfin
        cases ok <;> simp at hfin
      · rw [heq]
        exact ⟨rfl, hnone⟩

/-- A loop through punctual runs only is on time. -/
theorem onTime_turns {r : Run κ ω} (h : LoopInvariant start limitNs r) (hf : Fresh start r)
    (ho : OnTime start r.log) (n : ℕ)
    (hp : ∀ k < n, ∀ r', turns (turn (Service.claimDue limitNs true) body) k r = (.running, r') →
      Punctual limitNs r'.service) :
    OnTime start (turns (turn (Service.claimDue limitNs true) body) n r).2.log := by
  induction n generalizing r with
  | zero => exact ho
  | succ n ih =>
    obtain ⟨ho', hf'⟩ := onTime_turn h hf ho (hp 0 (Nat.succ_pos n) r rfl) body
    rw [turns_succ]
    split
    · rename_i hturn
      refine ih (loopInvariant_turn h body) (hf' (by rw [hturn]; decide)) ho' fun k hk r' hr' => ?_
      refine hp (k + 1) (Nat.succ_lt_succ hk) r' ?_
      rw [turns_succ, if_pos hturn, hr']
    · exact ho'

end Loops

end RooTesting.AlarmDelay
