import RooTesting.AlarmPunctuality
import Mathlib.Data.List.Perm.Subperm

/-! # The contract of an outermost delay in manual time

Order, completeness and the final uptime hold of every delay. Its callbacks run on
time exactly when the chronological delivery of the same alarms never finds one
overdue before the target. -/
namespace RooTesting.AlarmDelay
open OrderedTables AlarmService AlarmTable

variable {κ ω : Type}

/-- A manual-time service between calls. -/
structure Idle (s : Service κ) : Prop where
  table : TableOk s
  manual : s.clock.autoSync = false
  running : s.state = .running
  inactive : s.deliveryActive = false
  uptime_nonneg : 0 ≤ s.uptimeNs
  reserved_le : s.reservedUptimeNs ≤ s.uptimeNs

theorem idle_initial (hostNowNs : ℤ) : Idle (initial (κ := κ) false hostNowNs) :=
  ⟨tableOk_initial _ _, rfl, rfl, rfl, le_rfl, le_rfl⟩

theorem Idle.schedule {s s' : Service κ} (h : Idle s) {deadlineUs : ℤ} {callback : κ} {id : ℕ}
    (hs : s.scheduleSystemTimeAlarm deadlineUs callback = some (id, s')) : Idle s' := by
  obtain ⟨hd, -, h0, -, rfl⟩ := schedule_eq_some.mp hs
  exact ⟨h.table.register callback hd h0, h.manual, h.running, h.inactive, h.uptime_nonneg,
    h.reserved_le⟩

theorem Idle.cancel {s : Service κ} (h : Idle s) (id : ℕ) :
    Idle (s.cancelSystemTimeAlarm id).2 := by
  rcases h.table.cancel_cases id with ⟨-, hf⟩ | ⟨-, hf⟩
  · simpa [hf] using h
  · rw [hf]
    exact ⟨h.table.eraseId id, h.manual, h.running, h.inactive, h.uptime_nonneg, h.reserved_le⟩

/-- The service once the delay to the target owns the delivery. -/
def pumping (targetNs : ℤ) (s : Service κ) : Service κ :=
  { s with reservedUptimeNs := targetNs, deliveryActive := true }

/-- The chronological delivery of the same alarms through the same callbacks. -/
def chronologicalTurns (body : κ → ω → Script κ ω) (k : ℕ) (targetNs : ℤ) (s : Service κ)
    (world : ω) : Status × Run κ ω :=
  turns (turn (claimChronological targetNs) body) k ⟨pumping targetNs s, world, []⟩

/-- A delay whose target is representable is its delivery loop. -/
theorem systemTimeDelayMicros_eq (body : κ → ω → Script κ ω) (n micros : ℕ) {s : Service κ}
    (world : ω) (h : Idle s) (hfit : micros * kNanosPerMicrosecond ≤ int64Max - s.uptimeNs) :
    systemTimeDelayMicros body n micros ⟨s, world, []⟩ =
      some (turns (turn (Service.claimDue (s.uptimeNs + micros * kNanosPerMicrosecond) true) body) n
        ⟨pumping (s.uptimeNs + micros * kNanosPerMicrosecond) s, world, []⟩) := by
  have hmicros : (micros : ℤ) ≤ int64Max.tdiv kNanosPerMicrosecond := by
    have h0 := h.uptime_nonneg
    have hmax : int64Max.tdiv kNanosPerMicrosecond = 9223372036854775 := by decide
    simp only [kNanosPerMicrosecond, int64Max] at hfit
    omega
  have hbase : max s.uptimeNs s.reservedUptimeNs = s.uptimeNs := max_eq_left h.reserved_le
  simp [systemTimeDelayMicros, microsToNanos, hmicros, Service.reserveDelayedUptimeNs, h.running,
    read_manual h.manual, hbase, hfit, deliverAlarmsThrough, Service.enterDelivery, h.inactive,
    pumping]

variable {s : Service κ} {targetNs : ℤ}

theorem loopInvariant_start (h : Idle s) (hle : s.uptimeNs ≤ targetNs) (world : ω) :
    LoopInvariant s targetNs (⟨pumping targetNs s, world, []⟩ : Run κ ω) := by
  have ha := accounts_start h.table
  refine ⟨⟨h.table.congr rfl rfl rfl rfl, ha.identified, ha.issued, ha.pending,
    ha.known_of_delivered, ha.known_of_cancelled, ha.once, ha.uncancelled, ha.ordered⟩,
    h.manual, hle, ?_, by simp [deliveries]⟩
  intro k hk
  simp only [known, registrations, List.filterMap_nil, List.append_nil, List.mem_map] at hk
  obtain ⟨e, -, rfl⟩ := hk
  exact le_rfl

theorem fresh_start (targetNs : ℤ) (s : Service κ) (world : ω) :
    Fresh s (⟨pumping targetNs s, world, []⟩ : Run κ ω) := by
  intro k hk
  have hk := (mem_outstanding.mp hk).1
  simp only [known, registrations, List.filterMap_nil, List.append_nil, List.mem_map] at hk
  obtain ⟨e, -, rfl⟩ := hk
  exact le_max_left _ _

/-- What the loop and its callbacks leave alone. -/
def Reserved (targetNs : ℤ) (r : Run κ ω) : Prop :=
  r.service.state = .running ∧ r.service.reservedUptimeNs = targetNs

theorem reserved_script (script : Script κ ω) {r : Run κ ω} (h : Reserved targetNs r) :
    Reserved targetNs (runScript script r).2 := by
  refine runScript_keeps (I := Reserved targetNs) (fun _ _ h => h) ?_ ?_ script r h
  · intro r deadlineUs callback id s hs hr
    obtain ⟨-, -, -, -, rfl⟩ := schedule_eq_some.mp hs
    exact hr
  · intro r id s hs hr
    unfold Service.cancelSystemTimeAlarm at hs
    split at hs
    · simp at hs
    · split at hs
      · simp at hs
      · obtain rfl := (Prod.mk.inj hs).2
        exact hr

theorem reserved_turns (body : κ → ω → Script κ ω) {start : Service κ} {r : Run κ ω}
    (h : LoopInvariant start targetNs r) (hr : Reserved targetNs r) (n : ℕ) :
    Reserved targetNs (turns (turn (Service.claimDue targetNs true) body) n r).2 ∧
      ((turns (turn (Service.claimDue targetNs true) body) n r).1 = .finished →
        (turns (turn (Service.claimDue targetNs true) body) n r).2.service.deliveryActive =
          false) := by
  induction n generalizing r with
  | zero => exact ⟨hr, fun hfin => by simp [turns] at hfin⟩
  | succ n ih =>
    have hnext := loopInvariant_turn h body
    rcases turn_cases body h with ⟨first, rest, t, -, -, -, -, -, ok, heq⟩ | ⟨-, heq⟩
    · have hstep : Reserved targetNs (turn (Service.claimDue targetNs true) body r).2 := by
        rw [heq]
        exact reserved_script _ hr
      rw [turns_succ]
      split
      · exact ih hnext hstep
      · refine ⟨hstep, fun hfin => ?_⟩
        rw [heq] at hfin
        cases ok <;> simp at hfin
    · rw [turns_succ, heq]
      exact ⟨hr, fun _ => rfl⟩

/-- A completed delay leaves a service on which the next call finds the same conditions. -/
theorem Idle.delay (body : κ → ω → Script κ ω) {n micros : ℕ} {world : ω} {r : Run κ ω}
    (h : Idle s) (hfit : micros * kNanosPerMicrosecond ≤ int64Max - s.uptimeNs)
    (hr : systemTimeDelayMicros body n micros ⟨s, world, []⟩ = some (.finished, r)) :
    Idle r.service := by
  rw [systemTimeDelayMicros_eq body n micros world h hfit] at hr
  have hle : s.uptimeNs ≤ s.uptimeNs + micros * kNanosPerMicrosecond := by
    simp [kNanosPerMicrosecond]
  have hstart := loopInvariant_start h hle world
  have hinv := loopInvariant_turns body hstart n
  have hend := turns_finished body hstart n (by rw [Option.some.inj hr])
  have hres := reserved_turns body hstart ⟨h.running, rfl⟩ n
  rw [Option.some.inj hr] at hinv hend hres
  exact ⟨hinv.accounts.table, hinv.manual, hres.1.1, hres.2 rfl,
    hend.1 ▸ h.uptime_nonneg.trans hle, (hres.1.2.trans hend.1.symm).le⟩

/-- A list of distinct ids of due alarms is no longer than the list of due alarms. -/
theorem length_deliveries_le {start : Service κ} {r : Run κ ω} (h : LoopInvariant start targetNs r) :
    (deliveries r.log).length ≤ ((known start r.log).filter fun k =>
      k.deadlineUs * kNanosPerMicrosecond ≤ targetNs).length := by
  have hsub : deliveredIds r.log ⊆ ((known start r.log).filter fun k =>
      k.deadlineUs * kNanosPerMicrosecond ≤ targetNs).map Registration.id := by
    intro id hid
    obtain ⟨d, hd, rfl⟩ := mem_deliveredIds.mp hid
    obtain ⟨k, hk, hkid, hkdl⟩ := h.accounts.known_of_delivered d hd
    refine List.mem_map.mpr ⟨k, List.mem_filter.mpr ⟨hk, ?_⟩, hkid⟩
    simpa [hkdl] using h.due d hd
  simpa [deliveredIds] using (h.accounts.once.subperm hsub).length_le

/-- Everything but punctuality holds of every delay. -/
theorem meetsContract_of_onTime (body : κ → ω → Script κ ω) (h : Idle s)
    (hle : s.uptimeNs ≤ targetNs) (world : ω) (n : ℕ)
    (hon : OnTime s (turns (turn (Service.claimDue targetNs true) body) n
      ⟨pumping targetNs s, world, []⟩).2.log) :
    MeetsContract s targetNs n
      (turns (turn (Service.claimDue targetNs true) body) n ⟨pumping targetNs s, world, []⟩).1
      (turns (turn (Service.claimDue targetNs true) body) n ⟨pumping targetNs s, world, []⟩).2 := by
  have hstart := loopInvariant_start h hle world
  have hinv := loopInvariant_turns body hstart n
  refine ⟨hinv.accounts.identified, hon, hinv.due, hinv.accounts.once, hinv.accounts.uncancelled,
    hinv.accounts.ordered, ?_, ?_, fun hfin => (turns_finished body hstart n hfin).1⟩
  · intro hrun
    have hlen := length_deliveries body hstart n hrun
    exact ((Nat.le_add_left n _).trans hlen.ge).trans (length_deliveries_le hinv)
  · intro hfin k hk hdue
    by_contra hnot
    rw [not_or] at hnot
    obtain ⟨e, he, -, hedl⟩ := hinv.accounts.mem_of_outstanding (mem_outstanding.mpr ⟨hk, hnot⟩)
    have := (turns_finished body hstart n hfin).2 e he
    rw [hedl] at this
    exact absurd hdue (not_le.mpr this)

/-- The code's loop is the chronological one as long as that one stays punctual. -/
theorem turns_eq_chronological (body : κ → ω → Script κ ω) (h : Idle s)
    (hle : s.uptimeNs ≤ targetNs) (world : ω) (n : ℕ)
    (hp : ∀ k < n, ∀ r, chronologicalTurns body k targetNs s world = (.running, r) →
      Punctual targetNs r.service) :
    turns (turn (Service.claimDue targetNs true) body) n ⟨pumping targetNs s, world, []⟩ =
      chronologicalTurns body n targetNs s world := by
  induction n using Nat.strong_induction_on with
  | _ n ih =>
    refine turns_congr fun k hk r' hr' => ?_
    have hsame := ih k hk fun j hj => hp j (hj.trans hk)
    have hinv := loopInvariant_turns body (loopInvariant_start h hle world) k
    rw [hsame] at hinv
    simp only [chronologicalTurns, hr'] at hinv
    exact turn_eq_chronological hinv (hp k hk r' hr') body

/-- A delay that is on time for every number of turns stays punctual. -/
theorem punctual_of_onTime (body : κ → ω → Script κ ω) (h : Idle s) (hle : s.uptimeNs ≤ targetNs)
    (world : ω)
    (hon : ∀ n, OnTime s (turns (turn (Service.claimDue targetNs true) body) n
      ⟨pumping targetNs s, world, []⟩).2.log) (k : ℕ) (r : Run κ ω)
    (hr : chronologicalTurns body k targetNs s world = (.running, r)) :
    Punctual targetNs r.service := by
  induction k using Nat.strong_induction_on generalizing r with
  | _ k ih =>
    have hsame := turns_eq_chronological body h hle world k ih
    rw [hr] at hsame
    have hinv := loopInvariant_turns body (loopInvariant_start h hle world) k
    rw [hsame] at hinv
    by_contra hlate
    have hnext := hon (k + 1)
    rw [turns_add_one hsame] at hnext
    exact not_onTime_of_late hinv hlate body hnext

/-- A delay meets its contract exactly when no alarm is ever overdue before the target. -/
theorem delay_meets_contract_iff (body : κ → ω → Script κ ω) (world : ω) (micros : ℕ) (h : Idle s)
    (hfit : micros * kNanosPerMicrosecond ≤ int64Max - s.uptimeNs) :
    (∀ n, ∃ status r, systemTimeDelayMicros body n micros ⟨s, world, []⟩ = some (status, r) ∧
        MeetsContract s (s.uptimeNs + micros * kNanosPerMicrosecond) n status r) ↔
      ∀ k r, chronologicalTurns body k (s.uptimeNs + micros * kNanosPerMicrosecond) s world =
        (.running, r) → Punctual (s.uptimeNs + micros * kNanosPerMicrosecond) r.service := by
  have hle : s.uptimeNs ≤ s.uptimeNs + micros * kNanosPerMicrosecond := by
    simp [kNanosPerMicrosecond]
  constructor
  · intro hall
    refine punctual_of_onTime body h hle world fun n => ?_
    obtain ⟨status, r, hrun, hmeets⟩ := hall n
    rw [systemTimeDelayMicros_eq body n micros world h hfit] at hrun
    rw [Option.some.inj hrun]
    exact hmeets.onTime
  · intro hp n
    refine ⟨_, _, systemTimeDelayMicros_eq body n micros world h hfit, ?_⟩
    refine meetsContract_of_onTime body h hle world n ?_
    refine onTime_turns body (loopInvariant_start h hle world) (fresh_start _ s world)
      (fun d hd => absurd hd (by simp [deliveries])) n fun k hk r hr => hp k r ?_
    rw [← hr]
    exact (turns_eq_chronological body h hle world k fun j _ => hp j).symm

section Instances

/-- A fresh manual-time service with one alarm for each deadline in turn. -/
def scheduled (deadlinesUs : List ℤ) : Service Unit :=
  deadlinesUs.foldl (fun s d => ((s.scheduleSystemTimeAlarm d ()).map Prod.snd).getD s)
    (initial false 0)

theorem idle_scheduled (deadlinesUs : List ℤ) : Idle (scheduled deadlinesUs) := by
  suffices h : ∀ s : Service Unit, Idle s → Idle (deadlinesUs.foldl
      (fun s d => ((s.scheduleSystemTimeAlarm d ()).map Prod.snd).getD s) s) from
    h _ (idle_initial 0)
  induction deadlinesUs with
  | nil => exact fun s h => h
  | cons d ds ih =>
    intro s h
    refine ih _ ?_
    cases hs : s.scheduleSystemTimeAlarm d () with
    | none => simpa [hs] using h
    | some p => simpa [hs] using h.schedule hs

/-- A body that only returns. -/
def quiet : Unit → Unit → Script Unit Unit := fun _ world => .done world

theorem delay_meets_contract_iff_twoInstants :
    (∀ n, ∃ status r, systemTimeDelayMicros quiet n 20 ⟨scheduled [15, 10], (), []⟩ =
        some (status, r) ∧ MeetsContract (scheduled [15, 10]) 20000 n status r) ↔
      ∀ k r, chronologicalTurns quiet k 20000 (scheduled [15, 10]) () = (.running, r) →
        Punctual 20000 r.service :=
  delay_meets_contract_iff quiet () 20 (idle_scheduled [15, 10]) (by decide)

/-- Two alarms at one deadline: the second callback observes the target of the delay. -/
theorem delay_breaks_contract_at_equal_deadlines :
    Idle (scheduled [10, 10]) ∧
      ¬ ∀ n, ∃ status r, systemTimeDelayMicros quiet n 20 ⟨scheduled [10, 10], (), []⟩ =
        some (status, r) ∧ MeetsContract (scheduled [10, 10])
          ((scheduled [10, 10]).uptimeNs + (20 : ℕ) * kNanosPerMicrosecond) n status r := by
  refine ⟨idle_scheduled [10, 10], fun hall => ?_⟩
  obtain ⟨status, r, hrun, hmeets⟩ := hall 2
  have hlog : r.log = [.delivered ⟨1, 10, 10000⟩, .delivered ⟨2, 10, 20000⟩] := by
    have hcode : (systemTimeDelayMicros quiet 2 20 ⟨scheduled [10, 10], (), []⟩).map
        (fun p => p.2.log) = some [.delivered ⟨1, 10, 10000⟩, .delivered ⟨2, 10, 20000⟩] := by
      decide
    simpa [hrun] using hcode
  obtain ⟨k, hk, hid, -, hobs⟩ := hmeets.onTime ⟨2, 10, 20000⟩ (by rw [hlog]; decide)
  rw [hlog] at hk
  have hall : ∀ k ∈ known (scheduled [10, 10])
      [.delivered ⟨1, 10, 10000⟩, .delivered ⟨2, 10, 20000⟩],
      (20000 : ℤ) ≠ max k.sinceNs (k.deadlineUs * kNanosPerMicrosecond) := by decide
  exact hall k hk hobs

end Instances

end RooTesting.AlarmDelay
