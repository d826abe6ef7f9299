import RooTesting.AlarmDelay
import Mathlib.Data.List.Basic
import Mathlib.Tactic.Linarith

/-! # What the delivery loop keeps

The history of a delay accounts for every alarm: the pending ones are exactly the
outstanding ones. The accounts are kept by a registration, a cancellation and a
delivery, hence by a callback body and by a turn of the loop. -/
namespace RooTesting.AlarmDelay
open OrderedTables AlarmService AlarmTable

variable {κ ω : Type} {start : Service κ} {log : List LogEntry}

@[simp] theorem registrations_append (log log' : List LogEntry) :
    registrations (log ++ log') = registrations log ++ registrations log' :=
  List.filterMap_append ..

@[simp] theorem deliveries_append (log log' : List LogEntry) :
    deliveries (log ++ log') = deliveries log ++ deliveries log' :=
  List.filterMap_append ..

@[simp] theorem cancelledIds_append (log log' : List LogEntry) :
    cancelledIds (log ++ log') = cancelledIds log ++ cancelledIds log' :=
  List.filterMap_append ..

@[simp] theorem deliveredIds_append (log log' : List LogEntry) :
    deliveredIds (log ++ log') = deliveredIds log ++ deliveredIds log' := by
  simp [deliveredIds]

@[simp] theorem registrations_singleton (e : LogEntry) : registrations [e] =
    match e with | .registered r => [r] | _ => [] := by
  cases e <;> rfl

@[simp] theorem deliveries_singleton (e : LogEntry) : deliveries [e] =
    match e with | .delivered d => [d] | _ => [] := by
  cases e <;> rfl

@[simp] theorem cancelledIds_singleton (e : LogEntry) : cancelledIds [e] =
    match e with | .cancelled id => [id] | _ => [] := by
  cases e <;> rfl

@[simp] theorem deliveredIds_singleton (e : LogEntry) : deliveredIds [e] =
    match e with | .delivered d => [d.id] | _ => [] := by
  cases e <;> rfl

theorem known_append (start : Service κ) (log log' : List LogEntry) :
    known start (log ++ log') = known start log ++ registrations log' := by
  simp [known]

theorem known_mono {log' : List LogEntry} (h : log <+: log') {k : Registration}
    (hk : k ∈ known start log) : k ∈ known start log' := by
  obtain ⟨ext, rfl⟩ := h
  rw [known_append]
  exact List.mem_append_left _ hk

theorem mem_outstanding {k : Registration} : k ∈ outstanding start log ↔
    k ∈ known start log ∧ k.id ∉ deliveredIds log ∧ k.id ∉ cancelledIds log := by
  simp [outstanding]

theorem mem_outstanding_registered {k r : Registration} (hd : r.id ∉ deliveredIds log)
    (hc : r.id ∉ cancelledIds log) : k ∈ outstanding start (log ++ [.registered r]) ↔
      k ∈ outstanding start log ∨ k = r := by
  simp only [mem_outstanding, known_append, registrations_singleton, deliveredIds_append,
    deliveredIds_singleton, cancelledIds_append, cancelledIds_singleton, List.append_nil,
    List.mem_append, List.mem_singleton]
  constructor
  · rintro ⟨hk | rfl, hrest⟩
    · exact Or.inl ⟨hk, hrest⟩
    · exact Or.inr rfl
  · rintro (⟨hk, hrest⟩ | rfl)
    · exact ⟨Or.inl hk, hrest⟩
    · exact ⟨Or.inr rfl, hd, hc⟩

theorem mem_outstanding_cancelled {k : Registration} {id : ℕ} :
    k ∈ outstanding start (log ++ [.cancelled id]) ↔ k ∈ outstanding start log ∧ k.id ≠ id := by
  simp [mem_outstanding, known_append, and_assoc]

theorem mem_outstanding_delivered {k : Registration} {d : Delivery} :
    k ∈ outstanding start (log ++ [.delivered d]) ↔ k ∈ outstanding start log ∧ k.id ≠ d.id := by
  simp only [mem_outstanding, known_append, registrations_singleton, List.append_nil,
    deliveredIds_append, deliveredIds_singleton, cancelledIds_append, cancelledIds_singleton,
    List.mem_append, List.mem_singleton, not_or]
  tauto

theorem mem_deliveredIds {id : ℕ} : id ∈ deliveredIds log ↔ ∃ d ∈ deliveries log, d.id = id := by
  simp [deliveredIds]

/-- The history accounts for the alarms of the service. -/
structure Accounts (start : Service κ) (log : List LogEntry) (s : Service κ) : Prop where
  table : TableOk s
  identified : ((known start log).map Registration.id).Nodup
  issued : ∀ k ∈ known start log, k.id < issued s
  pending : ∀ id deadlineUs, (∃ e ∈ s.alarms, e.2.id = id ∧ e.1 = deadlineUs) ↔
    ∃ k ∈ outstanding start log, k.id = id ∧ k.deadlineUs = deadlineUs
  known_of_delivered : ∀ d ∈ deliveries log, ∃ k ∈ known start log,
    k.id = d.id ∧ k.deadlineUs = d.deadlineUs
  known_of_cancelled : ∀ id ∈ cancelledIds log, ∃ k ∈ known start log, k.id = id
  once : (deliveredIds log).Nodup
  uncancelled : ∀ id ∈ deliveredIds log, id ∉ cancelledIds log
  ordered : ∀ pre d post, log = pre ++ .delivered d :: post →
    ∀ k ∈ outstanding start pre, k.id = d.id ∨ Before d k

theorem accounts_start {s : Service κ} (h : TableOk s) : Accounts s [] s := by
  have hk : known s [] = s.alarms.map fun e => ⟨e.2.id, e.1, s.uptimeNs⟩ := by
    simp [known, registrations]
  refine ⟨h, ?_, ?_, ?_, ?_, ?_, ?_, ?_, ?_⟩
  · simpa [hk, Function.comp_def, ids] using h.nodup_ids
  · intro k hm
    obtain ⟨e, he, rfl⟩ := List.mem_map.mp (hk ▸ hm)
    exact h.id_lt e he
  · intro id dl
    simp only [mem_outstanding, hk, List.mem_map, deliveredIds, deliveries, cancelledIds,
      List.filterMap_nil, List.map_nil, List.not_mem_nil, not_false_eq_true, and_self, and_true]
    constructor
    · rintro ⟨e, he, rfl, rfl⟩
      exact ⟨_, ⟨e, he, rfl⟩, rfl, rfl⟩
    · rintro ⟨_, ⟨e, he, rfl⟩, rfl, rfl⟩
      exact ⟨e, he, rfl, rfl⟩
  · simp [deliveries]
  · simp [cancelledIds]
  · simp [deliveredIds, deliveries]
  · simp [deliveredIds, deliveries]
  · intro pre d post h
    simp at h

namespace Accounts

variable {s : Service κ}

theorem eq_of_id (h : Accounts start log s) {a b : Registration} (ha : a ∈ known start log)
    (hb : b ∈ known start log) (hid : a.id = b.id) : a = b :=
  List.inj_on_of_nodup_map h.identified ha hb hid

theorem outstanding_of_mem (h : Accounts start log s) {e : ℤ × AlarmNode κ} (he : e ∈ s.alarms) :
    ∃ k ∈ outstanding start log, k.id = e.2.id ∧ k.deadlineUs = e.1 :=
  (h.pending _ _).mp ⟨e, he, rfl, rfl⟩

theorem mem_of_outstanding (h : Accounts start log s) {k : Registration}
    (hk : k ∈ outstanding start log) : ∃ e ∈ s.alarms, e.2.id = k.id ∧ e.1 = k.deadlineUs :=
  (h.pending _ _).mpr ⟨k, hk, rfl, rfl⟩

/-- A new entry behind the old history meets the order there when it meets it now. -/
theorem ordered_append (h : Accounts start log s) (e : LogEntry)
    (he : ∀ d, e = .delivered d → ∀ k ∈ outstanding start log, k.id = d.id ∨ Before d k) :
    ∀ pre d post, log ++ [e] = pre ++ .delivered d :: post →
      ∀ k ∈ outstanding start pre, k.id = d.id ∨ Before d k := by
  intro pre d post hsplit
  rcases List.eq_nil_or_concat post with rfl | ⟨post', last, rfl⟩
  · obtain ⟨rfl, hlast⟩ := List.append_inj' hsplit rfl
    exact he d (List.cons.inj hlast).1
  · have hsplit' : log ++ [e] = (pre ++ .delivered d :: post') ++ [last] := by
      simpa using hsplit
    exact h.ordered pre d post' (List.append_inj' hsplit' rfl).1

/-- Only the clock moves. -/
theorem clock (h : Accounts start log s) (c : Publication) :
    Accounts start log { s with clock := c } :=
  ⟨h.table.congr rfl rfl rfl rfl, h.identified, h.issued, h.pending, h.known_of_delivered,
    h.known_of_cancelled, h.once, h.uncancelled, h.ordered⟩

theorem released (h : Accounts start log s) : Accounts start log s.releaseDeliveryOwnership :=
  ⟨h.table.congr rfl rfl rfl rfl, h.identified, h.issued, h.pending, h.known_of_delivered,
    h.known_of_cancelled, h.once, h.uncancelled, h.ordered⟩

theorem register (h : Accounts start log s) {deadlineUs : ℤ} (callback : κ)
    (hd : (alarmMicrosToNanos deadlineUs).isSome) (h0 : s.nextAlarmId ≠ 0) :
    Accounts start (log ++ [.registered ⟨s.nextAlarmId, deadlineUs, s.uptimeNs⟩])
      (register deadlineUs callback s) := by
  obtain ⟨hold, hnew⟩ := issued_register deadlineUs callback
    h.table.next_lt h0
  have hlt : ∀ k ∈ known start log, k.id < s.nextAlarmId := fun k hk => hold ▸ h.issued k hk
  have hd' : s.nextAlarmId ∉ deliveredIds log := by
    intro hmem
    obtain ⟨d, hmem, hid⟩ := mem_deliveredIds.mp hmem
    obtain ⟨k, hk, hkid, -⟩ := h.known_of_delivered d hmem
    exact absurd (hkid.trans hid) (hlt k hk).ne
  have hc' : s.nextAlarmId ∉ cancelledIds log := by
    intro hmem
    obtain ⟨k, hk, hkid⟩ := h.known_of_cancelled _ hmem
    exact absurd hkid (hlt k hk).ne
  have hout : ∀ k, k ∈ outstanding start
      (log ++ [.registered ⟨s.nextAlarmId, deadlineUs, s.uptimeNs⟩]) ↔
        k ∈ outstanding start log ∨ k = ⟨s.nextAlarmId, deadlineUs, s.uptimeNs⟩ :=
    fun k => mem_outstanding_registered hd' hc'
  refine ⟨h.table.register callback hd h0, ?_, ?_, ?_, ?_, ?_, ?_, ?_, ?_⟩
  · simp only [known_append, registrations_singleton, List.map_append, List.map_cons, List.map_nil]
    refine List.nodup_append.mpr ⟨h.identified, List.nodup_singleton _, ?_⟩
    intro a ha b hb
    obtain ⟨k, hk, rfl⟩ := List.mem_map.mp ha
    rw [List.mem_singleton.mp hb]
    exact (hlt k hk).ne
  · intro k hk
    rw [hnew]
    simp only [known_append, registrations_singleton, List.mem_append, List.mem_singleton] at hk
    rcases hk with hk | rfl
    · exact (hlt k hk).trans (Nat.lt_succ_self _)
    · exact Nat.lt_succ_self _
  · intro id dl
    simp only [mem_alarms_register, hout]
    constructor
    · rintro ⟨e, rfl | he, hid, hdl⟩
      · exact ⟨_, Or.inr rfl, hid, hdl⟩
      · obtain ⟨k, hk, hkid, hkdl⟩ := (h.pending id dl).mp ⟨e, he, hid, hdl⟩
        exact ⟨k, Or.inl hk, hkid, hkdl⟩
    · rintro ⟨k, hk | rfl, hid, hdl⟩
      · obtain ⟨e, he, heid, hedl⟩ := (h.pending id dl).mpr ⟨k, hk, hid, hdl⟩
        exact ⟨e, Or.inr he, heid, hedl⟩
      · exact ⟨_, Or.inl rfl, hid, hdl⟩
  · intro d hmem
    obtain ⟨k, hk, hkid⟩ := h.known_of_delivered d (by simpa using hmem)
    exact ⟨k, by simp [known_append, hk], hkid⟩
  · intro id hmem
    obtain ⟨k, hk, hkid⟩ := h.known_of_cancelled id (by simpa using hmem)
    exact ⟨k, by simp [known_append, hk], hkid⟩
  · simpa using h.once
  · simpa using h.uncancelled
  · exact h.ordered_append _ (by simp)

/-- What is pending but for one alarm. -/
theorem pending_but (h : Accounts start log s) (i : ℕ) (dl : ℤ) (gone : ℕ) :
    (∃ e, (e ∈ s.alarms ∧ e.2.id ≠ gone) ∧ e.2.id = i ∧ e.1 = dl) ↔
      ∃ k, (k ∈ outstanding start log ∧ k.id ≠ gone) ∧ k.id = i ∧ k.deadlineUs = dl := by
  constructor
  · rintro ⟨a, ⟨ha, hne⟩, hai, hadl⟩
    obtain ⟨k, hk, hki, hkdl⟩ := (h.pending i dl).mp ⟨a, ha, hai, hadl⟩
    exact ⟨k, ⟨hk, by rwa [hki, ← hai]⟩, hki, hkdl⟩
  · rintro ⟨k, ⟨hk, hne⟩, hki, hkdl⟩
    obtain ⟨a, ha, hai, hadl⟩ := (h.pending i dl).mpr ⟨k, hk, hki, hkdl⟩
    exact ⟨a, ⟨ha, by rwa [hai, ← hki]⟩, hai, hadl⟩

/-- An outstanding alarm leaves the service by a cancellation. -/
theorem cancel (h : Accounts start log s) {id : ℕ} (hid : id ∈ ids s) :
    Accounts start (log ++ [.cancelled id]) (eraseId id s) := by
  obtain ⟨e, he, rfl⟩ := List.mem_map.mp hid
  obtain ⟨k, hk, hkid, -⟩ := h.outstanding_of_mem he
  have hk' := mem_outstanding.mp hk
  refine ⟨h.table.eraseId _, by simpa [known_append] using h.identified,
    by simpa [known_append] using h.issued, ?_, ?_, ?_, by simpa using h.once, ?_,
    h.ordered_append _ (by simp)⟩
  · intro i dl
    simp only [mem_alarms_eraseId, mem_outstanding_cancelled]
    exact h.pending_but i dl _
  · simpa [known_append] using h.known_of_delivered
  · intro i hi
    simp only [cancelledIds_append, cancelledIds_singleton, List.mem_append,
      List.mem_singleton] at hi
    simp only [known_append, registrations_singleton, List.append_nil]
    rcases hi with hi | rfl
    · exact h.known_of_cancelled i hi
    · exact ⟨k, hk'.1, hkid⟩
  · intro i hi
    simp only [deliveredIds_append, deliveredIds_singleton, List.append_nil] at hi
    simp only [cancelledIds_append, cancelledIds_singleton, List.mem_append, List.mem_singleton,
      not_or]
    refine ⟨h.uncancelled i hi, ?_⟩
    rintro rfl
    exact hk'.2.1 (hkid ▸ hi)

/-- The first alarm leaves the service by its delivery. -/
theorem deliver (h : Accounts start log s) {first : ℤ × AlarmNode κ}
    {rest : List (ℤ × AlarmNode κ)} (hs : s.alarms = first :: rest) (observedNs : ℤ) :
    Accounts start (log ++ [.delivered ⟨first.2.id, first.1, observedNs⟩])
      (eraseId first.2.id s) := by
  have hfirst : first ∈ s.alarms := by simp [hs]
  obtain ⟨k, hk, hkid, hkdl⟩ := h.outstanding_of_mem hfirst
  have hk' := mem_outstanding.mp hk
  refine ⟨h.table.eraseId _, by simpa [known_append] using h.identified,
    by simpa [known_append] using h.issued, ?_, ?_, ?_, ?_, ?_,
    h.ordered_append _ ?_⟩
  · intro i dl
    simp only [mem_alarms_eraseId, mem_outstanding_delivered]
    exact h.pending_but i dl _
  · intro d hd
    simp only [deliveries_append, deliveries_singleton, List.mem_append, List.mem_singleton] at hd
    simp only [known_append, registrations_singleton, List.append_nil]
    rcases hd with hd | rfl
    · exact h.known_of_delivered d hd
    · exact ⟨k, hk'.1, hkid, hkdl⟩
  · simpa [known_append] using h.known_of_cancelled
  · simp only [deliveredIds_append, deliveredIds_singleton]
    refine List.nodup_append.mpr ⟨h.once, List.nodup_singleton _, ?_⟩
    rintro a ha b hb rfl
    rw [List.mem_singleton.mp hb] at ha
    exact hk'.2.1 (hkid ▸ ha)
  · intro i hi
    simp only [deliveredIds_append, deliveredIds_singleton, List.mem_append,
      List.mem_singleton] at hi
    simp only [cancelledIds_append, cancelledIds_singleton, List.append_nil]
    rcases hi with hi | rfl
    · exact h.uncancelled i hi
    · exact hkid ▸ hk'.2.2
  · intro d hd j hj
    cases hd
    obtain ⟨e, he, hei, hedl⟩ := h.mem_of_outstanding hj
    by_cases hid : e.2.id = first.2.id
    · exact Or.inl (hei.symm.trans hid)
    · refine Or.inr ?_
      simpa [Before, ← hei, ← hedl] using h.table.first_le hs he hid

end Accounts

end RooTesting.AlarmDelay
