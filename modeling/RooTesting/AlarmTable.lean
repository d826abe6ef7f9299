import RooTesting.AlarmService
import Mathlib.Data.List.Nodup

/-! # The alarm map and its id index

The two containers describe the same alarms, ids are issued in increasing order,
and every section of the service keeps this. -/
namespace RooTesting.AlarmTable
open OrderedTables AlarmService

variable {κ : Type}

/-- Ids from one up to this bound have been issued. The counter is zero only
after the last id. -/
def issued (s : Service κ) : ℕ := if s.nextAlarmId = 0 then uint64Size else s.nextAlarmId

def ids (s : Service κ) : List ℕ := s.alarms.map fun e => e.2.id

structure TableOk (s : Service κ) : Prop where
  ordered : Stable (fun a b => a.id < b.id) s.alarms
  nodup_ids : (ids s).Nodup
  nodup_nodes : (s.alarms.map fun e => e.2.node).Nodup
  node_lt : ∀ e ∈ s.alarms, e.2.node < s.nextNode
  id_pos : ∀ e ∈ s.alarms, 0 < e.2.id
  id_lt : ∀ e ∈ s.alarms, e.2.id < issued s
  next_lt : s.nextAlarmId < uint64Size
  deadline : ∀ e ∈ s.alarms, (alarmMicrosToNanos e.1).isSome
  nodup_index : (s.index.map Prod.fst).Nodup
  mem_index : ∀ id n, (id, n) ∈ s.index ↔ ∃ e ∈ s.alarms, e.2.id = id ∧ e.2.node = n

theorem tableOk_initial (autoSync : Bool) (hostNowNs : ℤ) :
    TableOk (initial autoSync hostNowNs : Service κ) := by
  constructor <;> simp [initial, ids, Stable, uint64Size]

theorem issued_pos {s : Service κ} : 0 < issued s := by
  unfold issued
  split
  · simp [uint64Size]
  · omega

/-- Sections that leave the containers and the counters alone. -/
theorem TableOk.congr {s s' : Service κ} (h : TableOk s) (ha : s'.alarms = s.alarms)
    (hi : s'.index = s.index) (hn : s'.nextNode = s.nextNode)
    (hid : s'.nextAlarmId = s.nextAlarmId) : TableOk s' := by
  obtain ⟨h₁, h₂, h₃, h₄, h₅, h₆, h₇, h₈, h₉, h₁₀⟩ := h
  refine ⟨?_, ?_, ?_, ?_, ?_, ?_, ?_, ?_, ?_, ?_⟩ <;>
    simp only [ids, issued, ha, hi, hn, hid] at * <;> assumption

/-- Two entries with one id are one entry. -/
theorem TableOk.eq_of_id {s : Service κ} (h : TableOk s) {a b : ℤ × AlarmNode κ}
    (ha : a ∈ s.alarms) (hb : b ∈ s.alarms) (hid : a.2.id = b.2.id) : a = b :=
  List.inj_on_of_nodup_map h.nodup_ids ha hb hid

theorem TableOk.eq_of_node {s : Service κ} (h : TableOk s) {a b : ℤ × AlarmNode κ}
    (ha : a ∈ s.alarms) (hb : b ∈ s.alarms) (hn : a.2.node = b.2.node) : a = b :=
  List.inj_on_of_nodup_map h.nodup_nodes ha hb hn

/-- An id is indexed when and only when an alarm carries it. -/
theorem TableOk.mem_index_fst {s : Service κ} (h : TableOk s) {id : ℕ} :
    id ∈ s.index.map Prod.fst ↔ id ∈ ids s := by
  simp only [ids, List.mem_map, Prod.exists, exists_and_right, exists_eq_right]
  constructor
  · rintro ⟨n, hn⟩
    obtain ⟨e, he, hid, -⟩ := (h.mem_index id n).mp hn
    exact ⟨e.1, e.2, he, hid⟩
  · rintro ⟨d, a, ha, rfl⟩
    exact ⟨a.node, (h.mem_index _ _).mpr ⟨(d, a), ha, rfl, rfl⟩⟩

/-- The service without the alarm that carries the id. -/
def eraseId (id : ℕ) (s : Service κ) : Service κ :=
  { s with
    alarms := s.alarms.filter fun e => e.2.id ≠ id
    index := s.index.filter fun e => e.1 ≠ id }

@[simp] theorem mem_alarms_eraseId {id : ℕ} {s : Service κ} {e : ℤ × AlarmNode κ} :
    e ∈ (eraseId id s).alarms ↔ e ∈ s.alarms ∧ e.2.id ≠ id := by
  simp [eraseId]

@[simp] theorem issued_eraseId (id : ℕ) (s : Service κ) : issued (eraseId id s) = issued s := rfl

theorem TableOk.eraseId {s : Service κ} (h : TableOk s) (id : ℕ) : TableOk (eraseId id s) := by
  have hsub := List.filter_sublist (l := s.alarms) (p := fun e => decide (e.2.id ≠ id))
  refine ⟨h.ordered.sublist hsub, h.nodup_ids.sublist (hsub.map _),
    h.nodup_nodes.sublist (hsub.map _), fun e he => h.node_lt e (hsub.subset he),
    fun e he => h.id_pos e (hsub.subset he), fun e he => h.id_lt e (hsub.subset he), h.next_lt,
    fun e he => h.deadline e (hsub.subset he),
    h.nodup_index.sublist (List.filter_sublist.map _), ?_⟩
  intro i n
  simp only [AlarmTable.eraseId, List.mem_filter, h.mem_index i n, decide_eq_true_eq]
  constructor
  · rintro ⟨⟨e, he, rfl, hn⟩, hne⟩
    exact ⟨e, ⟨he, hne⟩, rfl, hn⟩
  · rintro ⟨e, ⟨he, hne⟩, rfl, hn⟩
    exact ⟨⟨e, he, rfl, hn⟩, hne⟩

/-- Removing the first alarm is removing the alarm with the first alarm's id. -/
theorem TableOk.tail_eq_filter {s : Service κ} (h : TableOk s) {first : ℤ × AlarmNode κ}
    {rest : List (ℤ × AlarmNode κ)} (hs : s.alarms = first :: rest) :
    rest = s.alarms.filter fun e => e.2.id ≠ first.2.id := by
  have hn := h.nodup_ids
  simp only [ids, hs, List.map_cons, List.nodup_cons, List.mem_map, not_exists, not_and] at hn
  rw [hs, List.filter_cons_of_neg (by simp)]
  refine (List.filter_eq_self.mpr ?_).symm
  intro e he
  simpa using hn.1 e he

/-- The first alarm is earliest by deadline and then by id. -/
theorem TableOk.first_le {s : Service κ} (h : TableOk s) {first : ℤ × AlarmNode κ}
    {rest : List (ℤ × AlarmNode κ)} (hs : s.alarms = first :: rest) {e : ℤ × AlarmNode κ}
    (he : e ∈ s.alarms) (hne : e.2.id ≠ first.2.id) :
    first.1 < e.1 ∨ first.1 = e.1 ∧ first.2.id < e.2.id := by
  have ho := h.ordered
  rw [hs] at ho he
  rcases List.mem_cons.mp he with rfl | he
  · exact absurd rfl hne
  · exact (List.pairwise_cons.mp ho).1 e he

theorem alarmMicrosToNanos_eq_some {micros ns : ℤ} (h : alarmMicrosToNanos micros = some ns) :
    ns = micros * kNanosPerMicrosecond := by
  unfold alarmMicrosToNanos at h
  split at h
  · exact (Option.some.inj h).symm
  · cases h

theorem TableOk.toNanos {s : Service κ} (h : TableOk s) {e : ℤ × AlarmNode κ}
    (he : e ∈ s.alarms) : alarmMicrosToNanos e.1 = some (e.1 * kNanosPerMicrosecond) := by
  obtain ⟨ns, hns⟩ := Option.isSome_iff_exists.mp (h.deadline e he)
  rw [hns, alarmMicrosToNanos_eq_some hns]

/-- What a cancellation does: nothing, or it takes out the alarm with the id. -/
theorem TableOk.cancel_cases {s : Service κ} (h : TableOk s) (id : ℕ) :
    (id ∉ ids s ∧ s.cancelSystemTimeAlarm id = (false, s)) ∨
      (id ∈ ids s ∧ s.cancelSystemTimeAlarm id = (true, AlarmTable.eraseId id s)) := by
  unfold Service.cancelSystemTimeAlarm
  by_cases h0 : id = 0
  · subst h0
    refine Or.inl ⟨?_, by simp⟩
    intro hmem
    obtain ⟨e, he, hid⟩ := List.mem_map.mp hmem
    exact absurd hid (h.id_pos e he).ne'
  cases hf : s.index.find? fun e => e.1 = id with
  | none =>
    refine Or.inl ⟨?_, by simp [h0]⟩
    rw [← h.mem_index_fst]
    intro hmem
    obtain ⟨e, he, rfl⟩ := List.mem_map.mp hmem
    simpa using List.find?_eq_none.mp hf e he
  | some found =>
    have hid : found.1 = id := by simpa using List.find?_some hf
    have hmem : found ∈ s.index := List.mem_of_find?_eq_some hf
    obtain ⟨a, ha, haid, hanode⟩ := (h.mem_index found.1 found.2).mp hmem
    have hfilter : (s.alarms.filter fun e => decide (e.2.node ≠ found.2)) =
        s.alarms.filter fun e => decide (e.2.id ≠ id) := by
      refine List.filter_congr fun e he => ?_
      have hiff : e.2.node = found.2 ↔ e.2.id = id := by
        constructor
        · intro hn
          rw [h.eq_of_node he ha (hn.trans hanode.symm), haid, hid]
        · intro hi
          rw [h.eq_of_id he ha (hi.trans (haid.trans hid).symm), hanode]
      simp only [ne_eq, hiff]
    refine Or.inr ⟨?_, ?_⟩
    · exact List.mem_map.mpr ⟨a, ha, haid.trans hid⟩
    · simp only [h0, if_false, hfilter, hid, AlarmTable.eraseId]

/-- What the last part of a turn does: it finds nothing due and changes nothing,
or it takes out the first alarm, which is due. -/
theorem TableOk.popDue_cases {s : Service κ} (h : TableOk s) :
    (s.popDue = some (none, s) ∧
      ∀ e ∈ s.alarms, s.uptimeNs < e.1 * kNanosPerMicrosecond) ∨
    ∃ first rest, s.alarms = first :: rest ∧ first.1 * kNanosPerMicrosecond ≤ s.uptimeNs ∧
      s.popDue = some (some first, AlarmTable.eraseId first.2.id s) := by
  unfold Service.popDue
  cases hs : s.alarms with
  | nil => exact Or.inl ⟨rfl, by simp⟩
  | cons first rest =>
    have hfirst : first ∈ s.alarms := by simp [hs]
    simp only [h.toNanos hfirst, Option.map_some]
    by_cases hlt : s.uptimeNs < first.1 * kNanosPerMicrosecond
    · refine Or.inl ⟨by simp [hlt], fun e he => ?_⟩
      rw [← hs] at he
      by_cases hid : e.2.id = first.2.id
      · rw [h.eq_of_id he hfirst hid]
        exact hlt
      · have hle : first.1 ≤ e.1 := (h.first_le hs he hid).elim le_of_lt fun hh => hh.1.le
        exact hlt.trans_le (Int.mul_le_mul_of_nonneg_right hle (by decide))
    · refine Or.inr ⟨first, rest, rfl, not_lt.mp hlt, ?_⟩
      have htail := h.tail_eq_filter hs
      simp only [hlt, if_false, AlarmTable.eraseId, ← htail]

theorem TableOk.next_le {s : Service κ} (h : TableOk s) {e : ℤ × AlarmNode κ}
    (he : e ∈ s.alarms) : s.getNextSystemTimeAlarmDeadline ≤ e.1 := by
  unfold Service.getNextSystemTimeAlarmDeadline
  cases hs : s.alarms with
  | nil =>
    rw [hs] at he
    cases he
  | cons first rest =>
    by_cases hid : e.2.id = first.2.id
    · rw [h.eq_of_id he (hs ▸ List.mem_cons_self) hid]
    · exact (h.first_le hs he hid).elim le_of_lt fun hh => hh.1.le

/-- Work is due exactly when the next deadline has been reached. -/
theorem TableOk.popDue_none_iff {s : Service κ} (h : TableOk s) :
    s.popDue = some (none, s) ↔ s.alarms = [] ∨
      s.uptimeNs < s.getNextSystemTimeAlarmDeadline * kNanosPerMicrosecond := by
  unfold Service.getNextSystemTimeAlarmDeadline
  rcases h.popDue_cases with ⟨hnone, hlater⟩ | ⟨first, rest, hs, hdue, hpop⟩
  · refine iff_of_true hnone ?_
    cases hs : s.alarms with
    | nil => exact Or.inl rfl
    | cons first rest => exact Or.inr (hlater first (hs ▸ List.mem_cons_self))
  · rw [hpop, hs]
    refine iff_of_false (fun heq => ?_) ?_
    · cases (Prod.mk.inj (Option.some.inj heq)).1
    · rintro (hnil | hlt)
      · cases hnil
      · exact absurd hdue (not_le.mpr hlt)

/-- The service after a successful registration. -/
def register (deadlineUs : ℤ) (callback : κ) (s : Service κ) : Service κ :=
  { s with
    alarms := insertLast deadlineUs ⟨⟨s.nextAlarmId, callback⟩, s.nextNode⟩ s.alarms
    index := (s.nextAlarmId, s.nextNode) :: s.index
    nextNode := s.nextNode + 1
    nextAlarmId := (s.nextAlarmId + 1) % uint64Size
    workerStarted := s.workerStarted || s.clock.autoSync }

theorem schedule_eq_some {deadlineUs : ℤ} {callback : κ} {s s' : Service κ} {id : ℕ} :
    s.scheduleSystemTimeAlarm deadlineUs callback = some (id, s') ↔
      (alarmMicrosToNanos deadlineUs).isSome ∧ s.state = .running ∧ s.nextAlarmId ≠ 0 ∧
        id = s.nextAlarmId ∧ s' = register deadlineUs callback s := by
  unfold Service.scheduleSystemTimeAlarm
  split
  · rename_i hc
    simp only [Option.some.injEq, Prod.mk.injEq]
    constructor
    · rintro ⟨rfl, rfl⟩
      exact ⟨hc.1, hc.2.1, hc.2.2, rfl, rfl⟩
    · rintro ⟨-, -, -, rfl, rfl⟩
      exact ⟨rfl, rfl⟩
  · rename_i hc
    simp only [reduceCtorEq, false_iff]
    rintro ⟨h₁, h₂, h₃, -⟩
    exact hc ⟨h₁, h₂, h₃⟩

@[simp] theorem mem_alarms_register {deadlineUs : ℤ} {callback : κ} {s : Service κ}
    {e : ℤ × AlarmNode κ} : e ∈ (register deadlineUs callback s).alarms ↔
      e = (deadlineUs, ⟨⟨s.nextAlarmId, callback⟩, s.nextNode⟩) ∨ e ∈ s.alarms := by
  simp [register]

theorem issued_register (deadlineUs : ℤ) (callback : κ) {s : Service κ}
    (hlt : s.nextAlarmId < uint64Size) (h0 : s.nextAlarmId ≠ 0) :
    issued s = s.nextAlarmId ∧ issued (register deadlineUs callback s) = s.nextAlarmId + 1 := by
  refine ⟨by simp [issued, h0], ?_⟩
  by_cases hlast : s.nextAlarmId + 1 = uint64Size
  · simp [issued, register, hlast]
  · have hmod : (s.nextAlarmId + 1) % uint64Size = s.nextAlarmId + 1 :=
      Nat.mod_eq_of_lt (by omega)
    simp [issued, register, hmod]

theorem TableOk.register {s : Service κ} (h : TableOk s) {deadlineUs : ℤ} (callback : κ)
    (hd : (alarmMicrosToNanos deadlineUs).isSome) (h0 : s.nextAlarmId ≠ 0) :
    TableOk (register deadlineUs callback s) := by
  obtain ⟨hold, hnew⟩ := issued_register deadlineUs callback
    h.next_lt h0
  have hid : ∀ e ∈ s.alarms, e.2.id < s.nextAlarmId := fun e he => hold ▸ h.id_lt e he
  have hperm := insertLast_perm deadlineUs
    (⟨⟨s.nextAlarmId, callback⟩, s.nextNode⟩ : AlarmNode κ) s.alarms
  have hfresh : s.nextAlarmId ∉ ids s := by
    intro hmem
    obtain ⟨e, he, heq⟩ := List.mem_map.mp hmem
    exact absurd heq (hid e he).ne
  refine ⟨h.ordered.insertLast hid, ?_, ?_, ?_, ?_, ?_, ?_, ?_, ?_, ?_⟩
  · exact (hperm.map fun e : ℤ × AlarmNode κ => e.2.id).nodup_iff.mpr
      (List.nodup_cons.mpr ⟨hfresh, h.nodup_ids⟩)
  · refine (hperm.map fun e : ℤ × AlarmNode κ => e.2.node).nodup_iff.mpr
      (List.nodup_cons.mpr ⟨?_, h.nodup_nodes⟩)
    intro hmem
    obtain ⟨e, he, heq⟩ := List.mem_map.mp hmem
    exact absurd heq (h.node_lt e he).ne
  · intro e he
    rcases mem_alarms_register.mp he with rfl | he
    · exact Nat.lt_succ_self _
    · exact (h.node_lt e he).trans (Nat.lt_succ_self _)
  · intro e he
    rcases mem_alarms_register.mp he with rfl | he
    · exact Nat.pos_of_ne_zero h0
    · exact h.id_pos e he
  · intro e he
    rw [hnew]
    rcases mem_alarms_register.mp he with rfl | he
    · exact Nat.lt_succ_self _
    · exact (hid e he).trans (Nat.lt_succ_self _)
  · exact Nat.mod_lt _ (by decide)
  · intro e he
    rcases mem_alarms_register.mp he with rfl | he
    · exact hd
    · exact h.deadline e he
  · refine List.nodup_cons.mpr ⟨?_, h.nodup_index⟩
    rw [h.mem_index_fst]
    exact hfresh
  · intro i n
    simp only [AlarmTable.register, List.mem_cons, Prod.mk.injEq, h.mem_index i n, mem_insertLast]
    constructor
    · rintro (⟨rfl, rfl⟩ | ⟨e, he, hi, hn⟩)
      · exact ⟨_, Or.inl rfl, rfl, rfl⟩
      · exact ⟨e, Or.inr he, hi, hn⟩
    · rintro ⟨e, rfl | he, hi, hn⟩
      · exact Or.inl ⟨hi.symm, hn.symm⟩
      · exact Or.inr ⟨e, he, hi, hn⟩

end RooTesting.AlarmTable
