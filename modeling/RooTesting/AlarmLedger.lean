import RooTesting.AlarmThreads
import RooTesting.AlarmSections

/-! # The account of every alarm

Every scheduled alarm is pending, claimed, cancelled or discarded, and in one of these
states only. A claimed alarm is invoked once, by the owner of the delivery. -/
namespace RooTesting.AlarmThreads
open Transition Threads AlarmService AlarmTable

variable {κ : Type}

section History

def scheduledIds (h : List Entry) : List ℕ :=
  h.filterMap fun | .scheduled id => some id | _ => none

def cancelledIds (h : List Entry) : List ℕ :=
  h.filterMap fun | .cancelled id => some id | _ => none

def claimedIds (h : List Entry) : List ℕ :=
  h.filterMap fun | .claimed id => some id | _ => none

def invokedIds (h : List Entry) : List ℕ :=
  h.filterMap fun | .invoked id => some id | _ => none

def discardedIds (h : List Entry) : List ℕ :=
  h.filterMap fun | .discarded id => some id | _ => none

@[simp] theorem history_log (s : Shared κ) (service : Service κ) (e : Entry) :
    (s.log service e).history = e :: s.history := rfl

@[simp] theorem service_log (s : Shared κ) (service : Service κ) (e : Entry) :
    (s.log service e).service = service := rfl

theorem filterMap_discarded {β : Type} (g : Entry → Option β) (hg : ∀ id, g (.discarded id) = none)
    (l : List ℕ) (h : List Entry) : (l.map Entry.discarded ++ h).filterMap g = h.filterMap g := by
  have hnone : (l.map Entry.discarded).filterMap g = [] := by
    simp [hg]
  rw [List.filterMap_append, hnone, List.nil_append]

theorem discardedIds_discarded (l : List ℕ) (h : List Entry) :
    discardedIds (l.map Entry.discarded ++ h) = l ++ discardedIds h := by
  induction l with
  | nil => rfl
  | cons id l ih => exact congrArg (List.cons id) ih

end History

/-- The ids known so far, those of the table at the start among them, and where they are. -/
structure Ledger (before : List ℕ) (s : Shared κ) : Prop where
  table : TableOk s.service
  balance : (ids s.service ++ claimedIds s.history ++ cancelledIds s.history ++
    discardedIds s.history).Perm (before ++ scheduledIds s.history)
  nodup : (before ++ scheduledIds s.history).Nodup
  issued : ∀ id ∈ before ++ scheduledIds s.history, 0 < id ∧ id < issued s.service

namespace Ledger

variable {before : List ℕ} {s s' : Shared κ}

theorem of_start {s : Service κ} (h : TableOk s) : Ledger (ids s) (start s).shared := by
  refine ⟨h, ?_, ?_, fun id hid => ?_⟩
  · simp [start, claimedIds, cancelledIds, discardedIds, scheduledIds]
  · simpa [start, scheduledIds] using h.nodup_ids
  · have hid : id ∈ ids s := by simpa [start, scheduledIds] using hid
    obtain ⟨e, he, rfl⟩ := List.mem_map.mp hid
    exact ⟨h.id_pos e he, h.id_lt e he⟩

/-- The states of an alarm exclude one another. -/
theorem nodup_states (h : Ledger before s) : (ids s.service ++ claimedIds s.history ++
    cancelledIds s.history ++ discardedIds s.history).Nodup :=
  h.balance.nodup_iff.mpr h.nodup

theorem not_claimed_of_pending (h : Ledger before s) {id : ℕ} (hid : id ∈ ids s.service) :
    id ∉ claimedIds s.history := by
  have hn := (List.nodup_append.mp (List.nodup_append.mp
    (List.nodup_append.mp h.nodup_states).1).1).2.2
  exact fun hc => hn id hid id hc rfl

/-- Steps that change neither the table nor what the history says of it. -/
theorem congr (h : Ledger before s) (ht : TableOk s'.service) (hid : ids s'.service = ids s.service)
    (hissued : AlarmTable.issued s'.service = AlarmTable.issued s.service)
    (hs : scheduledIds s'.history = scheduledIds s.history)
    (hc : claimedIds s'.history = claimedIds s.history)
    (hx : cancelledIds s'.history = cancelledIds s.history)
    (hd : discardedIds s'.history = discardedIds s.history) : Ledger before s' := by
  refine ⟨ht, ?_, ?_, ?_⟩
  · simpa only [hid, hs, hc, hx, hd] using h.balance
  · simpa only [hs] using h.nodup
  · simpa only [hs, hissued] using h.issued

theorem same (h : Ledger before s) {service : Service κ} (ht : TableOk service)
    (hid : ids service = ids s.service)
    (hissued : AlarmTable.issued service = AlarmTable.issued s.service) :
    Ledger before { s with service := service } :=
  h.congr ht hid hissued rfl rfl rfl rfl

theorem register (h : Ledger before s) {deadlineUs : ℤ} {callback : κ}
    (hd : (alarmMicrosToNanos deadlineUs).isSome) (h0 : s.service.nextAlarmId ≠ 0) :
    Ledger before (s.log (register deadlineUs callback s.service)
      (.scheduled s.service.nextAlarmId)) := by
  obtain ⟨hold, hnew⟩ := issued_register deadlineUs callback
    h.table.next_lt h0
  have hperm : (ids (AlarmTable.register deadlineUs callback s.service)).Perm
      (s.service.nextAlarmId :: ids s.service) :=
    (OrderedTables.insertLast_perm _ _ _).map fun e : ℤ × AlarmNode κ => e.2.id
  have hlog : scheduledIds ((s.log (AlarmTable.register deadlineUs callback s.service)
      (.scheduled s.service.nextAlarmId)).history) =
        s.service.nextAlarmId :: scheduledIds s.history := rfl
  refine ⟨h.table.register callback hd h0, ?_, ?_, ?_⟩
  · rw [hlog]
    refine List.Perm.trans ?_ ((h.balance.cons s.service.nextAlarmId).trans
      List.perm_middle.symm)
    exact ((hperm.append_right _).append_right _).append_right _
  · rw [hlog, List.perm_middle.nodup_iff, List.nodup_cons]
    refine ⟨fun hmem => ?_, h.nodup⟩
    exact absurd (hold ▸ (h.issued _ hmem).2) (lt_irrefl _)
  · intro id hid
    rw [hlog, List.perm_middle.mem_iff, List.mem_cons] at hid
    simp only [service_log, hnew]
    rcases hid with rfl | hid
    · exact ⟨Nat.pos_of_ne_zero h0, Nat.lt_succ_self _⟩
    · exact ⟨(h.issued id hid).1, (hold ▸ (h.issued id hid).2).trans (Nat.lt_succ_self _)⟩

/-- Taking an alarm out of the table moves its id to the account it is entered in. -/
theorem erase_perm {service : Service κ} (h : TableOk service) {id : ℕ} (hid : id ∈ ids service) :
    (id :: ids (eraseId id service)).Perm (ids service) := by
  have hfilter : ids (eraseId id service) = (ids service).filter (· != id) := by
    simp only [ids, eraseId, List.filter_map, Function.comp_def]
    exact congrArg _ (List.filter_congr fun e _ => by
      by_cases he : e.2.id = id <;> simp [he])
  rw [hfilter, ← h.nodup_ids.erase_eq_filter]
  exact (List.perm_cons_erase hid).symm

theorem cancel (h : Ledger before s) {id : ℕ} (hid : id ∈ ids s.service) :
    Ledger before (s.log (eraseId id s.service) (.cancelled id)) := by
  refine ⟨h.table.eraseId id, ?_, h.nodup, h.issued⟩
  refine List.Perm.trans ?_ h.balance
  have hx : cancelledIds (s.log (eraseId id s.service) (.cancelled id)).history =
      id :: cancelledIds s.history := rfl
  rw [hx]
  refine List.Perm.append_right _ (List.perm_middle.trans ?_)
  exact ((erase_perm h.table hid).append_right _).append_right _

theorem claim (h : Ledger before s) (p : Publication) {id : ℕ} (hid : id ∈ ids s.service) :
    Ledger before (s.log (eraseId id (withClock p s.service)) (.claimed id)) := by
  refine ⟨(h.table.withClock p).eraseId id, ?_, h.nodup, h.issued⟩
  refine List.Perm.trans ?_ h.balance
  have hx : claimedIds (s.log (eraseId id (withClock p s.service)) (.claimed id)).history =
      id :: claimedIds s.history := rfl
  rw [hx]
  refine List.Perm.append_right _ (List.Perm.append_right _ (List.perm_middle.trans ?_))
  exact (erase_perm h.table hid).append_right _

theorem discard (h : Ledger before s) : Ledger before (discard s) := by
  have hs : scheduledIds (AlarmThreads.discard s).history = scheduledIds s.history :=
    filterMap_discarded _ (fun _ => rfl) _ _
  refine ⟨h.table.finish, ?_, hs ▸ h.nodup, hs ▸ h.issued⟩
  have hc : claimedIds (AlarmThreads.discard s).history = claimedIds s.history :=
    filterMap_discarded _ (fun _ => rfl) _ _
  have hx : cancelledIds (AlarmThreads.discard s).history = cancelledIds s.history :=
    filterMap_discarded _ (fun _ => rfl) _ _
  have hd : discardedIds (AlarmThreads.discard s).history =
      ids s.service ++ discardedIds s.history := discardedIds_discarded _ _
  have hnil : ids (AlarmThreads.discard s).service = [] := rfl
  rw [hs, hc, hx, hd, hnil, List.nil_append]
  refine List.Perm.trans ?_ h.balance
  rw [← List.append_assoc]
  refine List.Perm.append_right _ (List.perm_append_comm.trans ?_)
  rw [List.append_assoc]

theorem effect (h : Ledger before s) {e : Event κ} {st st' : List (Frame κ)}
    (he : Effect s e st s' st') : Ledger before s' := by
  cases he with
  | quiet p hp hs hh hst =>
    refine h.congr ?_ ?_ ?_ (by rw [hh]) (by rw [hh]) (by rw [hh]) (by rw [hh])
    · rw [hs]
      exact h.table.withClock p
    · rw [hs]
      rfl
    · rw [hs]
      rfl
  | schedule hs =>
    obtain ⟨hd, -, h0, rfl, rfl⟩ := schedule_eq_some.mp hs
    exact h.register hd h0
  | cancel hc =>
    obtain ⟨hid, rfl⟩ := h.table.cancel_eq_true hc
    exact h.cancel hid
  | delay hm hr hd =>
    obtain ⟨-, -, rfl⟩ := reserve_eq_some hr
    exact h.congr (h.table.congr rfl rfl rfl rfl) rfl rfl rfl rfl rfl rfl
  | lag hl =>
    obtain ⟨-, p, -, rfl⟩ := add_eq_some hl
    exact h.same (h.table.congr rfl rfl rfl rfl) rfl rfl
  | closing ht =>
    obtain ⟨-, -, rfl⟩ := tryBegin_eq_true ht
    exact h.congr (h.table.congr rfl rfl rfl rfl) rfl rfl rfl rfl rfl rfl
  | own ho =>
    obtain ⟨-, -, rfl⟩ := enter_eq_true ho
    exact h.same (h.table.congr rfl rfl rfl rfl) rfl rfl
  | pass ho =>
    obtain ⟨p, -, rfl, -⟩ := enter_eq_false ho
    exact h.same (h.table.withClock p) rfl rfl
  | decide hc =>
    obtain ⟨p, -, ⟨-, rfl, -⟩ | ⟨first, rest, hr, -⟩⟩ := h.table.claimDue_cases hc
    · exact h.same (h.table.withClock p) rfl rfl
    · cases hr
  | claim hc =>
    obtain ⟨p, -, ⟨hr, -⟩ | ⟨first, rest, hr, hs, -, rfl⟩⟩ := h.table.claimDue_cases hc
    · cases hr
    · obtain rfl := Option.some.inj hr
      exact h.claim p (List.mem_map.mpr ⟨_, by simp [hs], rfl⟩)
  | invoke => exact h.congr h.table rfl rfl rfl rfl rfl rfl
  | ret => exact h
  | release => exact h.same (h.table.congr rfl rfl rfl rfl) rfl rfl
  | returned => exact h.congr h.table rfl rfl rfl rfl rfl rfl
  | finish => exact h
  | discard => exact h.discard

end Ledger

section Ownership

def Frame.owns : Frame κ → Bool
  | .pump _ _ => true
  | _ => false

/-- How often a thread owns the delivery. -/
def owners (st : List (Frame κ)) : ℕ := st.countP Frame.owns

@[simp] theorem owners_cons (f : Frame κ) (st : List (Frame κ)) :
    owners (f :: st) = owners st + if f.owns then 1 else 0 := by
  cases h : f.owns <;> simp [owners, h]

theorem owns_of_light {f : Frame κ} (h : f.light = true) : f.owns = false := by
  cases f with
  | pump c phase => cases h
  | _ => rfl

theorem owners_core (st : List (Frame κ)) : owners (core st) = owners st := by
  unfold owners core
  rw [List.countP_filter]
  refine List.countP_congr fun f _ => ?_
  cases hf : f.light <;> simp [owns_of_light, hf]

theorem owners_eq_of_core {st st' : List (Frame κ)} (h : core st' = core st) :
    owners st' = owners st := by
  rw [← owners_core st', h, owners_core]

/-- The delivery flag is the existence of the owner, and only a running service has one.
A shutdown that waits for the worker has left the running state behind. -/
structure Ownership (c : System κ) : Prop where
  held : Held owners c.thread c.shared.service.deliveryActive
  running : c.shared.service.deliveryActive = true → c.shared.service.state = .running
  joining : ∀ t joinWorker, .finishJoin joinWorker ∈ c.thread t →
    c.shared.service.state ≠ .running

theorem ownership_start {s : Service κ} (h : s.deliveryActive = false) : Ownership (start s) := by
  refine ⟨?_, fun hh => absurd hh (by simp [start, h]), fun t j hj => ?_⟩
  · simp only [start, h]
    intro t
    by_cases ht : t = 0 <;> simp [ht, owners, Frame.owns]
  · by_cases ht : t = 0 <;> simp [start, ht] at hj

variable {c : System κ} {t : ℕ} {s' : Shared κ} {st' : List (Frame κ)}

/-- A step that leaves the delivery flag, the owners and the waiting shutdowns alone. -/
theorem Ownership.keep (h : Ownership c)
    (ha : s'.service.deliveryActive = c.shared.service.deliveryActive)
    (hs : s'.service.state = c.shared.service.state) (ho : owners st' = owners (c.thread t))
    (hj : ∀ j, .finishJoin j ∈ st' → .finishJoin j ∈ c.thread t) :
    Ownership ⟨s', Function.update c.thread t st'⟩ := by
  refine ⟨ha ▸ h.held.keep ho, fun hh => hs.trans (h.running (ha.symm.trans hh)), fun u j hmem => ?_⟩
  simp only [hs]
  by_cases hu : u = t
  · subst hu
    exact h.joining u j (hj j (by simpa using hmem))
  · exact h.joining u j (by simpa [Function.update_of_ne hu] using hmem)

/-- A step into or within the states after the running one. -/
theorem Ownership.stop (h : Ownership c) (ha : s'.service.deliveryActive = false)
    (hold : c.shared.service.deliveryActive = false) (hs : s'.service.state ≠ .running)
    (ho : owners st' = owners (c.thread t)) : Ownership ⟨s', Function.update c.thread t st'⟩ := by
  refine ⟨?_, fun hh => absurd (ha.symm.trans hh) (by decide), fun _ _ _ => hs⟩
  rw [ha, ← hold]
  exact h.held.keep ho

theorem Ownership.effect (h : Ownership c) {e : Event κ} (ht : TableOk c.shared.service)
    (he : Effect c.shared e (c.thread t) s' st') :
    Ownership ⟨s', Function.update c.thread t st'⟩ := by
  have keep := @Ownership.keep _ c t s' st' h
  generalize hst : c.thread t = st at he keep
  cases he with
  | quiet p hp hs hh hcore =>
    refine keep (by rw [hs]) (by rw [hs]) (owners_eq_of_core hcore) fun j hj => ?_
    rw [← mem_core rfl, hcore, mem_core rfl] at hj
    exact hj
  | schedule hs =>
    obtain ⟨-, -, -, -, rfl⟩ := schedule_eq_some.mp hs
    exact keep rfl rfl (by simp [Frame.owns]) (by simp)
  | cancel hc =>
    obtain ⟨-, rfl⟩ := ht.cancel_eq_true hc
    exact keep rfl rfl (by simp [Frame.owns]) (by simp)
  | delay hm hr hd =>
    obtain ⟨-, -, rfl⟩ := reserve_eq_some hr
    exact keep rfl rfl (by simp [Frame.owns]) (by simp)
  | lag hl =>
    obtain ⟨-, p, -, rfl⟩ := add_eq_some hl
    exact keep rfl rfl (by simp [Frame.owns]) (by simp)
  | closing hc =>
    obtain ⟨hinactive, -, rfl⟩ := tryBegin_eq_true hc
    exact h.stop hinactive hinactive (by simp) (by simp [hst, Frame.owns])
  | own ho =>
    obtain ⟨hrun, hinactive, rfl⟩ := enter_eq_true ho
    have hheld := hinactive ▸ h.held
    refine ⟨hheld.acquire ?_, fun _ => hrun, fun u j hmem => ?_⟩
    · have hzero := hheld t
      rw [hst] at hzero
      simpa [Frame.owns] using hzero
    · by_cases hu : u = t
      · subst hu
        exact h.joining u j (by simpa [hst] using hmem)
      · exact h.joining u j (by simpa [Function.update_of_ne hu] using hmem)
  | pass ho =>
    obtain ⟨p, -, rfl, -⟩ := enter_eq_false ho
    exact keep rfl rfl (by simp [Frame.owns]) (by simp)
  | decide hc =>
    obtain ⟨p, -, ⟨-, rfl, -⟩ | ⟨first, rest, hr, -⟩⟩ := ht.claimDue_cases hc
    · exact keep rfl rfl (by simp [Frame.owns]) (by simp)
    · cases hr
  | claim hc =>
    obtain ⟨p, -, ⟨hr, -⟩ | ⟨first, rest, -, -, -, rfl⟩⟩ := ht.claimDue_cases hc
    · cases hr
    · exact keep rfl rfl (by simp [Frame.owns]) (by simp)
  | invoke => exact keep rfl rfl (by simp [Frame.owns]) (by simp)
  | ret => exact keep rfl rfl (by simp [Frame.owns]) (by simp)
  | @release caller rest =>
    have hone := h.held.count_le_one t
    rw [hst] at hone
    refine ⟨h.held.release (t := t) (by simp [hst, Frame.owns]) ?_, fun hh => ?_, fun u j hmem => ?_⟩
    · simp only [owners_cons, Frame.owns] at hone ⊢
      simpa using hone
    · simp [Service.releaseDeliveryOwnership] at hh
    · by_cases hu : u = t
      · subst hu
        exact h.joining u j (by simpa [hst] using hmem)
      · exact h.joining u j (by simpa [Function.update_of_ne hu] using hmem)
  | returned => exact keep rfl rfl (by simp [Frame.owns]) (by simp)
  | finish hclosing =>
    refine ⟨h.held.keep (by simp [hst, Frame.owns]), h.running, fun _ _ _ => ?_⟩
    simp [hclosing]
  | @discard j rest =>
    have hstate := h.joining t j (by simp [hst])
    have hinactive : c.shared.service.deliveryActive = false := by
      cases hact : c.shared.service.deliveryActive with
      | false => rfl
      | true => exact absurd (h.running hact) hstate
    exact h.stop hinactive hinactive (by simp [AlarmThreads.discard,
      Service.finishSystemTimeServiceShutdownForHost]) (by simp [hst, Frame.owns])

end Ownership

end RooTesting.AlarmThreads
