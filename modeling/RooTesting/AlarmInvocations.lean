import RooTesting.AlarmLedger

/-! # No alarm is invoked twice, and none after the shutdown began

Between its claim and its invocation an alarm is in the hands of the owner of the
delivery. From the ledger and the ownership follows the account of every run. -/
namespace RooTesting.AlarmThreads
open Transition Threads AlarmService AlarmTable

variable {κ : Type}

/-- The alarm that a frame has claimed and not yet invoked. -/
def Frame.claimedId : Frame κ → Option ℕ
  | .pump _ (.invoke a) => some a.id
  | _ => none

def invoking (st : List (Frame κ)) : List ℕ := st.filterMap Frame.claimedId

@[simp] theorem invoking_cons (f : Frame κ) (st : List (Frame κ)) :
    invoking (f :: st) = f.claimedId.toList ++ invoking st := by
  cases h : f.claimedId <;> simp [invoking, h]

theorem claimedId_eq_none {f : Frame κ} (h : f.owns = false) : f.claimedId = none := by
  cases f with
  | pump c phase => cases h
  | _ => rfl

theorem invoking_eq_of_core {st st' : List (Frame κ)} (h : core st' = core st) :
    invoking st' = invoking st := by
  have hcore : ∀ st : List (Frame κ), invoking (core st) = invoking st := by
    intro st
    induction st with
    | nil => rfl
    | cons f st ih =>
      cases hf : f.light with
      | false => simp [hf, ih]
      | true => simp [hf, ih, claimedId_eq_none (owns_of_light hf)]
  rw [← hcore st', h, hcore]

/-- A thread that does not own the delivery holds no claimed alarm. -/
theorem invoking_eq_nil {st : List (Frame κ)} (h : owners st = 0) : invoking st = [] := by
  induction st with
  | nil => rfl
  | cons f st ih =>
    rw [owners_cons] at h
    cases hf : f.owns with
    | false => simp [claimedId_eq_none hf, ih (by omega)]
    | true => simp [hf] at h

structure Invocations (c : System κ) : Prop where
  covered : ∀ id ∈ claimedIds c.shared.history, id ∈ invokedIds c.shared.history ∨
    ∃ t, id ∈ invoking (c.thread t)
  fresh : ∀ t, ∀ id ∈ invoking (c.thread t), id ∈ claimedIds c.shared.history ∧
    id ∉ invokedIds c.shared.history
  claimed : ∀ id ∈ invokedIds c.shared.history, id ∈ claimedIds c.shared.history
  nodup : (invokedIds c.shared.history).Nodup

theorem invocations_start (s : Service κ) : Invocations (start s) := by
  refine ⟨by simp [start, claimedIds], fun t id hid => ?_, by simp [start, invokedIds],
    by simp [start, invokedIds]⟩
  by_cases ht : t = 0 <;> simp [start, ht, invoking, Frame.claimedId] at hid

namespace Invocations

variable {c : System κ} {t : ℕ} {s' : Shared κ} {st' : List (Frame κ)}

theorem keep (h : Invocations c) (hi : invoking st' = invoking (c.thread t))
    (hc : claimedIds s'.history = claimedIds c.shared.history)
    (hv : invokedIds s'.history = invokedIds c.shared.history) :
    Invocations ⟨s', Function.update c.thread t st'⟩ := by
  have hall : ∀ u, invoking (Function.update c.thread t st' u) = invoking (c.thread u) := by
    intro u
    by_cases hu : u = t
    · subst hu
      simpa using hi
    · rw [Function.update_of_ne hu]
  refine ⟨fun id hid => ?_, fun u id hid => ?_, ?_, hv ▸ h.nodup⟩
  · simp only [hv, hall]
    exact h.covered id (hc ▸ hid)
  · simp only [hc, hv]
    exact h.fresh u id (hall u ▸ hid)
  · simp only [hc, hv]
    exact h.claimed

/-- While a thread owns the delivery, only that thread holds claimed alarms. -/
theorem eq_of_invoking (ho : Ownership c) (ht : 0 < owners (c.thread t)) {u id : ℕ}
    (hid : id ∈ invoking (c.thread u)) : u = t := by
  refine ho.held.eq_of_pos (Nat.pos_of_ne_zero fun hzero => ?_) ht
  rw [invoking_eq_nil hzero] at hid
  cases hid

theorem rest_eq_nil (ho : Ownership c) {caller : Caller} {phase : Phase κ}
    {rest : List (Frame κ)} (ht : c.thread t = .pump caller phase :: rest) :
    invoking rest = [] := by
  refine invoking_eq_nil ?_
  have hone := ho.held.count_le_one t
  simp only [ht, owners_cons, Frame.owns] at hone
  simpa using hone

theorem claim (h : Invocations c) (ho : Ownership c) {before : List ℕ}
    (hl : Ledger before c.shared) {caller : Caller} {rest : List (Frame κ)}
    (ht : c.thread t = .pump caller .claim :: rest) {a : AlarmRecord κ}
    (ha : a.id ∈ ids c.shared.service) (service : Service κ) :
    Invocations ⟨c.shared.log service (.claimed a.id),
      Function.update c.thread t (.notify :: .pump caller (.invoke a) :: rest)⟩ := by
  have hown : 0 < owners (c.thread t) := by simp [ht, Frame.owns]
  have hrest := rest_eq_nil ho ht
  have hnew : invoking (.notify :: .pump caller (.invoke a) :: rest) = [a.id] := by
    simp [Frame.claimedId, hrest]
  have hnot := hl.not_claimed_of_pending ha
  refine ⟨fun id hid => ?_, fun u id hid => ?_, fun id hid => ?_, h.nodup⟩
  · rcases List.mem_cons.mp hid with rfl | hid
    · exact Or.inr ⟨t, by simp [hnew]⟩
    · rcases h.covered id hid with hv | ⟨u, hu⟩
      · exact Or.inl hv
      · obtain rfl := eq_of_invoking ho hown hu
        simp [ht, Frame.claimedId, hrest] at hu
  · by_cases hu : u = t
    · subst hu
      simp only [Function.update_self, hnew, List.mem_singleton] at hid
      subst hid
      exact ⟨List.mem_cons_self, fun hv => hnot (h.claimed _ hv)⟩
    · simp only [Function.update_of_ne hu] at hid
      exact absurd (eq_of_invoking ho hown hid) hu
  · exact List.mem_cons_of_mem _ (h.claimed id hid)

theorem invoke (h : Invocations c) (ho : Ownership c) {caller : Caller} {a : AlarmRecord κ}
    {rest : List (Frame κ)} (ht : c.thread t = .pump caller (.invoke a) :: rest) :
    Invocations ⟨c.shared.log c.shared.service (.invoked a.id),
      Function.update c.thread t (.pump caller (.running a) :: rest)⟩ := by
  have hown : 0 < owners (c.thread t) := by simp [ht, Frame.owns]
  have hrest := rest_eq_nil ho ht
  have hnew : invoking (.pump caller (.running a) :: rest) = [] := hrest
  have hheld : invoking (c.thread t) = [a.id] := by
    simp [ht, Frame.claimedId, hrest]
  have hfresh := h.fresh t a.id (by simp [hheld])
  refine ⟨fun id hid => ?_, fun u id hid => ?_, fun id hid => ?_, ?_⟩
  · rcases h.covered id hid with hv | ⟨u, hu⟩
    · exact Or.inl (List.mem_cons_of_mem _ hv)
    · obtain rfl := eq_of_invoking ho hown hu
      obtain rfl : id = a.id := by simpa [hheld] using hu
      exact Or.inl List.mem_cons_self
  · by_cases hu : u = t
    · subst hu
      simp [hnew] at hid
    · simp only [Function.update_of_ne hu] at hid
      exact absurd (eq_of_invoking ho hown hid) hu
  · rcases List.mem_cons.mp hid with rfl | hid
    · exact hfresh.1
    · exact h.claimed id hid
  · exact List.nodup_cons.mpr ⟨hfresh.2, h.nodup⟩

theorem effect (h : Invocations c) (ho : Ownership c) {before : List ℕ}
    (hl : Ledger before c.shared) {e : Event κ} (he : Effect c.shared e (c.thread t) s' st') :
    Invocations ⟨s', Function.update c.thread t st'⟩ := by
  have keep := @Invocations.keep _ c t s' st' h
  generalize hst : c.thread t = st at he keep
  cases he with
  | quiet p hp hs hh hcore => exact keep (invoking_eq_of_core hcore) (by rw [hh]) (by rw [hh])
  | claim hc =>
    obtain ⟨p, -, ⟨hr, -⟩ | ⟨first, rest, hr, hs, -, -⟩⟩ := hl.table.claimDue_cases hc
    · cases hr
    · obtain rfl := Option.some.inj hr
      exact h.claim ho hl hst (List.mem_map.mpr ⟨_, by simp [hs], rfl⟩) _
  | invoke => exact h.invoke ho hst
  | discard =>
    exact keep rfl (filterMap_discarded _ (fun _ => rfl) _ _)
      (filterMap_discarded _ (fun _ => rfl) _ _)
  | _ => exact keep rfl rfl rfl

end Invocations

/-- Claims come before the shutdown began. -/
structure Closing (s : Shared κ) : Prop where
  closed : Entry.closing ∈ s.history → s.service.state ≠ .running
  quiet : ∀ post pre, s.history = post ++ .closing :: pre → claimedIds post = []

namespace Closing

variable {s s' : Shared κ} {st st' : List (Frame κ)}

/-- An entry other than a claim and the beginning of a shutdown. -/
theorem entry (h : Closing s) {e : Entry} (hh : s'.history = e :: s.history) (he : e ≠ .closing)
    (hc : claimedIds [e] = []) (hs : s.service.state ≠ .running → s'.service.state ≠ .running) :
    Closing s' := by
  refine ⟨fun hmem => hs (h.closed ?_), fun post pre hpost => ?_⟩
  · rw [hh] at hmem
    exact (List.mem_cons.mp hmem).resolve_left (Ne.symm he)
  · rw [hh] at hpost
    cases post with
    | nil => exact absurd (List.cons.inj hpost).1 he
    | cons f post =>
      obtain ⟨rfl, htl⟩ : e = f ∧ s.history = post ++ .closing :: pre := by
        simpa using hpost
      have htail := h.quiet post pre htl
      simpa [claimedIds, htail] using List.append_eq_nil_iff.mpr ⟨hc, htail⟩

theorem same (h : Closing s) (hh : s'.history = s.history)
    (hs : s.service.state ≠ .running → s'.service.state ≠ .running) : Closing s' :=
  ⟨fun hmem => hs (h.closed (hh ▸ hmem)), fun post pre hpost => h.quiet post pre (hh ▸ hpost)⟩

theorem claim (h : Closing s) (hrun : s.service.state = .running) {id : ℕ}
    (hh : s'.history = .claimed id :: s.history) : Closing s' := by
  have hnone : Entry.closing ∉ s'.history := by
    rw [hh, List.mem_cons, not_or]
    exact ⟨by simp, fun hmem => h.closed hmem hrun⟩
  refine ⟨fun hmem => absurd hmem hnone, fun post pre hpost => absurd ?_ hnone⟩
  rw [hpost]
  simp

theorem begin (h : Closing s) (hh : s'.history = .closing :: s.history)
    (hs : s'.service.state ≠ .running) (hrun : s.service.state = .running) : Closing s' := by
  refine ⟨fun _ => hs, fun post pre hpost => ?_⟩
  rw [hh] at hpost
  cases post with
  | nil => rfl
  | cons f post =>
    obtain ⟨-, htl⟩ : .closing = f ∧ s.history = post ++ .closing :: pre := by simpa using hpost
    exact absurd hrun (h.closed (by rw [htl]; simp))

theorem discard (h : Closing s) : Closing (discard s) := by
  have hs : (AlarmThreads.discard s).service.state ≠ .running := by
    simp [AlarmThreads.discard, Service.finishSystemTimeServiceShutdownForHost]
  refine ⟨fun _ => hs, fun post pre hpost => ?_⟩
  have hcut : (ids s.service).map Entry.discarded ++ s.history = post ++ .closing :: pre := hpost
  rcases List.append_eq_append_iff.mp hcut with ⟨mid, rfl, hmid⟩ | ⟨mid, hmid, -⟩
  · rw [claimedIds, filterMap_discarded _ fun _ => rfl]
    exact h.quiet mid pre hmid
  · refine List.filterMap_eq_nil_iff.mpr fun e he => ?_
    have hmem : e ∈ (ids s.service).map Entry.discarded := hmid ▸ List.mem_append_left _ he
    obtain ⟨id, -, rfl⟩ := List.mem_map.mp hmem
    rfl

theorem effect (h : Closing s) {before : List ℕ} (hl : Ledger before s)
    (hrun : ∀ caller rest, st = .pump caller .claim :: rest → s.service.state = .running)
    {e : Event κ} (he : Effect s e st s' st') : Closing s' := by
  cases he with
  | quiet p hp hs hh hcore => exact h.same hh (by simp [hs])
  | schedule hs =>
    obtain ⟨-, -, -, rfl, rfl⟩ := schedule_eq_some.mp hs
    exact h.entry rfl (by simp) rfl id
  | cancel hc =>
    obtain ⟨-, rfl⟩ := hl.table.cancel_eq_true hc
    exact h.entry rfl (by simp) rfl id
  | delay hm hr hd =>
    obtain ⟨-, -, rfl⟩ := reserve_eq_some hr
    exact h.entry rfl (by simp) rfl id
  | lag ha =>
    obtain ⟨-, p, -, rfl⟩ := add_eq_some ha
    exact h.same rfl id
  | closing ht =>
    obtain ⟨-, hr, rfl⟩ := tryBegin_eq_true ht
    exact h.begin rfl (by simp) hr
  | own ho =>
    obtain ⟨-, -, rfl⟩ := enter_eq_true ho
    exact h.same rfl id
  | pass ho =>
    obtain ⟨p, -, rfl, -⟩ := enter_eq_false ho
    exact h.same rfl id
  | decide hc =>
    obtain ⟨p, -, ⟨-, rfl, -⟩ | ⟨first, rest, hr, -⟩⟩ := hl.table.claimDue_cases hc
    · exact h.same rfl id
    · cases hr
  | claim hc => exact h.claim (hrun _ _ rfl) rfl
  | invoke => exact h.entry rfl (by simp) rfl id
  | ret => exact h
  | release => exact h.same rfl id
  | returned => exact h.entry rfl (by simp) rfl id
  | finish hclosing => exact h
  | discard => exact h.discard

end Closing

/-- The account of the alarms in every reachable state. -/
structure Consistent (before : List ℕ) (c : System κ) : Prop where
  ledger : Ledger before c.shared
  ownership : Ownership c
  invocations : Invocations c
  closing : Closing c.shared

theorem consistent_start {s : Service κ} (h : TableOk s) (ha : s.deliveryActive = false) :
    Consistent (ids s) (start s) :=
  ⟨.of_start h, ownership_start ha, invocations_start s,
    ⟨fun hmem => by simp [start] at hmem, fun post pre hpost => by simp [start] at hpost⟩⟩

theorem Consistent.effect {before : List ℕ} {c : System κ} (h : Consistent before c) {t : ℕ}
    {e : Event κ} {s' : Shared κ} {st' : List (Frame κ)}
    (he : Effect c.shared e (c.thread t) s' st') :
    Consistent before ⟨s', Function.update c.thread t st'⟩ := by
  refine ⟨h.ledger.effect he, h.ownership.effect h.ledger.table he,
    h.invocations.effect h.ownership h.ledger he, h.closing.effect h.ledger ?_ he⟩
  intro caller rest hst
  refine h.ownership.running (h.ownership.held.true_of_pos (t := t) ?_)
  simp [hst, Frame.owns]

theorem consistent_step (before : List ℕ) :
    Preserves (fire (step (κ := κ))) (Consistent before) := by
  intro c a c' hstep h
  obtain ⟨s', st', hp, rfl⟩ := fire_eq_some.mp hstep
  exact h.effect (effect_of_step hp)

/-- The history only grows. -/
theorem history_suffix {c c' : System κ} {es : List (ℕ × Event κ)}
    (h : run (fire step) c es = some c') : c.shared.history <:+ c'.shared.history := by
  refine run_rel (R := fun c c' : System κ => c.shared.history <:+ c'.shared.history)
    (fun c => List.suffix_refl _) (fun _ _ _ h h' => h.trans h') (fun c a c' hstep => ?_) h
  obtain ⟨t, e⟩ := a
  obtain ⟨s', st', hp, rfl⟩ := fire_eq_some.mp hstep
  have he := effect_of_step hp
  generalize c.thread t = st at he
  cases he with
  | quiet p hp hs hh hcore => simp [hh]
  | lag hl => exact List.suffix_refl _
  | own ho => exact List.suffix_refl _
  | pass ho => exact List.suffix_refl _
  | decide hc => exact List.suffix_refl _
  | ret => exact List.suffix_refl _
  | release => exact List.suffix_refl _
  | finish hclosing => exact List.suffix_refl _
  | discard => exact List.suffix_append _ _
  | _ => exact List.suffix_cons _ _

/-- What the alarm table promises in every state of every run. -/
structure TableContract (c : System κ) : Prop where
  index : ∀ id node, (id, node) ∈ c.shared.service.index ↔
    ∃ e ∈ c.shared.service.alarms, e.2.id = id ∧ e.2.node = node
  index_unique : (c.shared.service.index.map Prod.fst).Nodup ∧ (ids c.shared.service).Nodup ∧
    (c.shared.service.alarms.map fun e => e.2.node).Nodup
  nonzero : ∀ id ∈ scheduledIds c.shared.history, id ≠ 0
  never_reused : (scheduledIds c.shared.history).Nodup
  one_state : ∀ id, (ids c.shared.service ++ claimedIds c.shared.history ++
    cancelledIds c.shared.history ++ discardedIds c.shared.history).count id =
      if id ∈ scheduledIds c.shared.history then 1 else 0
  invoked_once : (invokedIds c.shared.history).Nodup
  invoked_claimed : ∀ id ∈ invokedIds c.shared.history, id ∈ claimedIds c.shared.history
  cancel_missing : ∀ t id c', id ∉ ids c.shared.service →
    fire step c (t, .cancel id) = some c' → c' = c
  cancel_pending : ∀ t id c' es c'', id ∈ ids c.shared.service →
    fire step c (t, .cancel id) = some c' → run (fire step) c' es = some c'' →
      id ∉ invokedIds c''.shared.history
  discarded : ∀ id ∈ discardedIds c.shared.history, ∀ es c'', run (fire step) c es = some c'' →
    id ∉ invokedIds c''.shared.history
  closed : ∀ post pre, c.shared.history = post ++ .closing :: pre → claimedIds post = []

section Contract

variable {before : List ℕ} {c : System κ}

/-- A cancelled or discarded alarm has not been invoked. -/
theorem Consistent.not_invoked (h : Consistent before c) {id : ℕ}
    (hid : id ∈ cancelledIds c.shared.history ++ discardedIds c.shared.history) :
    id ∉ invokedIds c.shared.history := by
  intro hv
  have hn := h.ledger.nodup_states
  rw [List.append_assoc] at hn
  exact (List.nodup_append.mp hn).2.2 id
    (List.mem_append_right _ (h.invocations.claimed id hv)) id hid rfl

theorem filterMap_suffix (g : Entry → Option ℕ) {h h' : List Entry} (hs : h <:+ h') {id : ℕ}
    (hid : id ∈ h.filterMap g) : id ∈ h'.filterMap g :=
  (hs.filterMap g).subset hid

theorem Consistent.cancel_eq (h : Consistent before c) {t id : ℕ} {c' : System κ}
    (hc : fire step c (t, .cancel id) = some c') :
    id ∉ ids c.shared.service ∧ c' = c ∨
      id ∈ ids c.shared.service ∧ id ∈ cancelledIds c'.shared.history := by
  obtain ⟨s', st', hp, rfl⟩ := fire_eq_some.mp hc
  simp only [step] at hp
  split at hp
  · rcases h.ledger.table.cancel_cases id with ⟨hid, heq⟩ | ⟨hid, heq⟩
    · simp only [begin, heq] at hp
      obtain ⟨rfl, rfl⟩ := Prod.mk.inj (Option.some.inj hp)
      exact Or.inl ⟨hid, by simp⟩
    · simp only [begin, heq] at hp
      obtain ⟨rfl, rfl⟩ := Prod.mk.inj (Option.some.inj hp)
      exact Or.inr ⟨hid, List.mem_cons_self⟩
  · cases hp

theorem Consistent.count (h : Consistent [] c) (id : ℕ) :
    (ids c.shared.service ++ claimedIds c.shared.history ++ cancelledIds c.shared.history ++
      discardedIds c.shared.history).count id =
        if id ∈ scheduledIds c.shared.history then 1 else 0 := by
  rw [h.ledger.balance.count_eq, List.nil_append]
  have hn : (scheduledIds c.shared.history).Nodup := h.ledger.nodup
  split
  · rename_i hid
    exact List.count_eq_one_of_mem hn hid
  · rename_i hid
    exact List.count_eq_zero_of_not_mem hid

end Contract

/-- Every run of the service from its initialization keeps the account of its alarms. -/
theorem alarmTable_contract (autoSync : Bool) (hostNowNs : ℤ) {es : List (ℕ × Event κ)}
    {c : System κ} (hr : run (fire step) (start (initial autoSync hostNowNs)) es = some c) :
    TableContract c := by
  have h : Consistent [] c :=
    (consistent_step _).run hr (consistent_start (tableOk_initial _ _) rfl)
  refine ⟨h.ledger.table.mem_index, ⟨h.ledger.table.nodup_index, h.ledger.table.nodup_ids,
    h.ledger.table.nodup_nodes⟩, fun id hid => (h.ledger.issued id hid).1.ne', h.ledger.nodup,
    h.count, h.invocations.nodup, h.invocations.claimed, fun t id c' hid hc => ?_,
    fun t id c' es c'' hid hc hrun => ?_, fun id hid es c'' hrun => ?_, h.closing.quiet⟩
  · rcases h.cancel_eq hc with ⟨-, heq⟩ | ⟨hmem, -⟩
    · exact heq
    · exact absurd hmem hid
  · have hlater := (consistent_step []).run hrun (consistent_step [] hc h)
    rcases h.cancel_eq hc with ⟨hnot, -⟩ | ⟨-, hx⟩
    · exact absurd hid hnot
    · exact hlater.not_invoked
        (List.mem_append_left _ (filterMap_suffix _ (history_suffix hrun) hx))
  · exact ((consistent_step []).run hrun h).not_invoked
      (List.mem_append_right _ (filterMap_suffix _ (history_suffix hrun) hid))

/-- A thread schedules an alarm, a second one delays past it, the first cancels too late. -/
def lateCancellation : List (ℕ × Event Unit) :=
  [(1, .schedule 10 ()), (1, .resume), (1, .resume), (2, .delay 20), (2, .resume), (2, .resume),
    (2, .resume), (2, .resume), (2, .resume), (1, .cancel 1)]

theorem alarmTable_contract_lateCancellation :
    ∃ c, run (fire step) (start (initial false 0)) lateCancellation = some c ∧ TableContract c :=
  ⟨_, rfl, @alarmTable_contract _ false 0 lateCancellation _ rfl⟩

end RooTesting.AlarmThreads
