import RooTesting.HostEvents

/-! # Deliveries of host events

A pass of the gateway calls the handler of every endpoint that was pending when the pass began,
whatever tasks and native threads do meanwhile, and a tick starts a pass when one is needed. -/
namespace RooTesting.HostEvents
open Transition Lifecycles

variable {s s' : State} {e : ℕ} {i : Fin kEndpointCapacity}

def callsOf (s : State) (e : ℕ) : ℕ := calls (marksOf e s.log)

theorem calls_cons_le (m : Mark) (marks : List Mark) : calls marks ≤ calls (m :: marks) := by
  rw [calls, calls, List.countP_cons]
  exact Nat.le_add_right _ _

/-- A step adds at most one mark to the log. -/
def Logged (s s' : State) : Prop := s'.log = s.log ∨ ∃ e m, s'.log = ⟨e, m⟩ :: s.log

theorem Logged.callsOf_le (h : Logged s s') (e : ℕ) : callsOf s e ≤ callsOf s' e := by
  rcases h with hlog | ⟨e', m, hlog⟩
  · rw [callsOf, callsOf, hlog]
  · rw [callsOf, callsOf, hlog]
    by_cases he : e' = e
    · subst he
      rw [marksOf_cons_self]
      exact calls_cons_le m _
    · rw [marksOf_cons_of_ne he]

theorem connect_logged {inTask : Bool} {handler : Option ℕ} {context : ℕ}
    {mutexMade taskMade : Bool} :
    Logged s (s.connect inTask e handler context mutexMade taskMade).2 := by
  have hlog : (s.startIfNeeded mutexMade taskMade).2.log = s.log := by
    unfold State.startIfNeeded
    split_ifs <;> rfl
  unfold State.connect
  cases handler with
  | none => exact Or.inl rfl
  | some handler =>
    dsimp only
    split_ifs
    · exact Or.inl rfl
    · exact Or.inl rfl
    · split
      next s' heq =>
        rw [heq] at hlog
        exact Or.inl hlog
      next s' heq =>
        rw [heq] at hlog
        split
        next => exact Or.inl hlog
        next => exact Or.inr ⟨e, _, congrArg _ hlog⟩

theorem deliver_logged (hs : s.deliver = some s') : Logged s s' := by
  unfold State.deliver at hs
  cases hg : s.gateway with
  | waiting =>
    simp only [hg, Option.ite_none_left_eq_some, Option.some.injEq] at hs
    obtain ⟨-, rfl⟩ := hs
    exact Or.inl rfl
  | locking =>
    simp only [hg, Option.ite_none_right_eq_some, Option.some.injEq] at hs
    obtain ⟨-, rfl⟩ := hs
    exact Or.inl rfl
  | scan j =>
    rw [hg] at hs
    dsimp only at hs
    split_ifs at hs with hj
    · cases he : s.endpoints ⟨j, hj⟩ <;> rw [he] at hs <;> obtain rfl := Option.some.inj hs <;>
        exact Or.inl rfl
    · obtain rfl := Option.some.inj hs
      exact Or.inl rfl
  | loaded j e =>
    rw [hg] at hs
    dsimp only at hs
    split_ifs at hs <;> obtain rfl := Option.some.inj hs
    · exact Or.inr ⟨e, _, rfl⟩
    · exact Or.inl rfl
  | calling j e =>
    rw [hg] at hs
    obtain ⟨callback, -, rfl⟩ := Option.map_eq_some_iff.mp hs
    exact Or.inr ⟨e, _, rfl⟩
  | inHandler j =>
    rw [hg] at hs
    obtain rfl := Option.some.inj hs
    exact Or.inl rfl

theorem step_logged {a : Act} (hs : step s a = some s') : Logged s s' := by
  cases a with
  | connect t inTask e handler context mutexMade taskMade =>
    simp only [step, Option.ite_none_right_eq_some, Option.some.injEq] at hs
    obtain ⟨-, rfl⟩ := hs
    exact connect_logged
  | disconnect t inTask e =>
    simp only [step, Option.ite_none_left_eq_some] at hs
    obtain ⟨-, hs⟩ := hs
    split_ifs at hs <;> obtain rfl := Option.some.inj hs <;> exact Or.inl rfl
  | lock t =>
    cases htask : s.task t with
    | locking e =>
      simp only [step, htask, Option.ite_none_right_eq_some, Option.some.injEq] at hs
      obtain ⟨-, rfl⟩ := hs
      exact Or.inl rfl
    | _ => simp [step, htask] at hs
  | clear t =>
    cases htask : s.task t with
    | clearing e =>
      simp only [step, htask, Option.some.injEq] at hs
      obtain rfl := hs
      unfold State.clear
      split
      next => exact Or.inl rfl
      next => exact Or.inr ⟨e, _, rfl⟩
    | _ => simp [step, htask] at hs
  | give t =>
    cases htask : s.task t with
    | giving =>
      simp only [step, htask, Option.some.injEq] at hs
      obtain rfl := hs
      exact Or.inl rfl
    | _ => simp [step, htask] at hs
  | notifyFromHost e =>
    obtain rfl := Option.some.inj hs
    exact Or.inr ⟨e, _, rfl⟩
  | tick =>
    obtain rfl := Option.some.inj hs
    unfold State.onTick
    split_ifs <;> exact Or.inl rfl
  | gateway => exact deliver_logged hs

namespace Gateway

/-- The pass has not taken the pending flag of slot `i` yet. -/
def Before (i : ℕ) : Gateway → Prop
  | .scan j | .loaded j _ => j ≤ i
  | .calling j _ | .inHandler j => j < i
  | _ => False

end Gateway

/-- What a step that is not of the gateway leaves alone while a pass is under way. -/
structure Kept (s s' : State) (e : ℕ) (i : Fin kEndpointCapacity) : Prop where
  gateway : s'.gateway = s.gateway
  slot : (s'.endpoint e).slot = some i
  pending : (s.endpoint e).pending = true → (s'.endpoint e).pending = true

theorem startIfNeeded_of_started (h : s.gatewayTask = true) (mutexMade taskMade : Bool) :
    s.startIfNeeded mutexMade taskMade = (true, s) := by
  rw [State.startIfNeeded, if_pos h]

theorem connect_kept (h : Inv s) (hslot : (s.endpoint e).slot = some i) {inTask : Bool} {e' : ℕ}
    {handler : Option ℕ} {context : ℕ} {mutexMade taskMade : Bool} :
    Kept s (s.connect inTask e' handler context mutexMade taskMade).2 e i := by
  have hstarted := h.gatewayTask_of_slot (e := e) (by simp [hslot])
  have hsame : Kept s s e i := ⟨rfl, hslot, id⟩
  unfold State.connect
  cases handler with
  | none => exact hsame
  | some handler =>
    dsimp only
    rw [startIfNeeded_of_started hstarted]
    split_ifs with htask hconnected
    · exact hsame
    · exact hsame
    · dsimp only
      split
      next => exact hsame
      next j hfree =>
        have hne : e ≠ e' := by
          rintro rfl
          exact hconnected (by simp [hslot])
        constructor
        · rfl
        · simpa [State.mark, State.setEndpoint, Function.update_of_ne hne] using hslot
        · simp [State.mark, State.setEndpoint, Function.update_of_ne hne]

/-- Only the gateway touches a pending endpoint during a pass. -/
theorem step_kept {a : Act} (h : Inv s) (hs : step s a = some s') (ha : a ≠ .gateway)
    (hinside : s.gateway.Inside) (hslot : (s.endpoint e).slot = some i) : Kept s s' e i := by
  have hholder := h.gatewayHolds.mpr hinside
  have hfree : ∀ t, ¬(s.task t).Holds := by
    intro t
    rw [← h.taskHolds t, hholder]
    simp
  cases a with
  | connect t inTask e' handler context mutexMade taskMade =>
    simp only [step, Option.ite_none_right_eq_some, Option.some.injEq] at hs
    obtain ⟨-, rfl⟩ := hs
    exact connect_kept h hslot
  | disconnect t inTask e' =>
    simp only [step, Option.ite_none_left_eq_some, not_not] at hs
    obtain ⟨-, hs⟩ := hs
    split_ifs at hs <;> obtain rfl := Option.some.inj hs <;> exact ⟨rfl, hslot, id⟩
  | lock t =>
    cases htask : s.task t with
    | locking e' => simp [step, htask, hholder] at hs
    | _ => simp [step, htask] at hs
  | clear t =>
    cases htask : s.task t with
    | clearing e' => exact absurd (by simp [htask, Task.Holds]) (hfree t)
    | _ => simp [step, htask] at hs
  | give t =>
    cases htask : s.task t with
    | giving => exact absurd (by simp [htask, Task.Holds]) (hfree t)
    | _ => simp [step, htask] at hs
  | notifyFromHost e' =>
    obtain rfl := Option.some.inj hs
    by_cases he : e = e'
    · subst he
      refine ⟨rfl, ?_, fun _ => ?_⟩
      · simpa [State.notifyFromHost, State.mark, State.setEndpoint] using hslot
      · simp [State.notifyFromHost, State.mark, State.setEndpoint]
    · refine ⟨rfl, ?_, ?_⟩
      · simpa [State.notifyFromHost, State.mark, State.setEndpoint, Function.update_of_ne he]
          using hslot
      · simp [State.notifyFromHost, State.mark, State.setEndpoint, Function.update_of_ne he]
  | tick =>
    obtain rfl := Option.some.inj hs
    unfold State.onTick
    split_ifs <;> exact ⟨rfl, hslot, id⟩
  | gateway => exact absurd rfl ha

/-- The endpoint in slot `i` has been called since there were `n` calls, or still will be. -/
def Served (e : ℕ) (i : Fin kEndpointCapacity) (n : ℕ) (s : State) : Prop :=
  n < callsOf s e ∨ n ≤ callsOf s e ∧ (s.endpoint e).slot = some i ∧
    ((s.endpoint e).pending = true ∧ s.gateway.Before i ∨ s.gateway = .calling i e)

/-- The gateway on its way to slot `i`. -/
theorem Served.deliver {n : ℕ} (h : Inv s) (hs : s.deliver = some s')
    (hslot : (s.endpoint e).slot = some i) (hn : n ≤ callsOf s e)
    (hcoming : (s.endpoint e).pending = true ∧ s.gateway.Before i ∨ s.gateway = .calling i e) :
    Served e i n s' := by
  have hn' : n ≤ callsOf s' e := hn.trans ((deliver_logged hs).callsOf_le e)
  unfold State.deliver at hs
  cases hg : s.gateway with
  | waiting => simp [hg, Gateway.Before] at hcoming
  | locking => simp [hg, Gateway.Before] at hcoming
  | scan j =>
    rw [hg] at hs hcoming
    simp only [Gateway.Before, reduceCtorEq, or_false] at hcoming
    obtain ⟨hpending, hle⟩ := hcoming
    have hj : j < kEndpointCapacity := hle.trans_lt i.isLt
    dsimp only at hs
    rw [dif_pos hj] at hs
    cases he : s.endpoints ⟨j, hj⟩ with
    | none =>
      rw [he] at hs
      obtain rfl := Option.some.inj hs
      refine Or.inr ⟨hn', hslot, Or.inl ⟨hpending, ?_⟩⟩
      have hne : j ≠ i := by
        rintro rfl
        rw [(h.slots _ e).mpr hslot] at he
        cases he
      exact Nat.lt_of_le_of_ne hle hne
    | some e' =>
      rw [he] at hs
      obtain rfl := Option.some.inj hs
      exact Or.inr ⟨hn', hslot, Or.inl ⟨hpending, hle⟩⟩
  | loaded j e' =>
    rw [hg] at hs hcoming
    simp only [Gateway.Before, reduceCtorEq, or_false] at hcoming
    obtain ⟨hpending, hle⟩ := hcoming
    have hcurrent := h.current j e' (by rw [hg]; rfl)
    by_cases he : e = e'
    · -- its own flag is taken
      subst he
      dsimp only at hs
      rw [if_pos hpending] at hs
      obtain rfl := Option.some.inj hs
      rw [hslot] at hcurrent
      obtain rfl := Option.some.inj hcurrent
      refine Or.inr ⟨hn', ?_, Or.inr rfl⟩
      simpa [State.mark, State.setEndpoint] using hslot
    · have hne : j ≠ i := by
        rintro rfl
        obtain ⟨j, hj, hval⟩ := Option.map_eq_some_iff.mp hcurrent
        rw [← Fin.ext hval] at hslot
        rw [← h.slots] at hj hslot
        exact he (Option.some.inj (hslot.symm.trans hj))
      have hlt : j < i := Nat.lt_of_le_of_ne hle hne
      dsimp only at hs
      split_ifs at hs
      · obtain rfl := Option.some.inj hs
        refine Or.inr ⟨hn', ?_, Or.inl ⟨?_, hlt⟩⟩
        · simpa [State.mark, State.setEndpoint, Function.update_of_ne he] using hslot
        · simpa [State.mark, State.setEndpoint, Function.update_of_ne he] using hpending
      · obtain rfl := Option.some.inj hs
        exact Or.inr ⟨hn', hslot, Or.inl ⟨hpending, hlt⟩⟩
  | calling j e' =>
    rw [hg] at hs hcoming
    obtain ⟨callback, -, rfl⟩ := Option.map_eq_some_iff.mp hs
    rcases hcoming with ⟨hpending, hlt⟩ | heq
    · exact Or.inr ⟨hn', hslot, Or.inl ⟨hpending, hlt⟩⟩
    · cases heq
      refine Or.inl (hn.trans_lt ?_)
      rw [callsOf, callsOf, State.mark, marksOf_cons_self]
      exact Nat.lt_of_lt_of_eq (Nat.lt_succ_self _) (List.countP_cons_of_pos rfl).symm
  | inHandler j =>
    rw [hg] at hs hcoming
    simp only [Gateway.Before, reduceCtorEq, or_false] at hcoming
    obtain rfl := Option.some.inj hs
    exact Or.inr ⟨hn', hslot, Or.inl ⟨hcoming.1, hcoming.2⟩⟩

theorem served_keeps (n : ℕ) :
    PreservesWhen step (fun s _ => s.gateway.Inside) fun s => Inv s ∧ Served e i n s := by
  rintro s a s' hinside hs ⟨h, hserved⟩
  refine ⟨step_keeps hs h, ?_⟩
  have hcalls := (step_logged hs).callsOf_le e
  rcases hserved with hcalled | ⟨hn, hslot, hcoming⟩
  · exact Or.inl (hcalled.trans_le hcalls)
  · by_cases ha : a = .gateway
    · subst ha
      exact Served.deliver h hs hslot hn hcoming
    · obtain ⟨hgateway, hslot', hpending⟩ := step_kept h hs ha hinside hslot
      refine Or.inr ⟨hn.trans hcalls, hslot', ?_⟩
      rw [hgateway]
      exact hcoming.imp_left fun hb => ⟨hpending hb.1, hb.2⟩

/-- A pass calls every endpoint that was pending when it began. -/
theorem pass_delivers (h : Inv s) (hscan : s.gateway = .scan 0) (hslot : s.endpoints i = some e)
    (hpending : (s.endpoint e).pending = true) {acts : List Act}
    (hpass : Meets step (fun s _ => s.gateway.Inside) s acts) (hr : run step s acts = some s')
    (hend : s'.gateway = .scan kEndpointCapacity) : callsOf s e < callsOf s' e := by
  have hserved : Served e i (callsOf s e) s := by
    refine Or.inr ⟨le_rfl, (h.slots i e).mp hslot, Or.inl ⟨hpending, ?_⟩⟩
    rw [hscan]
    exact Nat.zero_le _
  obtain ⟨-, hcalled | ⟨-, -, ⟨-, hbefore⟩ | heq⟩⟩ :=
    (served_keeps (callsOf s e)).run hpass hr ⟨h, hserved⟩
  · exact hcalled
  · rw [hend] at hbefore
    exact absurd hbefore (Nat.not_le_of_lt i.isLt)
  · rw [hend] at heq
    cases heq

/-- Steps of the gateway alone, all of them within the mutex. -/
inductive InPass : State → State → Prop
  | refl (s : State) : InPass s s
  | head {s t z : State} : s.gateway.Inside → s.deliver = some t → InPass t z → InPass s z

theorem InPass.trans {s t z : State} (h : InPass s t) (h' : InPass t z) : InPass s z := by
  induction h with
  | refl => exact h'
  | head hinside hs _ ih => exact .head hinside hs (ih h')

theorem InPass.run {z : State} (h : InPass s z) :
    ∃ k, Transition.run step s (List.replicate k .gateway) = some z ∧
      Meets step (fun s _ => s.gateway.Inside) s (List.replicate k .gateway) := by
  induction h with
  | refl s => exact ⟨0, rfl, trivial⟩
  | @head s t z hinside hs _ ih =>
    obtain ⟨k, hr, hm⟩ := ih
    refine ⟨k + 1, ?_, ?_⟩
    · exact run_cons_eq_some.mpr ⟨t, hs, hr⟩
    · exact Meets.cons hinside hs hm

theorem InPass.inv {z : State} (h : InPass s z) (hs : Inv s) : Inv z := by
  induction h with
  | refl => exact hs
  | head _ hstep _ ih => exact ih (hs.deliver hstep)

/-- One turn of the loop. -/
theorem turn (h : Inv s) {j : ℕ} (hg : s.gateway = .scan j) (hj : j < kEndpointCapacity) :
    ∃ z, InPass s z ∧ z.gateway = .scan (j + 1) := by
  have hinside : s.gateway.Inside := by
    rw [hg]
    trivial
  cases he : s.endpoints ⟨j, hj⟩ with
  | none =>
    have hs : s.deliver = some { s with gateway := .scan (j + 1) } := by
      simp [State.deliver, hg, hj, he]
    exact ⟨_, .head hinside hs (.refl _), rfl⟩
  | some e =>
    have hs : s.deliver = some { s with gateway := .loaded j e } := by
      simp [State.deliver, hg, hj, he]
    have h₁ := h.deliver hs
    cases hpending : (s.endpoint e).pending with
    | false =>
      have hs₁ : State.deliver { s with gateway := .loaded j e } =
          some { s with gateway := .scan (j + 1) } := by
        simp [State.deliver, hpending]
      exact ⟨_, .head hinside hs (.head trivial hs₁ (.refl _)), rfl⟩
    | true =>
      have hs₁ : State.deliver { s with gateway := .loaded j e } =
          some ({ s.setEndpoint e { s.endpoint e with pending := false } with
            gateway := .calling j e }.mark e .take) := by
        simp [State.deliver, hpending, State.setEndpoint]
      have hslot := (h.slots _ e).mp he
      obtain ⟨callback, hcallback⟩ : ∃ callback, (s.endpoint e).handler = some callback := by
        rw [← Option.ne_none_iff_exists', Ne, h.handler e, hslot]
        exact Option.some_ne_none _
      have hs₂ : State.deliver ({ s.setEndpoint e { s.endpoint e with pending := false } with
          gateway := .calling j e }.mark e .take) =
          some (({ s.setEndpoint e { s.endpoint e with pending := false } with
            gateway := .inHandler j }.mark e .take).mark e (.call callback)) := by
        simp [State.deliver, State.mark, State.setEndpoint, hcallback]
      have hpass : InPass (({ s.setEndpoint e { s.endpoint e with pending := false } with
          gateway := .inHandler j }.mark e .take).mark e (.call callback)) _ :=
        .head trivial rfl (.refl _)
      exact ⟨_, .head hinside hs (.head trivial hs₁ (.head trivial hs₂ hpass)), rfl⟩

theorem pass_ends (h : Inv s) {j : ℕ} (hg : s.gateway = .scan j) (hj : j ≤ kEndpointCapacity) :
    ∃ z, InPass s z ∧ z.gateway = .scan kEndpointCapacity := by
  induction hn : kEndpointCapacity - j generalizing s j with
  | zero =>
    have heq : j = kEndpointCapacity := by omega
    exact ⟨s, .refl s, heq ▸ hg⟩
  | succ n ih =>
    obtain ⟨t, ht, hgt⟩ := turn h hg (by omega)
    obtain ⟨z, hz, hgz⟩ := ih (ht.inv h) hgt (by omega) (by omega)
    exact ⟨z, ht.trans hz, hgz⟩

/-- A tick sees what is pending. -/
theorem due_of_pending (hslot : s.endpoints i = some e) (hpending : (s.endpoint e).pending = true) :
    s.due = true := by
  refine List.any_eq_true.mpr ⟨i, List.mem_finRange i, ?_⟩
  rw [hslot]
  exact hpending

/-- An idle gateway is woken by the tick and delivers. -/
theorem tick_delivers (h : Inv s) (hwaiting : s.gateway = .waiting) (hfree : s.holder = none)
    (hslot : s.endpoints i = some e) (hpending : (s.endpoint e).pending = true) :
    ∃ k z, run step s ((if s.notified = 0 then [.tick] else []) ++ List.replicate k .gateway) =
      some z ∧ callsOf s e < callsOf z e := by
  have hstarted : s.gatewayTask = true :=
    h.gatewayTask_of_slot (e := e) (by simp [(h.slots i e).mp hslot])
  obtain ⟨n, hn, hticked⟩ : ∃ n : BitVec 32, n ≠ 0 ∧
      run step s (if s.notified = 0 then [.tick] else []) = some { s with notified := n } := by
    by_cases hzero : s.notified = 0
    · refine ⟨1, by decide, ?_⟩
      rw [if_pos hzero]
      simp [run, step, State.onTick, hstarted, due_of_pending hslot hpending, hzero]
    · exact ⟨s.notified, hzero, by rw [if_neg hzero]; rfl⟩
  have htake : State.deliver { s with notified := n } =
      some { s with notified := 0, gateway := .locking } := by
    simp only [State.deliver, hwaiting]
    exact if_neg (not_or.mpr ⟨by simp [hstarted], hn⟩)
  have hlock : State.deliver { s with notified := 0, gateway := .locking } =
      some { s with holder := some .gateway, notified := 0, gateway := .scan 0 } := by
    simp [State.deliver, hfree]
  have hinv : Inv { s with holder := some .gateway, notified := 0, gateway := .scan 0 } :=
    ((step_keeps.run hticked h).deliver htake).deliver hlock
  obtain ⟨z, hz, hend⟩ := pass_ends hinv rfl (Nat.zero_le _)
  obtain ⟨k, hr, hmeets⟩ := hz.run
  refine ⟨k + 2, z, ?_, ?_⟩
  · rw [run_append, hticked]
    exact run_cons_eq_some.mpr ⟨_, htake, run_cons_eq_some.mpr ⟨_, hlock, hr⟩⟩
  · have hdelivered := pass_delivers hinv rfl hslot hpending hmeets hr hend
    exact hdelivered

/-- The gateway cannot be made, or every slot has its endpoint. -/
theorem connect_noCapacity {inTask : Bool} {handler : Option ℕ} {context : ℕ}
    {mutexMade taskMade : Bool} (hstarted : s.gatewayTask = true)
    (h : (s.connect inTask e handler context mutexMade taskMade).1 = .kNoCapacity) :
    ∀ i, ∃ e', s.endpoints i = some e' := by
  unfold State.connect at h
  cases handler with
  | none => cases h
  | some handler =>
    dsimp only at h
    rw [startIfNeeded_of_started hstarted] at h
    split_ifs at h
    dsimp only at h
    split at h
    next hfull => exact freeSlot_none hfull
    next => cases h

/-- In every run: each slot of the table has one endpoint and each endpoint one slot; what
happened to an endpoint is a life, in which a call has its own notification and the handler of the
connection, and what is owed is pending; a pass calls whatever was pending when it began; an idle
gateway delivers after a tick; and a started gateway refuses a connection only when every slot is
taken. -/
theorem events_delivered {acts : List Act} (hr : run step start acts = some s) :
    (∀ i e, s.endpoints i = some e ↔ (s.endpoint e).slot = some i) ∧
    (∀ e, replay Life.next Life.new (marksOf e s.log) = some (lifeOf s e) ∧
      calls (marksOf e s.log) + (s.endpoint e).pending.toNat ≤
        notifications (marksOf e s.log)) ∧
    (∀ i e, s.endpoints i = some e → (s.endpoint e).pending = true → s.gateway = .scan 0 →
      ∀ more z, Meets step (fun s _ => s.gateway.Inside) s more → run step s more = some z →
        z.gateway = .scan kEndpointCapacity → callsOf s e < callsOf z e) ∧
    (∀ i e, s.endpoints i = some e → (s.endpoint e).pending = true → s.gateway = .waiting →
      s.holder = none → ∃ k z,
        run step s ((if s.notified = 0 then [.tick] else []) ++ List.replicate k .gateway) =
          some z ∧ callsOf s e < callsOf z e) ∧
    ∀ inTask e handler context mutexMade taskMade, s.gatewayTask = true →
      (s.connect inTask e handler context mutexMade taskMade).1 = .kNoCapacity →
        ∀ i, ∃ e', s.endpoints i = some e' := by
  have h : Inv s := step_keeps.run hr inv_start
  refine ⟨h.slots, fun e => ⟨h.lives e, ?_⟩, ?_, ?_, ?_⟩
  · exact (Nat.le_add_right _ _).trans (calls_le (h.lives e))
  · exact fun i e hslot hpending hscan more z hpass hrun hend =>
      pass_delivers h hscan hslot hpending hpass hrun hend
  · exact fun i e hslot hpending hwaiting hfree => tick_delivers h hwaiting hfree hslot hpending
  · exact fun inTask e handler context mutexMade taskMade hstarted hfull =>
      connect_noCapacity hstarted hfull

/-- Two notifications before the tick. -/
def coalesced : List Act :=
  [.connect 0 true 7 (some 1) 2 true true, .notifyFromHost 7, .notifyFromHost 7, .tick, .gateway,
    .gateway, .gateway, .gateway, .gateway]

/-- They are one call. -/
theorem events_delivered_coalesced :
    ∃ s, run step start coalesced = some s ∧ callsOf s 7 = 1 ∧
      calls (marksOf 7 s.log) + (s.endpoint 7).pending.toNat ≤
        notifications (marksOf 7 s.log) := by
  have hrun : run step start coalesced = some ((run step start coalesced).get (by decide)) :=
    (Option.some_get _).symm
  exact ⟨_, hrun, by decide, ((events_delivered hrun).2.1 7).2⟩

end RooTesting.HostEvents
