import RooTesting.EspNow
import RooTesting.Threads

/-! # Deliveries of wireless datagrams

The thread settles packets in the order in which they came. While a callback is registered none is
lost, and once it has been cleared at most the call that had been decided before is still made. -/
namespace RooTesting.EspNow
open Transition

variable {s s' : State} {devices : List (BitVec 64)}

def Processor.packet : Processor → Option Packet
  | .holding packet | .copied packet _ => some packet
  | _ => none

/-- The packet that the thread holds and those behind it. -/
def State.pending (s : State) : List Packet := s.processor.packet.toList ++ s.inbox

/-- The call that a packet has led to. -/
def Fate.call (fate : Packet × Option Callback) : Option Call :=
  fate.2.map fun callback => ⟨callback, getMac fate.1.peerMac, fate.1.payload, fate.1.size⟩

/-- What a packet tells its receiver. -/
def Packet.frame (packet : Packet) : Mac × Bytes × ℤ :=
  (getMac packet.peerMac, packet.payload, packet.size)

def Call.frame (call : Call) : Mac × Bytes × ℤ := (call.source, call.data, call.size)

/-- Every packet that came is settled or pending, in order, and the calls are those of the settled
packets. -/
structure Flow (s : State) : Prop where
  arrived : s.arrived = s.fates.map Prod.fst ++ s.pending
  calls : s.calls = s.fates.filterMap Fate.call

/-- Nothing moves on the way to the callback. -/
structure Untouched (s s' : State) : Prop where
  inbox : s'.inbox = s.inbox
  processor : s'.processor = s.processor
  calls : s'.calls = s.calls
  arrived : s'.arrived = s.arrived
  fates : s'.fates = s.fates

theorem Untouched.refl (s : State) : Untouched s s := ⟨rfl, rfl, rfl, rfl, rfl⟩

theorem Untouched.pending (h : Untouched s s') : s'.pending = s.pending := by
  rw [State.pending, State.pending, h.inbox, h.processor]

/-- The thread settles the first pending packet. A packet without a call was the sentinel or found
no callback, and a call is the one that had been copied. -/
structure Settles (s s' : State) (packet : Packet) (callback : Option Callback) : Prop where
  pending : s.pending = packet :: s'.pending
  arrived : s'.arrived = s.arrived
  fates : s'.fates = s.fates ++ [(packet, callback)]
  calls : s'.calls = s.calls ++ (Fate.call (packet, callback)).toList
  dropped : callback = none →
    s'.processor = .finished ∨ s.onRecvCb = false ∨ s.recvCallback = none
  called : ∀ c, callback = some c → s.processor = .copied packet c
  uncopied : ∀ p c, s'.processor ≠ .copied p c

/-- The thread goes on with the packet it holds, or with none. -/
structure Moves (s s' : State) : Prop where
  pending : s'.pending = s.pending
  arrived : s'.arrived = s.arrived
  fates : s'.fates = s.fates
  calls : s'.calls = s.calls
  copied : ∀ p c, s'.processor = .copied p c → s.recvCallback = some c

/-- The callbacks and the tasks are as before. -/
structure Aside (s s' : State) : Prop where
  onRecvCb : s'.onRecvCb = s.onRecvCb
  recvCallback : s'.recvCallback = s.recvCallback
  task : s'.task = s.task

theorem processInbox_cases (h : s.processInbox = some s') :
    Aside s s' ∧ ((∃ packet callback, Settles s s' packet callback) ∨ Moves s s') := by
  unfold State.processInbox at h
  split at h
  next hwaiting =>
    split at h
    next => cases h
    next packet rest hinbox =>
      split_ifs at h <;> obtain rfl := Option.some.inj h <;> refine ⟨⟨rfl, rfl, rfl⟩, ?_⟩
      next =>
        refine Or.inl ⟨packet, none, ?_, rfl, rfl, ?_, fun _ => Or.inl rfl, ?_, ?_⟩
        · simp [State.pending, hwaiting, hinbox, Processor.packet]
        · simp [State.settle, Fate.call]
        · simp
        · simp
      next =>
        refine Or.inr ⟨?_, rfl, rfl, rfl, ?_⟩
        · simp [State.pending, hwaiting, hinbox, Processor.packet]
        · simp
      next hunset =>
        refine Or.inl ⟨packet, none, ?_, rfl, rfl, ?_, fun _ => Or.inr (Or.inl ?_), ?_, ?_⟩
        · simp [State.pending, State.settle, hwaiting, hinbox, Processor.packet]
        · simp [State.settle, Fate.call]
        · simpa using hunset
        · simp
        · simp [State.settle, hwaiting]
  next packet hholding =>
    split at h
    next hnone =>
      obtain rfl := Option.some.inj h
      refine ⟨⟨rfl, rfl, rfl⟩, Or.inl ⟨packet, none, ?_, rfl, rfl, ?_, ?_, ?_, ?_⟩⟩
      · simp [State.pending, State.settle, hholding, Processor.packet]
      · simp [State.settle, Fate.call]
      · exact fun _ => Or.inr (Or.inr hnone)
      · simp
      · simp
    next callback hsome =>
      obtain rfl := Option.some.inj h
      refine ⟨⟨rfl, rfl, rfl⟩, Or.inr ⟨?_, rfl, rfl, rfl, ?_⟩⟩
      · simp [State.pending, hholding, Processor.packet]
      · rintro p c ⟨⟩
        exact hsome
  next packet callback hcopied =>
    obtain rfl := Option.some.inj h
    refine ⟨⟨rfl, rfl, rfl⟩, Or.inl ⟨packet, some callback, ?_, rfl, rfl, rfl, ?_, ?_, ?_⟩⟩
    · simp [State.pending, State.settle, hcopied, Processor.packet]
    · simp
    · rintro c ⟨⟩
      exact hcopied
    · simp
  next hin =>
    obtain rfl := Option.some.inj h
    refine ⟨⟨rfl, rfl, rfl⟩, Or.inr ⟨?_, rfl, rfl, rfl, ?_⟩⟩
    · simp [State.pending, hin, Processor.packet]
    · simp
  next => cases h

theorem begin_untouched (t : ℕ) (call : ApiCall) : Untouched s (s.begin t call) := by
  unfold State.begin
  split
  case h_9 =>
    split_ifs
    · exact ⟨rfl, rfl, rfl, rfl, rfl⟩
    · split <;> exact ⟨rfl, rfl, rfl, rfl, rfl⟩
  all_goals exact ⟨rfl, rfl, rfl, rfl, rfl⟩

theorem proceed_untouched {t : ℕ} (h : s.proceed t = some s') : Untouched s s' := by
  unfold State.proceed at h
  split at h
  case h_1 => cases h
  case h_10 =>
    split at h <;> obtain rfl := Option.some.inj h <;> exact ⟨rfl, rfl, rfl, rfl, rfl⟩
  all_goals
    obtain rfl := Option.some.inj h
    exact ⟨rfl, rfl, rfl, rfl, rfl⟩

/-- A step leaves the packets alone, adds one, or is one of the thread. -/
theorem step_cases {a : Act} (h : step s a = some s') :
    Untouched s s' ∨ (∃ packet, s' = s.push packet) ∨ s.processInbox = some s' := by
  cases a with
  | incoming peer data =>
    obtain rfl := Option.some.inj h
    unfold State.incoming
    split_ifs
    · exact Or.inl (Untouched.refl s)
    · exact Or.inr (Or.inl ⟨_, rfl⟩)
  | processInbox => exact Or.inr (Or.inr h)
  | shutdown => exact Or.inr (Or.inl ⟨_, (Option.some.inj h).symm⟩)
  | begin t call =>
    rw [step] at h
    split_ifs at h
    obtain rfl := Option.some.inj h
    exact Or.inl (begin_untouched t call)
  | proceed t => exact Or.inl (proceed_untouched h)

@[simp] theorem pending_push (packet : Packet) : (s.push packet).pending = s.pending ++ [packet] :=
  (List.append_assoc _ _ _).symm

theorem step_flow : Preserves step Flow := by
  intro s a s' h hflow
  rcases step_cases h with hsame | ⟨packet, rfl⟩ | hmoved
  · exact ⟨by rw [hsame.arrived, hsame.fates, hsame.pending, hflow.arrived],
      by rw [hsame.calls, hsame.fates, hflow.calls]⟩
  · refine ⟨?_, hflow.calls⟩
    rw [pending_push, ← List.append_assoc]
    exact congrArg (· ++ [packet]) hflow.arrived
  · obtain ⟨-, ⟨packet, callback, hsettles⟩ | hmoves⟩ := processInbox_cases hmoved
    · refine ⟨?_, ?_⟩
      · rw [hsettles.arrived, hsettles.fates, hflow.arrived, hsettles.pending]
        simp
      · rw [hsettles.calls, hsettles.fates, hflow.calls, List.filterMap_append]
        cases callback <;> rfl
    · exact ⟨by rw [hmoves.arrived, hmoves.fates, hmoves.pending, hflow.arrived],
        by rw [hmoves.calls, hmoves.fates, hflow.calls]⟩

theorem flow_start : Flow (start devices) := ⟨rfl, rfl⟩

def Task.Clears : Task → Prop
  | .unregistering | .deinitSend | .deinitClear => True
  | _ => False

def Act.Clears : Act → Prop
  | .begin _ .unregisterRecv | .begin _ .deinit => True
  | _ => False

def Act.Registers : Act → Prop
  | .begin _ (.registerRecv (some _)) => True
  | _ => False

/-- Both callbacks are set and no task is about to clear one. -/
structure Registered (s : State) : Prop where
  onRecvCb : s.onRecvCb = true
  recvCallback : s.recvCallback ≠ none
  task : ∀ t, ¬ (s.task t).Clears

/-- Both callbacks are cleared and no task is about to set one. -/
structure Cleared (s : State) : Prop where
  onRecvCb : s.onRecvCb = false
  recvCallback : s.recvCallback = none
  task : ∀ t, s.task t ≠ .registering

theorem Registered.aside (h : Registered s) (haside : Aside s s') : Registered s' :=
  ⟨haside.onRecvCb ▸ h.onRecvCb, haside.recvCallback ▸ h.recvCallback, haside.task ▸ h.task⟩

theorem Cleared.aside (h : Cleared s) (haside : Aside s s') : Cleared s' :=
  ⟨haside.onRecvCb ▸ h.onRecvCb, haside.recvCallback ▸ h.recvCallback, haside.task ▸ h.task⟩

theorem incoming_aside (peer : BitVec 64) (data : Bytes) : Aside s (s.incoming peer data) := by
  unfold State.incoming
  split_ifs <;> exact ⟨rfl, rfl, rfl⟩

theorem clears_setTask {t : ℕ} {x : Task} (h : ∀ u, ¬ (s.task u).Clears) (hx : ¬ x.Clears)
    (u : ℕ) : ¬ ((s.setTask t x).task u).Clears :=
  (Threads.forall_update (Q := fun x : Task => ¬ x.Clears)).mpr ⟨hx, fun u _ => h u⟩ u

theorem registering_setTask {t : ℕ} {x : Task} (h : ∀ u, s.task u ≠ .registering)
    (hx : x ≠ .registering) (u : ℕ) : (s.setTask t x).task u ≠ .registering :=
  (Threads.forall_update (Q := (· ≠ Task.registering))).mpr ⟨hx, fun u _ => h u⟩ u

theorem Registered.begin (h : Registered s) {t : ℕ} {call : ApiCall}
    (hcall : ¬ (Act.begin t call).Clears) : Registered (s.begin t call) := by
  unfold State.begin
  split
  case h_1 | h_4 => exact h
  case h_2 => exact ⟨h.onRecvCb, Option.some_ne_none _, clears_setTask h.task id⟩
  case h_3 | h_7 => exact absurd trivial hcall
  case h_9 =>
    split_ifs
    · exact ⟨h.onRecvCb, h.recvCallback, h.task⟩
    · split
      · exact ⟨h.onRecvCb, h.recvCallback, h.task⟩
      · exact ⟨h.onRecvCb, h.recvCallback, clears_setTask h.task id⟩
  case h_8 => exact ⟨h.onRecvCb, h.recvCallback, h.task⟩
  all_goals exact ⟨h.onRecvCb, h.recvCallback, clears_setTask h.task id⟩

theorem Cleared.begin (h : Cleared s) {t : ℕ} {call : ApiCall}
    (hcall : ¬ (Act.begin t call).Registers) : Cleared (s.begin t call) := by
  unfold State.begin
  split
  case h_1 | h_4 | h_8 => exact ⟨h.onRecvCb, h.recvCallback, h.task⟩
  case h_2 => exact absurd trivial hcall
  case h_9 =>
    split_ifs
    · exact ⟨h.onRecvCb, h.recvCallback, h.task⟩
    · split
      · exact ⟨h.onRecvCb, h.recvCallback, h.task⟩
      · exact ⟨h.onRecvCb, h.recvCallback, registering_setTask h.task Task.noConfusion⟩
  case h_3 | h_7 => exact ⟨rfl, h.recvCallback, registering_setTask h.task Task.noConfusion⟩
  all_goals exact ⟨h.onRecvCb, h.recvCallback, registering_setTask h.task Task.noConfusion⟩

theorem Registered.proceed (h : Registered s) {t : ℕ} (hs : s.proceed t = some s') :
    Registered s' := by
  unfold State.proceed at hs
  have htask := h.task t
  split at hs
  case h_1 => cases hs
  case h_3 hclears | h_6 hclears | h_7 hclears =>
    rw [hclears] at htask
    exact absurd trivial htask
  case h_2 =>
    obtain rfl := Option.some.inj hs
    exact ⟨rfl, h.recvCallback, clears_setTask h.task id⟩
  case h_9 =>
    obtain rfl := Option.some.inj hs
    split_ifs <;> exact ⟨h.onRecvCb, h.recvCallback, clears_setTask h.task id⟩
  case h_10 =>
    split at hs <;> obtain rfl := Option.some.inj hs <;>
      exact ⟨h.onRecvCb, h.recvCallback, clears_setTask h.task id⟩
  all_goals
    obtain rfl := Option.some.inj hs
    exact ⟨h.onRecvCb, h.recvCallback, clears_setTask h.task id⟩

theorem Cleared.proceed (h : Cleared s) {t : ℕ} (hs : s.proceed t = some s') : Cleared s' := by
  unfold State.proceed at hs
  split at hs
  case h_1 => cases hs
  case h_2 hregistering => exact absurd hregistering (h.task t)
  case h_9 =>
    obtain rfl := Option.some.inj hs
    split_ifs <;> exact ⟨h.onRecvCb, h.recvCallback, registering_setTask h.task Task.noConfusion⟩
  case h_10 =>
    split at hs <;> obtain rfl := Option.some.inj hs <;>
      exact ⟨h.onRecvCb, h.recvCallback, registering_setTask h.task Task.noConfusion⟩
  case h_3 | h_7 =>
    obtain rfl := Option.some.inj hs
    exact ⟨h.onRecvCb, rfl, registering_setTask h.task Task.noConfusion⟩
  all_goals
    obtain rfl := Option.some.inj hs
    exact ⟨h.onRecvCb, h.recvCallback, registering_setTask h.task Task.noConfusion⟩

theorem step_registered : PreservesWhen step (fun _ a => ¬ a.Clears) Registered := by
  intro s a s' ha hs h
  cases a with
  | incoming peer data =>
    obtain rfl := Option.some.inj hs
    exact h.aside (incoming_aside peer data)
  | processInbox => exact h.aside (processInbox_cases hs).1
  | shutdown =>
    obtain rfl := Option.some.inj hs
    exact h.aside ⟨rfl, rfl, rfl⟩
  | begin t call =>
    rw [step] at hs
    split_ifs at hs
    obtain rfl := Option.some.inj hs
    exact h.begin ha
  | proceed t => exact h.proceed hs

theorem step_cleared : PreservesWhen step (fun _ a => ¬ a.Registers) Cleared := by
  intro s a s' ha hs h
  cases a with
  | incoming peer data =>
    obtain rfl := Option.some.inj hs
    exact h.aside (incoming_aside peer data)
  | processInbox => exact h.aside (processInbox_cases hs).1
  | shutdown =>
    obtain rfl := Option.some.inj hs
    exact h.aside ⟨rfl, rfl, rfl⟩
  | begin t call =>
    rw [step] at hs
    split_ifs at hs
    obtain rfl := Option.some.inj hs
    exact h.begin ha
  | proceed t => exact h.proceed hs

/-- The thread does not come back from its end. -/
theorem step_finished {a : Act} (hs : step s a = some s') (h : s.processor = .finished) :
    s'.processor = .finished := by
  rcases step_cases hs with hsame | ⟨packet, rfl⟩ | hmoved
  · rw [hsame.processor, h]
  · exact h
  · rw [State.processInbox, h] at hmoved
    cases hmoved

/-- From `s` on every packet that was settled led to a call. -/
structure Lossless (s t : State) : Prop where
  registered : Registered t
  fates : ∃ news, t.fates = s.fates ++ news ∧ ∀ fate ∈ news, fate.2.isSome
  arrived : ∃ arrivals, t.arrived = s.arrived ++ arrivals

theorem Lossless.refl (h : Registered s) : Lossless s s :=
  ⟨h, ⟨[], (List.append_nil _).symm, fun _ hf => nomatch hf⟩, ⟨[], (List.append_nil _).symm⟩⟩

theorem step_lossless {s₀ : State} : PreservesWhen step (fun _ a => ¬ a.Clears)
    fun s => s.processor = .finished ∨ Lossless s₀ s := by
  rintro s a s' ha hs (hfinished | h)
  · exact Or.inl (step_finished hs hfinished)
  obtain ⟨news, hnews, hcalled⟩ := h.fates
  obtain ⟨arrivals, harrivals⟩ := h.arrived
  have hregistered := step_registered ha hs h.registered
  rcases step_cases hs with hsame | ⟨packet, rfl⟩ | hmoved
  · exact Or.inr ⟨hregistered, ⟨news, hsame.fates.trans hnews, hcalled⟩,
      ⟨arrivals, hsame.arrived.trans harrivals⟩⟩
  · refine Or.inr ⟨hregistered, ⟨news, hnews, hcalled⟩, ⟨arrivals ++ [packet], ?_⟩⟩
    rw [← List.append_assoc]
    exact congrArg (· ++ [packet]) harrivals
  · obtain ⟨-, ⟨packet, callback, hsettles⟩ | hmoves⟩ := processInbox_cases hmoved
    · cases callback with
      | none =>
        rcases hsettles.dropped rfl with hfinished | hunset | hnone
        · exact Or.inl hfinished
        · rw [h.registered.onRecvCb] at hunset
          cases hunset
        · exact absurd hnone h.registered.recvCallback
      | some callback =>
        refine Or.inr ⟨hregistered, ⟨news ++ [(packet, some callback)], ?_, ?_⟩,
          ⟨arrivals, hsettles.arrived.trans harrivals⟩⟩
        · rw [hsettles.fates, hnews, List.append_assoc]
        · intro fate hfate
          rcases List.mem_append.mp hfate with hold | hnew
          · exact hcalled fate hold
          · obtain rfl := List.mem_singleton.mp hnew
            rfl
    · exact Or.inr ⟨hregistered, ⟨news, hmoves.fates.trans hnews, hcalled⟩,
        ⟨arrivals, hmoves.arrived.trans harrivals⟩⟩

/-- The calls that packets have led to say what the packets said. -/
theorem frames_of_called {fates : List (Packet × Option Callback)}
    (h : ∀ fate ∈ fates, fate.2.isSome) :
    (fates.filterMap Fate.call).map Call.frame = (fates.map Prod.fst).map Packet.frame := by
  induction fates with
  | nil => rfl
  | cons fate fates ih =>
    obtain ⟨packet, callback⟩ := fate
    obtain ⟨callback, rfl⟩ := Option.isSome_iff_exists.mp (h (packet, callback) List.mem_cons_self)
    have hrest := ih fun f hf => h f (List.mem_cons_of_mem _ hf)
    exact congrArg (packet.frame :: ·) hrest

/-- While a callback is registered, what is called and what is still pending are what was pending
and what has come since, in order. -/
theorem calls_conserved {more : List Act} {z : State} (h : Flow s) (hregistered : Registered s)
    (hmore : ∀ a ∈ more, ¬ a.Clears) (hr : run step s more = some z)
    (hz : z.processor ≠ .finished) :
    ∃ news arrivals, z.calls = s.calls ++ news ∧ z.arrived = s.arrived ++ arrivals ∧
      news.map Call.frame ++ z.pending.map Packet.frame =
        (s.pending ++ arrivals).map Packet.frame := by
  have hflow := step_flow.run hr h
  obtain hfinished | hlossless :=
    step_lossless.run (Meets.of_forall hmore) hr (Or.inr (Lossless.refl hregistered))
  · exact absurd hfinished hz
  obtain ⟨news, hnews, hcalled⟩ := hlossless.fates
  obtain ⟨arrivals, harrivals⟩ := hlossless.arrived
  refine ⟨news.filterMap Fate.call, arrivals, ?_, harrivals, ?_⟩
  · rw [hflow.calls, hnews, List.filterMap_append, ← h.calls]
  · have hsplit : s.pending ++ arrivals = news.map Prod.fst ++ z.pending := by
      have hboth := harrivals.symm.trans hflow.arrived
      rw [h.arrived, hnews, List.map_append, List.append_assoc, List.append_assoc] at hboth
      exact List.append_cancel_left hboth
    rw [hsplit, List.map_append, frames_of_called hcalled]

/-- The call that has been decided and not yet made. -/
def Processor.decided : Processor → ℕ
  | .copied _ _ => 1
  | _ => 0

theorem step_decided {n : ℕ} : PreservesWhen step (fun _ a => ¬ a.Registers)
    fun s => Cleared s ∧ s.calls.length + s.processor.decided ≤ n := by
  rintro s a s' ha hs ⟨hcleared, hle⟩
  refine ⟨step_cleared ha hs hcleared, ?_⟩
  rcases step_cases hs with hsame | ⟨packet, rfl⟩ | hmoved
  · rw [hsame.calls, hsame.processor]
    exact hle
  · exact hle
  · have hquiet : (∀ p c, s'.processor ≠ .copied p c) → s'.processor.decided = 0 := by
      intro h
      cases hprocessor : s'.processor with
      | copied p c => exact absurd hprocessor (h p c)
      | _ => rfl
    obtain ⟨-, ⟨packet, callback, hsettles⟩ | hmoves⟩ := processInbox_cases hmoved
    · rw [hsettles.calls, hquiet hsettles.uncopied, List.length_append]
      cases callback with
      | none => exact (Nat.le_add_right _ _).trans hle
      | some callback =>
        rw [hsettles.called callback rfl] at hle
        exact hle
    · rw [hmoves.calls, hquiet fun p c hcopied => ?_]
      · exact (Nat.le_add_right _ _).trans hle
      · have hsome := hmoves.copied p c hcopied
        rw [hcleared.recvCallback] at hsome
        cases hsome

/-- After the callback has been cleared only a call that had been decided is still made. -/
theorem calls_after_clear {more : List Act} {z : State} (hcleared : Cleared s)
    (hmore : ∀ a ∈ more, ¬ a.Registers) (hr : run step s more = some z) :
    z.calls.length ≤ s.calls.length + s.processor.decided :=
  (Nat.le_add_right _ _).trans
    (step_decided.run (Meets.of_forall hmore) hr ⟨hcleared, le_rfl⟩).2

/-- The thread alone gets from one state to the other. -/
def Drains (s z : State) : Prop := ∃ k, run step s (List.replicate k .processInbox) = some z

theorem Drains.refl (s : State) : Drains s s := ⟨0, rfl⟩

theorem Drains.cons {t z : State} (h : s.processInbox = some t) (hz : Drains t z) : Drains s z := by
  obtain ⟨k, hk⟩ := hz
  exact ⟨k + 1, run_cons_eq_some.mpr ⟨t, h, hk⟩⟩

/-- With callbacks set, a thread that waits calls for everything in the inbox. -/
theorem drains_waiting {inbox : List Packet} (hwaiting : s.processor = .waiting)
    (hinbox : s.inbox = inbox) (hset : s.onRecvCb = true) (hcallback : s.recvCallback ≠ none)
    (hsentinel : ∀ packet ∈ inbox, packet.isSentinel = false) :
    ∃ z, Drains s z ∧ z.processor = .waiting ∧ z.inbox = [] ∧ z.arrived = s.arrived := by
  induction inbox generalizing s with
  | nil => exact ⟨s, Drains.refl s, hwaiting, hinbox, rfl⟩
  | cons packet rest ih =>
    obtain ⟨callback, hsome⟩ := Option.ne_none_iff_exists'.mp hcallback
    let held : State := { s with
      inbox := rest
      processor := .holding packet }
    let copied : State := { held with processor := .copied packet callback }
    let called : State := { copied.settle packet (some callback) with
      processor := .inCallback
      calls := s.calls ++ [⟨callback, getMac packet.peerMac, packet.payload, packet.size⟩] }
    have htake : s.processInbox = some held := by
      have hfirst := hsentinel packet List.mem_cons_self
      simp [State.processInbox, hwaiting, hinbox, hset, hfirst, held]
    have hcopy : held.processInbox = some copied := by
      simp [State.processInbox, held, copied, hsome]
    have hcall : copied.processInbox = some called := rfl
    obtain ⟨z, hz, hend⟩ := ih (s := { called with processor := .waiting }) rfl rfl hset
      hcallback fun p hp => hsentinel p (List.mem_cons_of_mem _ hp)
    exact ⟨z, ((hz.cons (s := called) rfl).cons hcall).cons hcopy |>.cons htake, hend⟩

/-- A registered thread that has not ended gets through the inbox. -/
theorem drains (hregistered : Registered s) (hprocessor : s.processor ≠ .finished)
    (hsentinel : ∀ packet ∈ s.inbox, packet.isSentinel = false) :
    ∃ z, Drains s z ∧ z.processor = .waiting ∧ z.inbox = [] ∧ z.arrived = s.arrived := by
  obtain ⟨hset, hcallback, -⟩ := hregistered
  obtain ⟨callback, hsome⟩ := Option.ne_none_iff_exists'.mp hcallback
  have hin : ∀ {t : State}, t.processor = .inCallback → t.inbox = s.inbox →
      t.onRecvCb = true → t.recvCallback ≠ none → t.arrived = s.arrived →
      ∃ z, Drains t z ∧ z.processor = .waiting ∧ z.inbox = [] ∧ z.arrived = s.arrived := by
    intro t hin hinbox hset hcallback harrived
    obtain ⟨z, hz, hend⟩ := drains_waiting (s := { t with processor := .waiting }) rfl hinbox hset
      hcallback hsentinel
    refine ⟨z, hz.cons ?_, hend.1, hend.2.1, hend.2.2.trans harrived⟩
    rw [State.processInbox, hin]
  have hcopied : ∀ {t : State} {packet : Packet} {c : Callback},
      t.processor = .copied packet c → t.inbox = s.inbox →
      t.onRecvCb = true → t.recvCallback ≠ none → t.arrived = s.arrived →
      ∃ z, Drains t z ∧ z.processor = .waiting ∧ z.inbox = [] ∧ z.arrived = s.arrived := by
    intro t packet c hcopied hinbox hset hcallback harrived
    obtain ⟨z, hz, hend⟩ := hin (t := { t.settle packet (some c) with
      processor := .inCallback
      calls := t.calls ++ [⟨c, getMac packet.peerMac, packet.payload, packet.size⟩] })
      rfl hinbox hset hcallback harrived
    refine ⟨z, hz.cons ?_, hend⟩
    rw [State.processInbox, hcopied]
  cases hp : s.processor with
  | waiting => exact drains_waiting hp rfl hset hcallback hsentinel
  | holding packet =>
    obtain ⟨z, hz, hend⟩ := hcopied (t := { s with processor := .copied packet callback }) rfl rfl
      hset hcallback rfl
    refine ⟨z, hz.cons ?_, hend⟩
    rw [State.processInbox, hp]
    dsimp only
    rw [hsome]
  | copied packet c => exact hcopied hp rfl hset hcallback rfl
  | inCallback => exact hin hp rfl hset hcallback rfl
  | finished => exact absurd hp hprocessor

/-- In every run: each packet that came is settled or pending, in the order in which they came, and
the calls are those of settled packets; while a callback stays registered nothing is lost or
reordered; once it has been cleared only a call that had been decided is still made; and a
registered thread that is left alone calls for everything that is pending. -/
theorem packets_delivered {acts : List Act} (hr : run step (start devices) acts = some s) :
    (s.arrived = s.fates.map Prod.fst ++ s.pending ∧ s.calls = s.fates.filterMap Fate.call) ∧
    (Registered s → ∀ more z, (∀ a ∈ more, ¬ a.Clears) → run step s more = some z →
      z.processor ≠ .finished →
      ∃ news arrivals, z.calls = s.calls ++ news ∧ z.arrived = s.arrived ++ arrivals ∧
        news.map Call.frame ++ z.pending.map Packet.frame =
          (s.pending ++ arrivals).map Packet.frame) ∧
    (Cleared s → ∀ more z, (∀ a ∈ more, ¬ a.Registers) → run step s more = some z →
      z.calls.length ≤ s.calls.length + s.processor.decided) ∧
    (Registered s → s.processor ≠ .finished →
      (∀ packet ∈ s.inbox, packet.isSentinel = false) →
      ∃ k z, run step s (List.replicate k .processInbox) = some z ∧
        z.calls.map Call.frame = s.calls.map Call.frame ++ s.pending.map Packet.frame) := by
  have h : Flow s := step_flow.run hr flow_start
  refine ⟨⟨h.arrived, h.calls⟩, ?_, ?_, ?_⟩
  · exact fun hregistered more z hmore hrun hz => calls_conserved h hregistered hmore hrun hz
  · exact fun hcleared more z hmore hrun => calls_after_clear hcleared hmore hrun
  · intro hregistered hprocessor hsentinel
    obtain ⟨z, ⟨k, hk⟩, hwaiting, hinbox, harrived⟩ := drains hregistered hprocessor hsentinel
    have hpending : z.pending = [] := by simp [State.pending, hwaiting, hinbox, Processor.packet]
    have hmore : ∀ a ∈ List.replicate k Act.processInbox, ¬ a.Clears := by
      intro a ha
      rw [List.eq_of_mem_replicate ha]
      exact id
    have hz : z.processor ≠ .finished := by simp [hwaiting]
    obtain ⟨news, arrivals, hcalls, hmade, hframes⟩ :=
      calls_conserved h hregistered hmore hk hz
    have hnone : arrivals = [] := List.self_eq_append_right.mp (harrived.symm.trans hmade)
    refine ⟨k, z, hk, ?_⟩
    rw [hpending, hnone, List.append_nil, List.map_nil, List.append_nil] at hframes
    rw [hcalls, List.map_append, hframes]

/-- Two packets come before the callback is registered and one after. -/
def lateRegistration : List Act :=
  [.incoming 7 [1], .processInbox, .incoming 7 [2, 3], .begin 0 (.registerRecv (some 5)),
    .proceed 0, .incoming 9 [4], .processInbox, .processInbox, .processInbox, .processInbox]

/-- The first one is dropped, the second one called for and the third one pending. -/
theorem packets_delivered_lateRegistration :
    ∃ s, run step (start [7, 9]) lateRegistration = some s ∧
      s.calls.map Call.data = [[2, 3]] ∧ s.pending.map Packet.payload = [[4]] ∧
      s.arrived = s.fates.map Prod.fst ++ s.pending := by
  have hrun : run step (start [7, 9]) lateRegistration =
      some ((run step (start [7, 9]) lateRegistration).get (by decide)) :=
    (Option.some_get _).symm
  exact ⟨_, hrun, by decide, by decide, (packets_delivered hrun).1.1⟩

end RooTesting.EspNow
