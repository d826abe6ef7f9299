import RooTesting.Lifecycles
import RooTesting.Transition
import Mathlib.Data.Fintype.EquivFin
import Mathlib.Data.List.FinRange
import Mathlib.Logic.Function.Basic
import Mathlib.Tactic.Cases

/-! # Events of the host

A native thread marks an endpoint as pending. The tick hook wakes the gateway task, which calls
the handlers of the endpoints that are pending. Tasks connect and disconnect endpoints meanwhile;
a disconnection waits for the pass of the gateway under the delivery mutex. -/
namespace RooTesting.HostEvents
open Transition Lifecycles

def kEndpointCapacity : ℕ := 32

inductive HostEventConnectResult where
  | kConnected | kAlreadyConnected | kNoCapacity | kWrongContext
  deriving DecidableEq

/-- A handler and its context. -/
abbrev Callback := ℕ × ℕ

structure HostEventEndpoint where
  pending : Bool := false
  handler : Option Callback := none
  slot : Option (Fin kEndpointCapacity) := none
  deriving DecidableEq

/-- What happens to an endpoint. The gateway takes the pending flag before it calls. -/
inductive Mark where
  | notify
  | connect (callback : Callback)
  | disconnect
  | take
  | call (callback : Callback)
  deriving DecidableEq

/-- Where the gateway task is: `scan i` is the head of its loop, at the endpoint of slot `i`. -/
inductive Gateway where
  | waiting
  | locking
  | scan (i : ℕ)
  | loaded (i e : ℕ)
  | calling (i e : ℕ)
  | inHandler (i : ℕ)
  deriving DecidableEq

/-- Where a task is in `disconnect`. -/
inductive Task where
  | idle
  | locking (e : ℕ)
  | clearing (e : ℕ)
  | giving
  deriving DecidableEq

inductive Holder where
  | gateway
  | task (t : ℕ)
  deriving DecidableEq

structure State where
  endpoints : Fin kEndpointCapacity → Option ℕ
  endpoint : ℕ → HostEventEndpoint
  deliveryMutex : Bool
  holder : Option Holder
  gatewayTask : Bool
  notified : BitVec 32
  gateway : Gateway
  task : ℕ → Task
  log : List (Entry ℕ Mark)

def start : State where
  endpoints := fun _ => none
  endpoint := fun _ => {}
  deliveryMutex := false
  holder := none
  gatewayTask := false
  notified := 0
  gateway := .waiting
  task := fun _ => .idle
  log := []

namespace State

variable (s : State)

def setEndpoint (e : ℕ) (x : HostEventEndpoint) : State :=
  { s with endpoint := Function.update s.endpoint e x }

def setTask (t : ℕ) (x : Task) : State := { s with task := Function.update s.task t x }

def mark (e : ℕ) (m : Mark) : State := { s with log := ⟨e, m⟩ :: s.log }

/-- Whether the mutex and the task could be made is said by the caller. -/
def startIfNeeded (mutexMade taskMade : Bool) : Bool × State :=
  if s.gatewayTask then (true, s)
  else if mutexMade then
    (taskMade,
      { s with
        deliveryMutex := true
        holder := none
        gatewayTask := taskMade
        notified := 0
        gateway := .waiting })
  else (false, { s with deliveryMutex := false })

/-- The loop of `connect` over the slots. -/
def freeSlot : Option (Fin kEndpointCapacity) :=
  (List.finRange kEndpointCapacity).find? fun i => (s.endpoints i).isNone

/-- `connect`, which is one critical section once the context and the handler are right. -/
def connect (inTask : Bool) (e : ℕ) (handler : Option ℕ) (context : ℕ) (mutexMade taskMade : Bool) :
    HostEventConnectResult × State :=
  match handler with
  | none => (.kWrongContext, s)
  | some handler =>
    if inTask = false then (.kWrongContext, s)
    else if (s.endpoint e).slot.isSome then (.kAlreadyConnected, s)
    else
      match s.startIfNeeded mutexMade taskMade with
      | (false, s) => (.kNoCapacity, s)
      | (true, s) =>
        match s.freeSlot with
        | none => (.kNoCapacity, s)
        | some i =>
          (.kConnected,
            { s.setEndpoint e ⟨false, some (handler, context), some i⟩ with
              endpoints := Function.update s.endpoints i (some e) }.mark e
                (.connect (handler, context)))

/-- The critical section of `disconnect`. -/
def clear (e : ℕ) : State :=
  match (s.endpoint e).slot with
  | none => s
  | some i =>
    { s.setEndpoint e {} with endpoints := Function.update s.endpoints i none }.mark e .disconnect

def notifyFromHost (e : ℕ) : State :=
  (s.setEndpoint e { s.endpoint e with pending := true }).mark e .notify

/-- Some endpoint of the table is pending. -/
def due : Bool :=
  (List.finRange kEndpointCapacity).any fun i =>
    match s.endpoints i with
    | none => false
    | some e => (s.endpoint e).pending

def onTick : State :=
  if s.gatewayTask = false then s
  else if s.due then { s with notified := s.notified + 1 }
  else s

/-- The next step of the gateway task. It would call a null pointer for an endpoint without a
handler. -/
def deliver : Option State :=
  match s.gateway with
  | .waiting =>
    if s.gatewayTask = false ∨ s.notified = 0 then none
    else some { s with notified := 0, gateway := .locking }
  | .locking =>
    if s.holder = none then some { s with holder := some .gateway, gateway := .scan 0 } else none
  | .scan i =>
    if h : i < kEndpointCapacity then
      match s.endpoints ⟨i, h⟩ with
      | none => some { s with gateway := .scan (i + 1) }
      | some e => some { s with gateway := .loaded i e }
    else some { s with holder := none, gateway := .waiting }
  | .loaded i e =>
    if (s.endpoint e).pending then
      some ({ s.setEndpoint e { s.endpoint e with pending := false } with
        gateway := .calling i e }.mark e .take)
    else some { s with gateway := .scan (i + 1) }
  | .calling i e =>
    (s.endpoint e).handler.map fun callback =>
      { s with gateway := .inHandler i }.mark e (.call callback)
  | .inHandler i => some { s with gateway := .scan (i + 1) }

end State

/-- A call of a task, a step of one that disconnects, a step of the gateway, the tick interrupt or
a native thread. -/
inductive Act where
  | connect (t : ℕ) (inTask : Bool) (e : ℕ) (handler : Option ℕ) (context : ℕ)
      (mutexMade taskMade : Bool)
  | disconnect (t : ℕ) (inTask : Bool) (e : ℕ)
  | lock (t : ℕ)
  | clear (t : ℕ)
  | give (t : ℕ)
  | notifyFromHost (e : ℕ)
  | tick
  | gateway
  deriving DecidableEq

def step (s : State) : Act → Option State
  | .connect t inTask e handler context mutexMade taskMade =>
    if s.task t = .idle then some (s.connect inTask e handler context mutexMade taskMade).2
    else none
  | .disconnect t inTask e =>
    if s.task t ≠ .idle then none
    else if inTask = false ∨ (s.endpoint e).slot = none then some s
    else some (s.setTask t (.locking e))
  | .lock t =>
    match s.task t with
    | .locking e =>
      if s.holder = none then some { s.setTask t (.clearing e) with holder := some (.task t) }
      else none
    | _ => none
  | .clear t =>
    match s.task t with
    | .clearing e => some ((s.clear e).setTask t .giving)
    | _ => none
  | .give t =>
    match s.task t with
    | .giving => some { s.setTask t .idle with holder := none }
    | _ => none
  | .notifyFromHost e => some (s.notifyFromHost e)
  | .tick => some s.onTick
  | .gateway => s.deliver

/-- What the marks on an endpoint leave behind. A notification is `owed` until it is taken, and a
call is due from then on. -/
structure Life where
  handler : Option Callback
  owed : Bool
  taken : Bool
  deriving DecidableEq

namespace Life

def new : Life := ⟨none, false, false⟩

/-- A connection and a disconnection forget what is owed. Nothing else does, and no call comes
without a notification. -/
def next (life : Life) : Mark → Option Life
  | .notify => some { life with owed := true }
  | .connect callback =>
    if life.handler = none ∧ life.taken = false then some ⟨some callback, false, false⟩ else none
  | .disconnect => if life.handler ≠ none ∧ life.taken = false then some new else none
  | .take =>
    if life.handler ≠ none ∧ life.owed = true ∧ life.taken = false then
      some { life with owed := false, taken := true }
    else none
  | .call callback =>
    if life.handler = some callback ∧ life.taken = true then some { life with taken := false }
    else none

end Life

def notifications (marks : List Mark) : ℕ := marks.count .notify

def calls (marks : List Mark) : ℕ := marks.countP fun m => m matches .call _

/-- There are no more calls than notifications. -/
theorem calls_le {marks : List Mark} {life : Life}
    (h : replay Life.next Life.new marks = some life) :
    calls marks + life.owed.toNat + life.taken.toNat ≤ notifications marks := by
  refine replay_induction
    (P := fun marks life =>
      calls marks + life.owed.toNat + life.taken.toNat ≤ notifications marks) ?_ ?_ h
  · exact Nat.le_refl 0
  · intro marks life m life' hle hnext
    have howed := life.owed.toNat_le
    cases m <;>
      simp only [Life.next, Option.ite_none_right_eq_some, Option.some.injEq] at hnext <;>
      simp only [calls, notifications, List.countP_cons, List.count_cons] at hle ⊢
    case notify =>
      obtain rfl := hnext
      simp
      omega
    case connect =>
      obtain ⟨-, rfl⟩ := hnext
      simp
      omega
    case disconnect =>
      obtain ⟨-, rfl⟩ := hnext
      simp [Life.new]
      omega
    case take =>
      obtain ⟨⟨-, howed, htaken⟩, rfl⟩ := hnext
      simp [howed, htaken] at hle ⊢
      omega
    case call =>
      obtain ⟨⟨-, htaken⟩, rfl⟩ := hnext
      simp [htaken] at hle ⊢
      omega

namespace Gateway

/-- Within the delivery mutex. -/
def Inside : Gateway → Prop
  | .waiting | .locking => False
  | _ => True

/-- The slot and the endpoint that the loop is at. -/
def current : Gateway → Option (ℕ × ℕ)
  | .loaded i e | .calling i e => some (i, e)
  | _ => none

/-- The endpoint whose call is due. -/
def dueCall : Gateway → Option ℕ
  | .calling _ e => some e
  | _ => none

end Gateway

def Task.Holds : Task → Prop
  | .clearing _ | .giving => True
  | _ => False

def lifeOf (s : State) (e : ℕ) : Life :=
  ⟨(s.endpoint e).handler, (s.endpoint e).pending, s.gateway.dueCall == some e⟩

structure Inv (s : State) : Prop where
  slots : ∀ i e, s.endpoints i = some e ↔ (s.endpoint e).slot = some i
  handler : ∀ e, (s.endpoint e).handler = none ↔ (s.endpoint e).slot = none
  unstarted : s.gatewayTask = false →
    (∀ i, s.endpoints i = none) ∧ s.gateway = .waiting ∧ s.holder = none ∧ ∀ t, s.task t = .idle
  gatewayHolds : s.holder = some .gateway ↔ s.gateway.Inside
  taskHolds : ∀ t, s.holder = some (.task t) ↔ (s.task t).Holds
  current : ∀ i e, s.gateway.current = some (i, e) →
    (s.endpoint e).slot.map Fin.val = some i
  lives : ∀ e, replay Life.next Life.new (marksOf e s.log) = some (lifeOf s e)

theorem inv_start : Inv start where
  slots := fun i e => by simp [start]
  handler := fun e => by simp [start]
  unstarted := fun _ => ⟨fun _ => rfl, rfl, rfl, fun _ => rfl⟩
  gatewayHolds := by simp [start, Gateway.Inside]
  taskHolds := fun t => by simp [start, Task.Holds]
  current := fun i e h => by cases h
  lives := fun e => rfl

variable {s s' : State} {e : ℕ} {m : Mark}

/-- A mark moves one life on. -/
theorem Inv.lives_mark (h : Inv s) (hlog : s'.log = ⟨e, m⟩ :: s.log)
    (hnext : (lifeOf s e).next m = some (lifeOf s' e))
    (hothers : ∀ e', e' ≠ e → lifeOf s' e' = lifeOf s e') (e' : ℕ) :
    replay Life.next Life.new (marksOf e' s'.log) = some (lifeOf s' e') := by
  rw [hlog]
  by_cases he : e' = e
  · subst he
    rw [marksOf_cons_self]
    exact replay_cons (h.lives e') hnext
  · rw [marksOf_cons_of_ne (Ne.symm he), hothers e' he]
    exact h.lives e'

theorem lifeOf_setEndpoint_ne {e' : ℕ} (x : HostEventEndpoint) (he : e' ≠ e) :
    lifeOf (s.setEndpoint e x) e' = lifeOf s e' := by
  simp only [lifeOf, State.setEndpoint, Function.update_of_ne he]

/-- No pass is at an endpoint that is not connected. -/
theorem Inv.not_current (h : Inv s) (hslot : (s.endpoint e).slot = none) (i : ℕ) :
    s.gateway.current ≠ some (i, e) := by
  intro hcurrent
  have := h.current i e hcurrent
  rw [hslot] at this
  cases this

theorem current_of_dueCall {g : Gateway} (h : g.dueCall = some e) : ∃ i, g.current = some (i, e) := by
  cases g with
  | calling i e' =>
    cases h
    exact ⟨i, rfl⟩
  | _ => cases h

theorem Inv.not_dueCall (h : Inv s) (hslot : (s.endpoint e).slot = none) :
    s.gateway.dueCall ≠ some e := by
  intro hdue
  obtain ⟨i, hcurrent⟩ := current_of_dueCall hdue
  exact h.not_current hslot i hcurrent

theorem Inv.gatewayTask_of_slot (h : Inv s) (hslot : (s.endpoint e).slot ≠ none) :
    s.gatewayTask = true := by
  by_contra hnot
  obtain ⟨i, hi⟩ := Option.ne_none_iff_exists'.mp hslot
  have hnone := (h.unstarted (by simpa using hnot)).1 i
  rw [(h.slots i e).mpr hi] at hnone
  cases hnone

section Connect

variable {inTask : Bool} {handler : Option ℕ} {context : ℕ} {mutexMade taskMade : Bool}

@[simp] theorem startIfNeeded_endpoint :
    (s.startIfNeeded mutexMade taskMade).2.endpoint = s.endpoint := by
  unfold State.startIfNeeded
  split_ifs <;> rfl

theorem startIfNeeded_started (hok : (s.startIfNeeded mutexMade taskMade).1 = true) :
    (s.startIfNeeded mutexMade taskMade).2.gatewayTask = true := by
  unfold State.startIfNeeded at hok ⊢
  split_ifs at hok ⊢ with hstarted hmutex
  · exact hstarted
  · exact hok

/-- Where there is no gateway task there is nothing to disturb. -/
theorem Inv.startIfNeeded (h : Inv s) : Inv (s.startIfNeeded mutexMade taskMade).2 := by
  unfold State.startIfNeeded
  split_ifs with hstarted hmutex
  · exact h
  · obtain ⟨hnone, hgateway, hholder, hidle⟩ := h.unstarted (by simpa using hstarted)
    constructor
    · exact h.slots
    · exact h.handler
    · exact fun _ => ⟨hnone, rfl, rfl, hidle⟩
    · simp [Gateway.Inside]
    · intro t
      simp [hidle t, Task.Holds]
    · exact fun i e hcurrent => by cases hcurrent
    · intro e
      have hlife := h.lives e
      rw [lifeOf, hgateway] at hlife
      exact hlife
  · exact ⟨h.slots, h.handler, h.unstarted, h.gatewayHolds, h.taskHolds, h.current, h.lives⟩

theorem freeSlot_some {i : Fin kEndpointCapacity} (h : s.freeSlot = some i) :
    s.endpoints i = none := by
  simpa using List.find?_some h

theorem freeSlot_none (h : s.freeSlot = none) (i : Fin kEndpointCapacity) :
    ∃ e, s.endpoints i = some e := by
  have := List.find?_eq_none.mp h i (List.mem_finRange i)
  exact Option.ne_none_iff_exists'.mp (by simpa using this)

/-- A free slot is filled. -/
theorem Inv.fill (h : Inv s) (hstarted : s.gatewayTask = true) (hslot : (s.endpoint e).slot = none)
    {i : Fin kEndpointCapacity} (hfree : s.endpoints i = none) (callback : Callback) :
    Inv ({ s.setEndpoint e ⟨false, some callback, some i⟩ with
      endpoints := Function.update s.endpoints i (some e) }.mark e (.connect callback)) := by
  have hunused : ∀ e', (s.endpoint e').slot ≠ some i := by
    intro e' he'
    rw [(h.slots i e').mpr he'] at hfree
    cases hfree
  constructor
  · intro i' e'
    simp only [State.mark, State.setEndpoint, Function.update_apply]
    split_ifs with hi he he
    · simp [hi, he]
    · subst hi
      simp [Ne.symm he, hunused e']
    · rw [h.slots, he]
      simp [hslot, Ne.symm hi]
    · exact h.slots i' e'
  · intro e'
    simp only [State.mark, State.setEndpoint, Function.update_apply]
    split_ifs
    · simp
    · exact h.handler e'
  · intro hnot
    cases hstarted.symm.trans hnot
  · exact h.gatewayHolds
  · exact h.taskHolds
  · intro i' e' hcurrent
    have hne : e' ≠ e := fun heq => h.not_current hslot i' (heq ▸ hcurrent)
    simp only [State.mark, State.setEndpoint, Function.update_of_ne hne]
    exact h.current i' e' hcurrent
  · refine h.lives_mark rfl ?_ fun e' he' => lifeOf_setEndpoint_ne _ he'
    have hnone := (h.handler e).mpr hslot
    have hdue := h.not_dueCall hslot
    simp [lifeOf, Life.next, State.mark, State.setEndpoint, hnone, hdue]

theorem Inv.connect (h : Inv s) :
    Inv (s.connect inTask e handler context mutexMade taskMade).2 := by
  unfold State.connect
  cases handler with
  | none => exact h
  | some handler =>
    have hstart : Inv (s.startIfNeeded mutexMade taskMade).2 := h.startIfNeeded
    have hendpoint : (s.startIfNeeded mutexMade taskMade).2.endpoint = s.endpoint :=
      startIfNeeded_endpoint
    have hok : (s.startIfNeeded mutexMade taskMade).1 = true →
        (s.startIfNeeded mutexMade taskMade).2.gatewayTask = true := startIfNeeded_started
    dsimp only
    split_ifs with htask hslot
    · exact h
    · exact h
    · split
      next s' heq =>
        rw [heq] at hstart
        exact hstart
      next s' heq =>
        rw [heq] at hstart hendpoint hok
        split
        next => exact hstart
        next i hfree =>
          refine hstart.fill (hok rfl) ?_ (freeSlot_some hfree) _
          rw [show s'.endpoint = s.endpoint from hendpoint]
          simpa using hslot

end Connect

/-- A disconnection waits until no pass is under way. -/
theorem Inv.clear (h : Inv s) (hinside : ¬s.gateway.Inside) (e : ℕ) : Inv (s.clear e) := by
  have hcurrent : s.gateway.current = none := by
    cases hg : s.gateway <;> simp_all [Gateway.Inside, Gateway.current]
  have hdue : s.gateway.dueCall = none := by
    cases hg : s.gateway <;> simp_all [Gateway.Inside, Gateway.dueCall]
  unfold State.clear
  split
  next => exact h
  next i hslot =>
    have hconnected : (s.endpoint e).handler ≠ none := by
      rw [Ne, h.handler e, hslot]
      exact Option.some_ne_none i
    constructor
    · intro i' e'
      simp only [State.mark, State.setEndpoint, Function.update_apply]
      split_ifs with hi he he
      · simp
      · subst hi
        simp only [false_iff]
        intro he'
        exact he (Option.some.inj (((h.slots _ e').mpr he').symm.trans ((h.slots _ e).mpr hslot)))
      · rw [h.slots, he, hslot]
        simp [Ne.symm hi]
      · exact h.slots i' e'
    · intro e'
      simp only [State.mark, State.setEndpoint, Function.update_apply]
      split_ifs
      · simp
      · exact h.handler e'
    · intro hnot
      have hstarted := h.gatewayTask_of_slot (e := e) (by simp [hslot])
      cases hstarted.symm.trans hnot
    · exact h.gatewayHolds
    · exact h.taskHolds
    · intro i' e' heq
      cases hcurrent.symm.trans heq
    · refine h.lives_mark rfl ?_ fun e' he' => lifeOf_setEndpoint_ne _ he'
      simp [lifeOf, Life.next, Life.new, State.mark, State.setEndpoint, hconnected, hdue]

theorem Inv.notifyFromHost (h : Inv s) (e : ℕ) : Inv (s.notifyFromHost e) := by
  have hsame : ∀ e', ((s.notifyFromHost e).endpoint e').slot = (s.endpoint e').slot ∧
      ((s.notifyFromHost e).endpoint e').handler = (s.endpoint e').handler := by
    intro e'
    simp only [State.notifyFromHost, State.mark, State.setEndpoint, Function.update_apply]
    split_ifs with he
    · exact he ▸ ⟨rfl, rfl⟩
    · exact ⟨rfl, rfl⟩
  constructor
  · intro i e'
    rw [(hsame e').1]
    exact h.slots i e'
  · intro e'
    rw [(hsame e').1, (hsame e').2]
    exact h.handler e'
  · exact h.unstarted
  · exact h.gatewayHolds
  · exact h.taskHolds
  · intro i e' hcurrent
    rw [(hsame e').1]
    exact h.current i e' hcurrent
  · refine h.lives_mark rfl ?_ fun e' he' => lifeOf_setEndpoint_ne _ he'
    simp [lifeOf, Life.next, State.notifyFromHost, State.mark, State.setEndpoint]

theorem Inv.onTick (h : Inv s) : Inv s.onTick := by
  unfold State.onTick
  split_ifs
  · exact h
  · exact ⟨h.slots, h.handler, h.unstarted, h.gatewayHolds, h.taskHolds, h.current, h.lives⟩
  · exact h

/-- The gateway moves on without touching an endpoint. -/
theorem Inv.move (h : Inv s) {g : Gateway} {holder : Option Holder} {notified : BitVec 32}
    (hstarted : s.gatewayTask = true)
    (hgateway : holder = some .gateway ↔ g.Inside)
    (htask : ∀ t, holder = some (.task t) ↔ s.holder = some (.task t))
    (hcurrent : ∀ i e, g.current = some (i, e) → (s.endpoint e).slot.map Fin.val = some i)
    (hdue : g.dueCall = s.gateway.dueCall) :
    Inv { s with gateway := g, holder := holder, notified := notified } where
  slots := h.slots
  handler := h.handler
  unstarted := fun hnot => by cases hstarted.symm.trans hnot
  gatewayHolds := hgateway
  taskHolds := fun t => (htask t).trans (h.taskHolds t)
  current := hcurrent
  lives := fun e => by
    have hlife := h.lives e
    rw [lifeOf, ← hdue] at hlife
    exact hlife

/-- The pending flag is taken. -/
theorem Inv.take (h : Inv s) {i : ℕ} (hgateway : s.gateway = .loaded i e)
    (hpending : (s.endpoint e).pending = true) :
    Inv ({ s.setEndpoint e { s.endpoint e with pending := false } with
      gateway := .calling i e }.mark e .take) := by
  have hcurrent := h.current i e (by rw [hgateway]; rfl)
  have hconnected : (s.endpoint e).handler ≠ none := by
    rw [Ne, h.handler e]
    intro hnone
    rw [hnone] at hcurrent
    cases hcurrent
  have hsame : ∀ e', (Function.update s.endpoint e { s.endpoint e with pending := false } e').slot =
      (s.endpoint e').slot := by
    intro e'
    by_cases he : e' = e
    · simp [he]
    · rw [Function.update_of_ne he]
  constructor
  · intro i' e'
    exact (h.slots i' e').trans (by rw [← hsame e']; rfl)
  · intro e'
    simp only [State.mark, State.setEndpoint, Function.update_apply]
    split_ifs with he
    · exact h.handler e
    · exact h.handler e'
  · intro hnot
    have hwaiting := (h.unstarted hnot).2.1
    rw [hgateway] at hwaiting
    cases hwaiting
  · refine h.gatewayHolds.trans ?_
    rw [hgateway]
    exact Iff.rfl
  · exact h.taskHolds
  · rintro i' e' heq
    cases heq
    exact (congrArg (Option.map Fin.val) (hsame e)).trans hcurrent
  · refine h.lives_mark rfl ?_ fun e' he' => ?_
    · simp [lifeOf, Life.next, State.mark, State.setEndpoint, hconnected, hpending, hgateway,
        Gateway.dueCall]
    · simp [lifeOf, State.mark, State.setEndpoint, Function.update_of_ne he', hgateway,
        Gateway.dueCall, Ne.symm he']

/-- The handler of the connection is the one that is called. -/
theorem Inv.call (h : Inv s) {i : ℕ} (hgateway : s.gateway = .calling i e) {callback : Callback}
    (hcallback : (s.endpoint e).handler = some callback) :
    Inv ({ s with gateway := .inHandler i }.mark e (.call callback)) := by
  constructor
  · exact h.slots
  · exact h.handler
  · intro hnot
    have hwaiting := (h.unstarted hnot).2.1
    rw [hgateway] at hwaiting
    cases hwaiting
  · refine h.gatewayHolds.trans ?_
    rw [hgateway]
    exact Iff.rfl
  · exact h.taskHolds
  · exact fun i' e' heq => by cases heq
  · refine h.lives_mark rfl ?_ fun e' he' => ?_
    · simp [lifeOf, Life.next, State.mark, hcallback, hgateway, Gateway.dueCall]
    · simp [lifeOf, State.mark, hgateway, Gateway.dueCall, Ne.symm he']

/-- Inside of a pass the gateway has been started. -/
theorem Inv.started_of_ne (h : Inv s) (hgateway : s.gateway ≠ .waiting) : s.gatewayTask = true := by
  by_contra hnot
  exact hgateway (h.unstarted (by simpa using hnot)).2.1

theorem Inv.deliver (h : Inv s) (hs : s.deliver = some s') : Inv s' := by
  have hinside := h.gatewayHolds
  unfold State.deliver at hs
  cases hg : s.gateway with
  | waiting =>
    rw [hg] at hs hinside
    simp only [Option.ite_none_left_eq_some, Option.some.injEq, not_or] at hs
    obtain ⟨⟨hstarted, -⟩, rfl⟩ := hs
    refine h.move (by simpa using hstarted) ?_ (fun t => Iff.rfl) (fun i e heq => by cases heq) ?_
    · exact hinside
    · rw [hg]
      rfl
  | locking =>
    rw [hg] at hs hinside
    simp only [Option.ite_none_right_eq_some, Option.some.injEq] at hs
    obtain ⟨hfree, rfl⟩ := hs
    refine h.move (h.started_of_ne (by simp [hg])) ?_ ?_ (fun i e heq => by cases heq) ?_
    · simp [Gateway.Inside]
    · intro t
      simp [hfree]
    · rw [hg]
      rfl
  | scan i =>
    have hstarted := h.started_of_ne (by simp [hg])
    rw [hg] at hs hinside
    dsimp only at hs
    split_ifs at hs with hi
    · cases he : s.endpoints ⟨i, hi⟩ with
      | none =>
        rw [he] at hs
        obtain rfl := Option.some.inj hs
        refine h.move hstarted ?_ (fun t => Iff.rfl) (fun i e heq => by cases heq) ?_
        · exact hinside
        · rw [hg]
          rfl
      | some e =>
        rw [he] at hs
        obtain rfl := Option.some.inj hs
        refine h.move hstarted ?_ (fun t => Iff.rfl) ?_ ?_
        · exact hinside
        · rintro i' e' heq
          cases heq
          rw [(h.slots _ _).mp he]
          rfl
        · rw [hg]
          rfl
    · obtain rfl := Option.some.inj hs
      refine h.move hstarted ?_ ?_ (fun i e heq => by cases heq) ?_
      · simp [Gateway.Inside]
      · intro t
        simp [hinside.mpr trivial]
      · rw [hg]
        rfl
  | loaded i e =>
    rw [hg] at hs
    dsimp only at hs
    split_ifs at hs with hpending
    · obtain rfl := Option.some.inj hs
      exact h.take hg hpending
    · obtain rfl := Option.some.inj hs
      refine h.move (h.started_of_ne (by simp [hg])) ?_ (fun t => Iff.rfl)
        (fun i e heq => by cases heq) ?_
      · rw [hg] at hinside
        exact hinside
      · rw [hg]
        rfl
  | calling i e =>
    rw [hg] at hs
    obtain ⟨callback, hcallback, rfl⟩ := Option.map_eq_some_iff.mp hs
    exact h.call hg hcallback
  | inHandler i =>
    rw [hg] at hs hinside
    obtain rfl := Option.some.inj hs
    refine h.move (h.started_of_ne (by simp [hg])) ?_ (fun t => Iff.rfl)
      (fun i e heq => by cases heq) ?_
    · exact hinside
    · rw [hg]
      rfl

/-- A task moves on in `disconnect`. -/
theorem Inv.setTask (h : Inv s) {t : ℕ} {x : Task} {holder : Option Holder}
    (hstarted : s.gatewayTask = true)
    (hgateway : holder = some .gateway ↔ s.holder = some .gateway)
    (hx : holder = some (.task t) ↔ x.Holds)
    (hothers : ∀ u, u ≠ t → (holder = some (.task u) ↔ s.holder = some (.task u))) :
    Inv { s.setTask t x with holder := holder } where
  slots := h.slots
  handler := h.handler
  unstarted := fun hnot => by cases hstarted.symm.trans hnot
  gatewayHolds := hgateway.trans h.gatewayHolds
  taskHolds := fun u => by
    by_cases hu : u = t
    · subst hu
      simpa [State.setTask] using hx
    · simp only [State.setTask, Function.update_of_ne hu]
      exact (hothers u hu).trans (h.taskHolds u)
  current := h.current
  lives := h.lives

theorem Inv.started_of_task (h : Inv s) {t : ℕ} (htask : s.task t ≠ .idle) :
    s.gatewayTask = true := by
  by_contra hnot
  exact htask ((h.unstarted (by simpa using hnot)).2.2.2 t)

theorem step_keeps : Preserves step Inv := by
  intro s a s' hs h
  cases a with
  | connect t inTask e handler context mutexMade taskMade =>
    simp only [step, Option.ite_none_right_eq_some, Option.some.injEq] at hs
    obtain ⟨-, rfl⟩ := hs
    exact h.connect
  | disconnect t inTask e =>
    simp only [step, Option.ite_none_left_eq_some, not_not] at hs
    obtain ⟨hidle, hs⟩ := hs
    split_ifs at hs with hnone
    · obtain rfl := Option.some.inj hs
      exact h
    · obtain rfl := Option.some.inj hs
      have hnot : s.holder ≠ some (.task t) := by
        rw [Ne, h.taskHolds t, hidle]
        exact id
      refine h.setTask (h.gatewayTask_of_slot (e := e) (not_or.mp hnone).2) Iff.rfl ?_
        fun u _ => Iff.rfl
      exact iff_of_false hnot id
  | lock t =>
    cases htask : s.task t with
    | locking e =>
      simp only [step, htask, Option.ite_none_right_eq_some, Option.some.injEq] at hs
      obtain ⟨hfree, rfl⟩ := hs
      refine h.setTask (h.started_of_task (t := t) (by simp [htask])) ?_ ?_ ?_
      · simp [hfree]
      · simp [Task.Holds]
      · intro u hu
        simp [hfree, Ne.symm hu]
    | _ => simp [step, htask] at hs
  | clear t =>
    cases htask : s.task t with
    | clearing e =>
      simp only [step, htask, Option.some.injEq] at hs
      obtain rfl := hs
      have hholder : s.holder = some (.task t) := (h.taskHolds t).mpr (by simp [htask, Task.Holds])
      have hinside : ¬s.gateway.Inside := by
        rw [← h.gatewayHolds, hholder]
        simp
      have hclear := h.clear hinside e
      have hkept : (s.clear e).holder = s.holder ∧ (s.clear e).gatewayTask = s.gatewayTask := by
        unfold State.clear
        split <;> exact ⟨rfl, rfl⟩
      refine hclear.setTask ?_ Iff.rfl ?_ fun u _ => Iff.rfl
      · rw [hkept.2]
        exact h.started_of_task (t := t) (by simp [htask])
      · rw [hkept.1]
        exact iff_of_true hholder trivial
    | _ => simp [step, htask] at hs
  | give t =>
    cases htask : s.task t with
    | giving =>
      simp only [step, htask, Option.some.injEq] at hs
      obtain rfl := hs
      have hholder : s.holder = some (.task t) := (h.taskHolds t).mpr (by simp [htask, Task.Holds])
      refine h.setTask (h.started_of_task (t := t) (by simp [htask])) ?_ ?_ ?_
      · simp [hholder]
      · simp [Task.Holds]
      · intro u hu
        simp [hholder, Ne.symm hu]
    | _ => simp [step, htask] at hs
  | notifyFromHost e =>
    obtain rfl := Option.some.inj hs
    exact h.notifyFromHost e
  | tick =>
    obtain rfl := Option.some.inj hs
    exact h.onTick
  | gateway => exact h.deliver hs

end RooTesting.HostEvents
