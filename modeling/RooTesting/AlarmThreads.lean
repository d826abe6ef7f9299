import RooTesting.Threads
import RooTesting.AlarmTable

/-! # The alarm service under any number of threads

The calls of the service are cut where another thread can run: between sections
under the mutation lock, between the increment and the broadcast of a notification,
and between the steps of the worker's wait. Thread 0 is the alarm worker. A callback
may make every call that an idle thread may make. -/
namespace RooTesting.AlarmThreads
open Transition Threads AlarmService AlarmTable

/-- A delay since it reserved its target. It owes the alarms that were pending then
and due by the target. -/
structure DelayRecord where
  startNs : ℤ
  durationNs : ℤ
  targetNs : ℤ
  owed : List ℕ
  deriving DecidableEq

/-- The callers of `DeliverAlarmsThrough` with their arguments. -/
inductive Caller where
  | delay (d : DelayRecord)
  | process (limitNs : ℤ)
  | worker (limitNs : ℤ)
  deriving DecidableEq

def Caller.limitNs : Caller → ℤ
  | .delay d => d.targetNs
  | .process limitNs => limitNs
  | .worker limitNs => limitNs

def Caller.advanceTime : Caller → Bool
  | .delay _ => true
  | .process _ => false
  | .worker _ => false

/-- Where the owner of the delivery stands in its loop. -/
inductive Phase (κ : Type) where
  | claim
  | invoke (a : AlarmRecord κ)
  | running (a : AlarmRecord κ)
  | release
  deriving DecidableEq

/-- What the worker has read in its section. The generation is counted without wrapping. -/
structure WorkerView where
  generation : ℕ
  waitForDeadline : Bool
  deadlineUs : ℤ
  deriving DecidableEq

/-- A call in progress, by the step it takes next. -/
inductive Frame (κ : Type) where
  | notify
  | broadcast (ticket : ℕ)
  | enter (c : Caller)
  | pump (c : Caller) (phase : Phase κ)
  | leave (c : Caller)
  | processRead
  | finishJoin (joinWorker : Bool)
  | workerLoop
  | workerRead
  | workerCheck (v : WorkerView)
  | workerHolding (v : WorkerView)
  | workerBlocked (v : WorkerView)
  | workerExited
  deriving DecidableEq

inductive Entry where
  | scheduled (id : ℕ)
  | cancelled (id : ℕ)
  | claimed (id : ℕ)
  | invoked (id : ℕ)
  | discarded (id : ℕ)
  | closing
  | begun (d : DelayRecord)
  | returned (d : DelayRecord)
  deriving DecidableEq

/-- The service, the wake generation as a count, the worker's blocked wait with the
host deadline of a timed one, and the history, newest entry first. -/
structure Shared (κ : Type) where
  service : Service κ
  generation : ℕ
  waiter : Option (Option ℤ)
  workerExited : Bool
  history : List Entry

inductive Event (κ : Type) where
  | schedule (deadlineUs : ℤ) (callback : κ)
  | cancel (id : ℕ)
  | delay (micros : ℕ)
  | lag (ns : ℕ)
  | process
  | read
  | tryBegin
  | finish
  | resume
  | wake
  | tick (ns : ℕ)
  deriving DecidableEq

variable {κ : Type}

def Shared.log (s : Shared κ) (service : Service κ) (e : Entry) : Shared κ :=
  { s with service := service, history := e :: s.history }

/-- A thread outside the service, or one in a callback, may begin a call. -/
def callable : List (Frame κ) → Bool
  | [] => true
  | .pump _ (.running _) :: _ => true
  | _ => false

/-- The ids of the alarms that a delay to the target owes. -/
def owedIds (targetNs : ℤ) (s : Service κ) : List ℕ :=
  (s.alarms.filter fun e => e.1 * kNanosPerMicrosecond ≤ targetNs).map fun e => e.2.id

def workerLoop (s : Shared κ) : Option (Shared κ × Frame κ) :=
  if s.service.state = .running then
    match s.service.alarms with
    | [] => some (s, .workerCheck ⟨s.generation, false, 0⟩)
    | first :: _ => (alarmMicrosToNanos first.1).map fun deadlineNs =>
        let service := s.service.read
        if deadlineNs ≤ service.uptimeNs ∧ service.deliveryActive = false then
          ({ s with service := service }, .workerRead)
        else ({ s with service := service },
          .workerCheck ⟨s.generation, !service.deliveryActive, first.1⟩)
  else some ({ s with workerExited := true }, .workerExited)

/-- The host deadline of the wait, when there is one to wait for. -/
def waitDeadline (v : WorkerView) (s : Service κ) : Option (Option ℤ) :=
  if v.waitForDeadline then (alarmMicrosToNanos v.deadlineUs).map s.clock.hostDeadlineNs
  else some none

def discard (s : Shared κ) : Shared κ :=
  { s with
    service := s.service.finishSystemTimeServiceShutdownForHost
    history := (ids s.service).map .discarded ++ s.history }

/-- The next step of the innermost call of a thread. The step of a running callback
is its return. -/
def resume (s : Shared κ) (rest : List (Frame κ)) : Frame κ → Option (Shared κ × List (Frame κ))
  | .notify => some ({ s with generation := s.generation + 1 }, .broadcast (s.generation + 1) :: rest)
  | .broadcast _ => some ({ s with waiter := none }, rest)
  | .enter c =>
    let r := s.service.enterDelivery c.limitNs c.advanceTime
    some ({ s with service := r.2 }, (if r.1 then .pump c .claim else .leave c) :: rest)
  | .pump c .claim =>
    match s.service.claimDue c.limitNs c.advanceTime with
    | none => none
    | some (none, service) => some ({ s with service := service }, .pump c .release :: rest)
    | some (some (_, a), service) => some (s.log service (.claimed a.id),
        .notify :: .pump c (.invoke a.toAlarmRecord) :: rest)
  | .pump c (.invoke a) => some (s.log s.service (.invoked a.id), .pump c (.running a) :: rest)
  | .pump c (.running _) => some (s, .pump c .claim :: rest)
  | .pump c .release => some ({ s with service := s.service.releaseDeliveryOwnership },
      .notify :: .leave c :: rest)
  | .leave (.delay d) => some (s.log s.service (.returned d), rest)
  | .leave (.process _) => some (s, rest)
  | .leave (.worker _) => some (s, .workerLoop :: rest)
  | .processRead => some ({ s with service := s.service.read },
      .enter (.process s.service.read.uptimeNs) :: rest)
  | .finishJoin joinWorker =>
    if joinWorker && !s.workerExited then none else some (discard s, rest)
  | .workerLoop =>
    if s.service.workerStarted then (workerLoop s).map fun r => (r.1, r.2 :: rest) else none
  | .workerRead => some ({ s with service := s.service.read },
      .enter (.worker s.service.read.uptimeNs) :: rest)
  | .workerCheck v =>
    if s.generation % uint64Size = v.generation % uint64Size then
      some (s, .workerHolding v :: rest)
    else some (s, .workerLoop :: rest)
  | .workerHolding v =>
    (waitDeadline v s.service).map fun d => ({ s with waiter := some d }, .workerBlocked v :: rest)
  | .workerBlocked _ => if s.waiter = none then some (s, .workerLoop :: rest) else none
  | .workerExited => none

/-- The first section of a call. A call whose `CHECK` fails has no next state. -/
def begin (s : Shared κ) (st : List (Frame κ)) : Event κ → Option (Shared κ × List (Frame κ))
  | .schedule deadlineUs callback =>
    (s.service.scheduleSystemTimeAlarm deadlineUs callback).map fun r =>
      (s.log r.2 (.scheduled r.1), .notify :: st)
  | .cancel id =>
    let r := s.service.cancelSystemTimeAlarm id
    some (if r.1 then (s.log r.2 (.cancelled id), .notify :: st) else (s, st))
  | .delay micros =>
    (microsToNanos micros).bind fun durationNs =>
      (s.service.reserveDelayedUptimeNs durationNs).map fun r =>
        let d : DelayRecord := ⟨s.service.read.uptimeNs, durationNs, r.1, owedIds r.1 s.service⟩
        (s.log r.2 (.begun d), .enter (.delay d) :: st)
  | .lag ns =>
    if (ns : ℤ) ≤ int64Max then
      (s.service.addUptimeNs ns).map fun service => ({ s with service := service }, .notify :: st)
    else none
  | .process => some (s, if s.service.state = .running then .processRead :: st else st)
  | .read => some ({ s with service := s.service.read }, st)
  | .tryBegin =>
    let r := s.service.tryBeginSystemTimeServiceShutdownForHost
    some (if r.1 then (s.log r.2 .closing, .notify :: st) else (s, st))
  | .finish =>
    if s.service.state = .closing then some (s, .finishJoin s.service.workerStarted :: st) else none
  | _ => none

/-- One atomic step of one thread. A blocked wait may end on its own at any time, and
host time passes at any time. -/
def step : Program (Shared κ) (List (Frame κ)) (Event κ)
  | .resume, s, f :: rest => resume s rest f
  | .resume, _, [] => none
  | .wake, s, st => if s.waiter.isSome then some ({ s with waiter := none }, st) else none
  | .tick ns, s, st => some ({ s with service := { s.service with
      clock := { s.service.clock with hostNowNs := s.service.clock.hostNowNs + ns } } }, st)
  | e, s, st => if callable st then begin s st e else none

abbrev System (κ : Type) := Config (Shared κ) (List (Frame κ))

/-- The service with every thread outside it and the worker not yet in its loop. -/
def start (s : Service κ) : System κ where
  shared := ⟨s, 0, none, false, []⟩
  thread t := if t = 0 then [.workerLoop] else []

section Effects

/-- Frames that neither own the delivery nor belong to a delay or to a shutdown. -/
def Frame.light : Frame κ → Bool
  | .enter (.delay _) => false
  | .leave (.delay _) => false
  | .finishJoin _ => false
  | .pump _ _ => false
  | _ => true

def core (st : List (Frame κ)) : List (Frame κ) := st.filter fun f => !f.light

theorem mem_core {f : Frame κ} {st : List (Frame κ)} (hf : f.light = false) :
    f ∈ core st ↔ f ∈ st := by
  simp [core, hf]

@[simp] theorem core_cons (f : Frame κ) (st : List (Frame κ)) :
    core (f :: st) = if f.light then core st else f :: core st := by
  cases h : f.light <;> simp [core, h]

/-- A read of the clock, or the passing of host time. -/
inductive Passive (p : Publication) : Publication → Prop where
  | same : Passive p p
  | read : Passive p p.read
  | tick (ns : ℕ) : Passive p { p with hostNowNs := p.hostNowNs + ns }

/-- What a step does to the service, the history and the frames that matter. -/
inductive Effect (s : Shared κ) : Event κ → List (Frame κ) → Shared κ → List (Frame κ) → Prop where
  | quiet {e st s' st'} (p : Publication) (hp : Passive s.service.clock p)
      (hs : s'.service = { s.service with clock := p }) (hh : s'.history = s.history)
      (hst : core st' = core st) : Effect s e st s' st'
  | schedule {deadlineUs callback id service st}
      (h : s.service.scheduleSystemTimeAlarm deadlineUs callback = some (id, service)) :
      Effect s (.schedule deadlineUs callback) st (s.log service (.scheduled id)) (.notify :: st)
  | cancel {id service st} (h : s.service.cancelSystemTimeAlarm id = (true, service)) :
      Effect s (.cancel id) st (s.log service (.cancelled id)) (.notify :: st)
  | delay {micros durationNs targetNs service st} (hm : microsToNanos micros = some durationNs)
      (h : s.service.reserveDelayedUptimeNs durationNs = some (targetNs, service)) {d : DelayRecord}
      (hd : d = ⟨s.service.read.uptimeNs, durationNs, targetNs, owedIds targetNs s.service⟩) :
      Effect s (.delay micros) st (s.log service (.begun d)) (.enter (.delay d) :: st)
  | lag {ns service st} (h : s.service.addUptimeNs (Int.ofNat ns) = some service) :
      Effect s (.lag ns) st { s with service := service } (.notify :: st)
  | closing {service st} (h : s.service.tryBeginSystemTimeServiceShutdownForHost = (true, service)) :
      Effect s .tryBegin st (s.log service .closing) (.notify :: st)
  | own {c service rest} (h : s.service.enterDelivery c.limitNs c.advanceTime = (true, service)) :
      Effect s .resume (.enter c :: rest) { s with service := service } (.pump c .claim :: rest)
  | pass {c service rest} (h : s.service.enterDelivery c.limitNs c.advanceTime = (false, service)) :
      Effect s .resume (.enter c :: rest) { s with service := service } (.leave c :: rest)
  | decide {c service rest}
      (h : s.service.claimDue c.limitNs c.advanceTime = some (none, service)) :
      Effect s .resume (.pump c .claim :: rest) { s with service := service }
        (.pump c .release :: rest)
  | claim {c e service rest}
      (h : s.service.claimDue c.limitNs c.advanceTime = some (some e, service)) :
      Effect s .resume (.pump c .claim :: rest) (s.log service (.claimed e.2.id))
        (.notify :: .pump c (.invoke e.2.toAlarmRecord) :: rest)
  | invoke {c a rest} : Effect s .resume (.pump c (.invoke a) :: rest)
      (s.log s.service (.invoked a.id)) (.pump c (.running a) :: rest)
  | ret {c a rest} : Effect s .resume (.pump c (.running a) :: rest) s (.pump c .claim :: rest)
  | release {c rest} : Effect s .resume (.pump c .release :: rest)
      { s with service := s.service.releaseDeliveryOwnership } (.notify :: .leave c :: rest)
  | returned {d rest} : Effect s .resume (.leave (.delay d) :: rest)
      (s.log s.service (.returned d)) rest
  | finish {st} (h : s.service.state = .closing) :
      Effect s .finish st s (.finishJoin s.service.workerStarted :: st)
  | discard {joinWorker rest} : Effect s .resume (.finishJoin joinWorker :: rest) (discard s) rest

variable {s s' : Shared κ} {rest st st' : List (Frame κ)}

theorem Effect.still {e : Event κ} (hs : s'.service = s.service) (hh : s'.history = s.history)
    (hst : core st' = core st) : Effect s e st s' st' :=
  .quiet s.service.clock .same (by rw [hs]) hh hst

theorem effect_workerLoop {f : Frame κ} (h : workerLoop s = some (s', f)) (rest : List (Frame κ)) :
    Effect s .resume (.workerLoop :: rest) s' (f :: rest) := by
  unfold workerLoop at h
  split at h
  · split at h
    · obtain ⟨rfl, rfl⟩ := Prod.mk.inj (Option.some.inj h)
      exact .still rfl rfl (by simp [Frame.light])
    · obtain ⟨deadlineNs, -, h⟩ := Option.map_eq_some_iff.mp h
      dsimp only at h
      split at h <;> obtain ⟨rfl, rfl⟩ := Prod.mk.inj h <;>
        exact .quiet _ .read rfl rfl (by simp [Frame.light])
  · obtain ⟨rfl, rfl⟩ := Prod.mk.inj (Option.some.inj h)
    exact .still rfl rfl (by simp [Frame.light])

theorem effect_pump {c : Caller} {phase : Phase κ}
    (h : resume s rest (.pump c phase) = some (s', st')) :
    Effect s .resume (.pump c phase :: rest) s' st' := by
  cases phase with
  | claim =>
    simp only [resume] at h
    split at h
    · cases h
    · rename_i service hc
      obtain ⟨rfl, rfl⟩ := Prod.mk.inj (Option.some.inj h)
      exact .decide hc
    · rename_i deadlineUs a service hc
      obtain ⟨rfl, rfl⟩ := Prod.mk.inj (Option.some.inj h)
      exact .claim hc
  | invoke a =>
    obtain ⟨rfl, rfl⟩ := Prod.mk.inj (Option.some.inj h)
    exact .invoke
  | running a =>
    obtain ⟨rfl, rfl⟩ := Prod.mk.inj (Option.some.inj h)
    exact .ret
  | release =>
    obtain ⟨rfl, rfl⟩ := Prod.mk.inj (Option.some.inj h)
    exact .release

theorem effect_resume {f : Frame κ} (h : resume s rest f = some (s', st')) :
    Effect s .resume (f :: rest) s' st' := by
  cases f with
  | notify =>
    obtain ⟨rfl, rfl⟩ := Prod.mk.inj (Option.some.inj h)
    exact .still rfl rfl (by simp [Frame.light])
  | broadcast ticket =>
    obtain ⟨rfl, rfl⟩ := Prod.mk.inj (Option.some.inj h)
    exact .still rfl rfl (by simp [Frame.light])
  | enter c =>
    cases he : s.service.enterDelivery c.limitNs c.advanceTime with
    | mk owner service =>
      simp only [resume, he] at h
      obtain ⟨rfl, rfl⟩ := Prod.mk.inj (Option.some.inj h)
      cases owner with
      | true => exact .own he
      | false => exact .pass he
  | pump c phase => exact effect_pump h
  | leave c =>
    cases c with
    | delay d =>
      obtain ⟨rfl, rfl⟩ := Prod.mk.inj (Option.some.inj h)
      exact .returned
    | process limitNs =>
      obtain ⟨rfl, rfl⟩ := Prod.mk.inj (Option.some.inj h)
      exact .still rfl rfl (by simp [Frame.light])
    | worker limitNs =>
      obtain ⟨rfl, rfl⟩ := Prod.mk.inj (Option.some.inj h)
      exact .still rfl rfl (by simp [Frame.light])
  | processRead =>
    obtain ⟨rfl, rfl⟩ := Prod.mk.inj (Option.some.inj h)
    exact .quiet _ .read rfl rfl (by simp [Frame.light])
  | finishJoin joinWorker =>
    simp only [resume] at h
    split at h
    · cases h
    · obtain ⟨rfl, rfl⟩ := Prod.mk.inj (Option.some.inj h)
      exact .discard
  | workerLoop =>
    simp only [resume] at h
    split at h
    · obtain ⟨⟨t, f⟩, hr, h⟩ := Option.map_eq_some_iff.mp h
      obtain ⟨rfl, rfl⟩ := Prod.mk.inj h
      exact effect_workerLoop hr rest
    · cases h
  | workerRead =>
    obtain ⟨rfl, rfl⟩ := Prod.mk.inj (Option.some.inj h)
    exact .quiet _ .read rfl rfl (by simp [Frame.light])
  | workerCheck v =>
    simp only [resume] at h
    split at h <;> obtain ⟨rfl, rfl⟩ := Prod.mk.inj (Option.some.inj h) <;>
      exact .still rfl rfl (by simp [Frame.light])
  | workerHolding v =>
    obtain ⟨d, -, h⟩ := Option.map_eq_some_iff.mp h
    obtain ⟨rfl, rfl⟩ := Prod.mk.inj h
    exact .still rfl rfl (by simp [Frame.light])
  | workerBlocked v =>
    simp only [resume] at h
    split at h
    · obtain ⟨rfl, rfl⟩ := Prod.mk.inj (Option.some.inj h)
      exact .still rfl rfl (by simp [Frame.light])
    · cases h
  | workerExited => cases h

theorem effect_begin {e : Event κ} (h : begin s st e = some (s', st')) :
    Effect s e st s' st' := by
  cases e with
  | schedule deadlineUs callback =>
    obtain ⟨⟨id, service⟩, hs, h⟩ := Option.map_eq_some_iff.mp h
    obtain ⟨rfl, rfl⟩ := Prod.mk.inj h
    exact .schedule hs
  | cancel id =>
    cases hc : s.service.cancelSystemTimeAlarm id with
    | mk found service =>
      simp only [begin, hc] at h
      cases found with
      | true =>
        obtain ⟨rfl, rfl⟩ := Prod.mk.inj (Option.some.inj h)
        exact .cancel hc
      | false =>
        obtain ⟨rfl, rfl⟩ := Prod.mk.inj (Option.some.inj h)
        exact .still rfl rfl rfl
  | delay micros =>
    obtain ⟨durationNs, hm, h⟩ := Option.bind_eq_some_iff.mp h
    obtain ⟨⟨targetNs, service⟩, hr, h⟩ := Option.map_eq_some_iff.mp h
    obtain ⟨rfl, rfl⟩ := Prod.mk.inj h
    exact .delay hm hr rfl
  | lag ns =>
    simp only [begin] at h
    split at h
    · obtain ⟨service, hl, h⟩ := Option.map_eq_some_iff.mp h
      obtain ⟨rfl, rfl⟩ := Prod.mk.inj h
      exact .lag hl
    · cases h
  | process =>
    obtain ⟨rfl, rfl⟩ := Prod.mk.inj (Option.some.inj h)
    exact .still rfl rfl (by split <;> simp [Frame.light])
  | read =>
    obtain ⟨rfl, rfl⟩ := Prod.mk.inj (Option.some.inj h)
    exact .quiet _ .read rfl rfl rfl
  | tryBegin =>
    cases ht : s.service.tryBeginSystemTimeServiceShutdownForHost with
    | mk began service =>
      simp only [begin, ht] at h
      cases began with
      | true =>
        obtain ⟨rfl, rfl⟩ := Prod.mk.inj (Option.some.inj h)
        exact .closing ht
      | false =>
        obtain ⟨rfl, rfl⟩ := Prod.mk.inj (Option.some.inj h)
        exact .still rfl rfl rfl
  | finish =>
    simp only [begin] at h
    split at h
    · rename_i hclosing
      obtain ⟨rfl, rfl⟩ := Prod.mk.inj (Option.some.inj h)
      exact .finish hclosing
    · cases h
  | resume => cases h
  | wake => cases h
  | tick ns => cases h

/-- The effects are all a step can do. -/
theorem effect_of_step {e : Event κ} (h : step e s st = some (s', st')) : Effect s e st s' st' := by
  unfold step at h
  split at h
  · exact effect_resume h
  · cases h
  · split at h
    · obtain ⟨rfl, rfl⟩ := Prod.mk.inj (Option.some.inj h)
      exact .still rfl rfl rfl
    · cases h
  · obtain ⟨rfl, rfl⟩ := Prod.mk.inj (Option.some.inj h)
    exact .quiet _ (.tick _) rfl rfl rfl
  · split at h
    · exact effect_begin h
    · cases h

end Effects

end RooTesting.AlarmThreads
