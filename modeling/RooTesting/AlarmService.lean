import RooTesting.OrderedTables
import Mathlib.Tactic.Ring
import Mathlib.Algebra.Order.Ring.Int

/-! # The emulated clock and the alarm service

The published uptime, the ordered alarm map with its id index, and the sections
that the functions of the service execute under the mutation lock. A failed
`CHECK` ends the process and is modelled by `none`. -/
namespace RooTesting.AlarmService
open OrderedTables

def int64Max : ℤ := 2 ^ 63 - 1
def int64Min : ℤ := -2 ^ 63
def uint64Size : ℕ := 2 ^ 64

def kNanosPerMicrosecond : ℤ := 1000
def kMinAlarmUptimeMicros : ℤ := int64Min.tdiv kNanosPerMicrosecond
def kMaxAlarmUptimeMicros : ℤ := int64Max.tdiv kNanosPerMicrosecond

inductive AlarmServiceState where
  | running | closing | stopped
  deriving DecidableEq

/-- The initialized uptime publication. `hostNowNs` is what `MonotonicNowNs`
would sample; it moves on by itself. -/
structure Publication where
  uptimeNs : ℤ
  autoSync : Bool
  hostOriginNs : ℤ
  hostNowNs : ℤ
  deriving DecidableEq

namespace Publication

def hostUptimeNs (p : Publication) : ℤ :=
  if p.hostNowNs ≤ p.hostOriginNs then 0 else p.hostNowNs - p.hostOriginNs

def publishAtLeast (candidateNs : ℤ) (p : Publication) : Publication :=
  { p with uptimeNs := max p.uptimeNs candidateNs }

/-- Catches the publication up to host time in auto mode; the value read is the
uptime then published. -/
def read (p : Publication) : Publication :=
  if p.autoSync then p.publishAtLeast p.hostUptimeNs else p

def add (deltaNs : ℤ) (p : Publication) : Option Publication :=
  if 0 ≤ deltaNs ∧ deltaNs ≤ int64Max - p.uptimeNs then
    some { p with uptimeNs := p.uptimeNs + deltaNs }
  else none

def hostDeadlineNs (uptimeNs : ℤ) (p : Publication) : Option ℤ :=
  if int64Max - p.hostOriginNs < uptimeNs then none
  else if 0 < p.hostOriginNs + uptimeNs then some (p.hostOriginNs + uptimeNs) else none

end Publication

structure AlarmRecord (κ : Type) where
  id : ℕ
  callback : κ
  deriving DecidableEq

/-- A record in the alarm map. The node is what an iterator to it refers to. -/
structure AlarmNode (κ : Type) extends AlarmRecord κ where
  node : ℕ
  deriving DecidableEq

/-- The state behind the mutation lock. Alarms are keyed by their deadline in
microseconds; the index maps an id to a node. -/
structure Service (κ : Type) where
  clock : Publication
  reservedUptimeNs : ℤ
  alarms : List (ℤ × AlarmNode κ)
  index : List (ℕ × ℕ)
  nextNode : ℕ
  nextAlarmId : ℕ
  deliveryActive : Bool
  workerStarted : Bool
  state : AlarmServiceState
  deriving DecidableEq

/-- The service after initialization, before any call. -/
def initial {κ : Type} (autoSync : Bool) (hostNowNs : ℤ) : Service κ where
  clock := ⟨0, autoSync, hostNowNs, hostNowNs⟩
  reservedUptimeNs := 0
  alarms := []
  index := []
  nextNode := 0
  nextAlarmId := 1
  deliveryActive := false
  workerStarted := false
  state := .running

def microsToNanos (micros : ℕ) : Option ℤ :=
  if (micros : ℤ) ≤ int64Max.tdiv kNanosPerMicrosecond then
    some ((micros : ℤ) * kNanosPerMicrosecond)
  else none

def alarmMicrosToNanos (micros : ℤ) : Option ℤ :=
  if kMinAlarmUptimeMicros ≤ micros ∧ micros ≤ kMaxAlarmUptimeMicros then
    some (micros * kNanosPerMicrosecond)
  else none

namespace Service

variable {κ : Type}

abbrev uptimeNs (s : Service κ) : ℤ := s.clock.uptimeNs

def read (s : Service κ) : Service κ := { s with clock := s.clock.read }

def publishAtLeast (candidateNs : ℤ) (s : Service κ) : Service κ :=
  { s with clock := s.clock.publishAtLeast candidateNs }

/-- The locked section of `AddUptimeNs`. -/
def addUptimeNs (deltaNs : ℤ) (s : Service κ) : Option (Service κ) :=
  if s.state = .running then
    (s.clock.add deltaNs).map fun clock =>
      let s := { s with clock := clock.read }
      { s with reservedUptimeNs := max s.reservedUptimeNs s.uptimeNs }
  else none

/-- The locked section of `ReserveDelayedUptimeNs`; the result is the target. -/
def reserveDelayedUptimeNs (durationNs : ℤ) (s : Service κ) : Option (ℤ × Service κ) :=
  if s.state = .running then
    let s := s.read
    let baseNs := max s.uptimeNs s.reservedUptimeNs
    if durationNs ≤ int64Max - baseNs then
      some (baseNs + durationNs, { s with reservedUptimeNs := baseNs + durationNs })
    else none
  else none

def releaseDeliveryOwnership (s : Service κ) : Service κ := { s with deliveryActive := false }

/-- The first section of `DeliverAlarmsThrough`; the result tells whether the
caller has become the owner of the delivery. -/
def enterDelivery (limitNs : ℤ) (advanceTime : Bool) (s : Service κ) : Bool × Service κ :=
  if s.state = .running then
    if s.deliveryActive then
      (false, if advanceTime then s.publishAtLeast limitNs else s)
    else (true, { s with deliveryActive := true })
  else (false, s)

/-- The advance inside the delivery loop: to the first deadline when it lies
ahead and within the limit, to the limit in every other case. -/
def advanceTowards (limitNs : ℤ) (s : Service κ) : Option (Service κ) :=
  match s.alarms with
  | [] => some (s.publishAtLeast limitNs)
  | first :: _ => (alarmMicrosToNanos first.1).map fun deadlineNs =>
      if s.uptimeNs < deadlineNs ∧ deadlineNs ≤ limitNs then s.publishAtLeast deadlineNs
      else s.publishAtLeast limitNs

/-- The first alarm leaves both containers when its deadline has been reached. -/
def popDue (s : Service κ) : Option (Option (ℤ × AlarmNode κ) × Service κ) :=
  match s.alarms with
  | [] => some (none, s)
  | first :: rest => (alarmMicrosToNanos first.1).map fun deadlineNs =>
      if s.uptimeNs < deadlineNs then (none, s)
      else (some first,
        { s with alarms := rest, index := s.index.filter fun e => e.1 ≠ first.2.id })

/-- The section of one turn of the delivery loop; `none` inside the result is
the decision that there is no due work. -/
def claimDue (limitNs : ℤ) (advanceTime : Bool) (s : Service κ) :
    Option (Option (ℤ × AlarmNode κ) × Service κ) :=
  let s := s.read
  if advanceTime ∧ s.uptimeNs < limitNs then
    (s.advanceTowards limitNs).bind fun s => s.read.popDue
  else s.popDue

/-- The locked section of `ScheduleSystemTimeAlarm`; the result is the new id. -/
def scheduleSystemTimeAlarm (deadlineUs : ℤ) (callback : κ) (s : Service κ) : Option (ℕ × Service κ) :=
  if (alarmMicrosToNanos deadlineUs).isSome ∧ s.state = .running ∧ s.nextAlarmId ≠ 0 then
    let id := s.nextAlarmId
    some (id, { s with
      alarms := insertLast deadlineUs ⟨⟨id, callback⟩, s.nextNode⟩ s.alarms
      index := (id, s.nextNode) :: s.index
      nextNode := s.nextNode + 1
      nextAlarmId := (id + 1) % uint64Size
      workerStarted := s.workerStarted || s.clock.autoSync })
  else none

/-- The locked section of `CancelSystemTimeAlarm`; the result tells whether the
id was found, and only then the worker is notified. -/
def cancelSystemTimeAlarm (id : ℕ) (s : Service κ) : Bool × Service κ :=
  if id = 0 then (false, s) else
    match s.index.find? (fun e => e.1 = id) with
    | none => (false, s)
    | some found => (true, { s with
        alarms := s.alarms.filter fun e => e.2.node ≠ found.2
        index := s.index.filter fun e => e.1 ≠ found.1 })

def getNextSystemTimeAlarmDeadline (s : Service κ) : ℤ :=
  match s.alarms with
  | [] => int64Max
  | first :: _ => first.1

/-- The locked section of `TryBeginSystemTimeServiceShutdownForHost`. -/
def tryBeginSystemTimeServiceShutdownForHost (s : Service κ) : Bool × Service κ :=
  if s.deliveryActive then (false, s)
  else if s.state = .running then (true, { s with state := .closing })
  else (false, s)

/-- The last section of `FinishSystemTimeServiceShutdownForHost`. -/
def finishSystemTimeServiceShutdownForHost (s : Service κ) : Service κ :=
  { s with alarms := [], index := [], state := .stopped }

end Service

end RooTesting.AlarmService
