import RooTesting.AlarmTable

/-! # The explicit delay with its callbacks

One thread runs `systemTimeDelayMicros`; the callbacks it delivers read the clock
and schedule and cancel alarms. The delivery loop is counted in turns. Beside the
code's loop stands the loop that never lets a due alarm wait: the two differ only
in a turn that finds an alarm overdue before the target. -/
namespace RooTesting.AlarmDelay
open OrderedTables AlarmService AlarmTable

/-- A callback body in terms of the service: it may use what the calls return. -/
inductive Script (κ ω : Type) where
  | done (world : ω)
  | schedule (deadlineUs : ℤ) (callback : κ) (next : ℕ → Script κ ω)
  | cancel (id : ℕ) (next : Script κ ω)
  | getMicros (next : ℤ → Script κ ω)

/-- An alarm as the delay knows it, with the uptime from which it could be processed. -/
structure Registration where
  id : ℕ
  deadlineUs : ℤ
  sinceNs : ℤ
  deriving DecidableEq

/-- A callback invocation with the uptime it observes. -/
structure Delivery where
  id : ℕ
  deadlineUs : ℤ
  observedNs : ℤ
  deriving DecidableEq

inductive LogEntry where
  | registered (r : Registration)
  | cancelled (id : ℕ)
  | delivered (d : Delivery)
  deriving DecidableEq

/-- The service, what the callbacks share, and the history of the delay. -/
structure Run (κ ω : Type) where
  service : Service κ
  world : ω
  log : List LogEntry

inductive Status where
  | running | finished | aborted
  deriving DecidableEq

variable {κ ω : Type}

def Run.record (r : Run κ ω) (e : LogEntry) (s : Service κ) : Run κ ω :=
  { r with service := s, log := r.log ++ [e] }

/-- Runs one callback body; the flag is false when a `CHECK` has failed. -/
def runScript : Script κ ω → Run κ ω → Bool × Run κ ω
  | .done world, r => (true, { r with world := world })
  | .schedule deadlineUs callback next, r =>
    match r.service.scheduleSystemTimeAlarm deadlineUs callback with
    | none => (false, r)
    | some (id, s) =>
      runScript (next id) (r.record (.registered ⟨id, deadlineUs, r.service.uptimeNs⟩) s)
  | .cancel id next, r =>
    match r.service.cancelSystemTimeAlarm id with
    | (false, _) => runScript next r
    | (true, s) => runScript next (r.record (.cancelled id) s)
  | .getMicros next, r => runScript (next (r.service.uptimeNs.tdiv kNanosPerMicrosecond)) r

/-- One turn of a delivery loop whose locked section is `claim`. -/
def turn (claim : Service κ → Option (Option (ℤ × AlarmNode κ) × Service κ))
    (body : κ → ω → Script κ ω) (r : Run κ ω) : Status × Run κ ω :=
  match claim r.service with
  | none => (.aborted, r)
  | some (none, s) => (.finished, { r with service := s.releaseDeliveryOwnership })
  | some (some (deadlineUs, a), s) =>
    let done := runScript (body a.callback r.world)
      (r.record (.delivered ⟨a.id, deadlineUs, s.uptimeNs⟩) s)
    (if done.1 then .running else .aborted, done.2)

/-- At most `n` turns of a delivery loop. -/
def turns (f : Run κ ω → Status × Run κ ω) : ℕ → Run κ ω → Status × Run κ ω
  | 0, r => (.running, r)
  | n + 1, r =>
    match f r with
    | (.running, r') => turns f n r'
    | (.finished, r') => (.finished, r')
    | (.aborted, r') => (.aborted, r')

/-- `DeliverAlarmsThrough`, run for at most `n` turns of its loop. -/
def deliverAlarmsThrough (body : κ → ω → Script κ ω) (n : ℕ) (limitNs : ℤ) (advanceTime : Bool)
    (r : Run κ ω) : Status × Run κ ω :=
  match r.service.enterDelivery limitNs advanceTime with
  | (false, s) => (.finished, { r with service := s })
  | (true, s) => turns (turn (Service.claimDue limitNs advanceTime) body) n { r with service := s }

/-- `system_time_delay_micros` in manual time, run for at most `n` turns. -/
def systemTimeDelayMicros (body : κ → ω → Script κ ω) (n : ℕ) (micros : ℕ) (r : Run κ ω) :
    Option (Status × Run κ ω) := do
  let durationNs ← microsToNanos micros
  let (targetNs, s) ← r.service.reserveDelayedUptimeNs durationNs
  return deliverAlarmsThrough body n targetNs true { r with service := s }

/-- The section of a loop that advances only when nothing is due. -/
def claimChronological (limitNs : ℤ) (s : Service κ) :
    Option (Option (ℤ × AlarmNode κ) × Service κ) :=
  if (∀ e ∈ s.alarms, s.uptimeNs < e.1 * kNanosPerMicrosecond) ∧ s.uptimeNs < limitNs then
    (s.advanceTowards limitNs).bind Service.popDue
  else s.popDue

/-- No alarm is overdue while the uptime is still short of the target. -/
def Punctual (limitNs : ℤ) (s : Service κ) : Prop :=
  s.uptimeNs < limitNs → ∀ e ∈ s.alarms, s.uptimeNs < e.1 * kNanosPerMicrosecond

section History

def registrations (log : List LogEntry) : List Registration :=
  log.filterMap fun | .registered r => some r | _ => none

def deliveries (log : List LogEntry) : List Delivery :=
  log.filterMap fun | .delivered d => some d | _ => none

def cancelledIds (log : List LogEntry) : List ℕ :=
  log.filterMap fun | .cancelled id => some id | _ => none

def deliveredIds (log : List LogEntry) : List ℕ := (deliveries log).map Delivery.id

/-- The alarms pending when the delay starts, then those its callbacks register. -/
def known (start : Service κ) (log : List LogEntry) : List Registration :=
  (start.alarms.map fun e => ⟨e.2.id, e.1, start.uptimeNs⟩) ++ registrations log

/-- Known, not yet delivered and not cancelled. -/
def outstanding (start : Service κ) (log : List LogEntry) : List Registration :=
  (known start log).filter fun k => k.id ∉ deliveredIds log ∧ k.id ∉ cancelledIds log

/-- The order by deadline and then by registration. -/
def Before (d : Delivery) (k : Registration) : Prop :=
  d.deadlineUs < k.deadlineUs ∨ d.deadlineUs = k.deadlineUs ∧ d.id < k.id

/-- What a delay to the target promises after `n` turns that ended in `status`. -/
structure MeetsContract (start : Service κ) (targetNs : ℤ) (n : ℕ) (status : Status)
    (r : Run κ ω) : Prop where
  identified : ((known start r.log).map Registration.id).Nodup
  onTime : ∀ d ∈ deliveries r.log, ∃ k ∈ known start r.log, k.id = d.id ∧
    k.deadlineUs = d.deadlineUs ∧
    d.observedNs = max k.sinceNs (k.deadlineUs * kNanosPerMicrosecond)
  due : ∀ d ∈ deliveries r.log, d.deadlineUs * kNanosPerMicrosecond ≤ targetNs
  once : (deliveredIds r.log).Nodup
  uncancelled : ∀ id ∈ deliveredIds r.log, id ∉ cancelledIds r.log
  ordered : ∀ pre d post, r.log = pre ++ .delivered d :: post →
    ∀ k ∈ outstanding start pre, k.id = d.id ∨ Before d k
  returns : status = .running →
    n ≤ ((known start r.log).filter fun k => k.deadlineUs * kNanosPerMicrosecond ≤ targetNs).length
  complete : status = .finished → ∀ k ∈ known start r.log,
    k.deadlineUs * kNanosPerMicrosecond ≤ targetNs →
      k.id ∈ deliveredIds r.log ∨ k.id ∈ cancelledIds r.log
  exact : status = .finished → r.service.uptimeNs = targetNs

end History

end RooTesting.AlarmDelay
