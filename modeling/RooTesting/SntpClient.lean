import RooTesting.Threads
import Mathlib.Data.List.Basic
import Mathlib.Tactic.Cases
import Mathlib.Algebra.Group.Int.Defs
import Mathlib.Algebra.Group.Nat.Defs

/-! # The SNTP client

One client behind one lock. A timer wake claims a delivery under the lock and makes it after
unlocking, as a synchronization by hand does; the destructor of the claim retires it. Reset stops
the client and waits for the deliveries that are in flight. -/
namespace RooTesting.Sntp
open Transition Threads

def int64Min : ℤ := -2 ^ 63
def int64Max : ℤ := 2 ^ 63 - 1
def kDefaultIntervalMs : ℕ := 3600000
def kMaxServers : ℕ := 3

inductive TimeSource | host | reference
  deriving DecidableEq

structure ServerBehavior where
  timeSource : TimeSource := .host
  referenceUnixUs : ℤ := 0
  responseDelayUs : ℤ := 100000
  responds : Bool := true
  deriving DecidableEq

structure Server where
  name : String := ""
  address : ℕ := 0
  reachability : ℕ := 0
  deriving DecidableEq

inductive SyncStatus | reset | completed
  deriving DecidableEq

structure Client where
  servers : List Server := List.replicate kMaxServers {}
  behavior : ServerBehavior := {}
  referenceUptime : ℤ := 0
  deadline : ℤ := 0
  intervalMs : ℕ := kDefaultIntervalMs
  callback : Option ℕ := none
  registration : ℕ := 0
  status : SyncStatus := .reset
  enabled : Bool := false
  resetting : Bool := false
  deliveries : ℤ := 0
  deriving DecidableEq

/-- What happened to the client, latest first. -/
inductive Entry
  | claimed (id : ℕ)
  | published (id : ℕ) (unixUs : ℤ)
  | retired (id : ℕ)
  | configured
  | stopped
  | restarted
  | reset
  deriving DecidableEq

/-- The client with its history, the next delivery and the ones claimed and not yet retired. -/
structure Shared where
  client : Client := {}
  next : ℕ := 0
  inFlight : List ℕ := []
  history : List Entry := []
  deriving DecidableEq

/-- A call in progress, by the step it takes next. A delivery is named by its claim. -/
inductive Frame
  | sync (id : ℕ) (unixUs : ℤ)
  | publish (id : ℕ) (unixUs : ℤ)
  | callback (f : ℕ)
  | override
  | retire (id : ℕ)
  | drain
  | clear
  deriving DecidableEq

abbrev Local := List Frame

inductive Event
  | timerWake (now : ℤ) (host : Option ℤ)
  | syncTime (unixUs : ℤ)
  | init (now : ℤ)
  | stop
  | restart (now : ℤ)
  | configureServer (b : ServerBehavior) (now : ℤ)
  | setServerName (index : ℕ) (name : String)
  | setServer (index address : ℕ)
  | setSyncInterval (interval : ℕ)
  | setSyncStatus (status : SyncStatus)
  | getSyncStatus
  | setCallback (f : Option ℕ)
  | reset
  | resume
  deriving DecidableEq

/-- The parts of a `timeval`: whole seconds and microseconds that are not negative. -/
def toTimeval (unixUs : ℤ) : ℤ × ℤ :=
  let sec := unixUs.tdiv 1000000
  let usec := unixUs.tmod 1000000
  if usec < 0 then (sec - 1, usec + 1000000) else (sec, usec)

def ofTimeval (tv : ℤ × ℤ) : ℤ := tv.1 * 1000000 + tv.2

theorem ofTimeval_toTimeval (unixUs : ℤ) : ofTimeval (toTimeval unixUs) = unixUs := by
  have := Int.tmod_add_mul_tdiv unixUs 1000000
  unfold toTimeval ofTimeval
  dsimp only
  split <;> omega

theorem toTimeval_usec (unixUs : ℤ) :
    0 ≤ (toTimeval unixUs).2 ∧ (toTimeval unixUs).2 < 1000000 := by
  have hlt := Int.tmod_lt_of_pos unixUs (b := 1000000) (by omega)
  have hgt := Int.lt_tmod_of_pos unixUs (b := 1000000) (by omega)
  unfold toTimeval
  dsimp only
  split
  · constructor <;> dsimp only <;> omega
  · constructor <;> dsimp only <;> omega

def inInt64 (x : ℤ) : Bool := decide (int64Min ≤ x ∧ x ≤ int64Max)

namespace Client

variable (c : Client)

/-- A deadline that cannot be represented ends the process. -/
def scheduleLocked (now delayUs : ℤ) : Option Client :=
  if inInt64 (now + delayUs) then some { c with deadline := now + delayUs } else none

def stopLocked : Client := { c with enabled := false }

/-- The time of the server, where it can be told. -/
def serverTimeLocked (now : ℤ) (host : Option ℤ) : Option ℤ :=
  match c.behavior.timeSource with
  | .host => host
  | .reference =>
    let value := c.behavior.referenceUnixUs + (now - c.referenceUptime)
    if inInt64 value then some value else none

def response (now : ℤ) (host : Option ℤ) : Option ℤ :=
  if c.behavior.responds then c.serverTimeLocked now host else none

end Client

def Server.configured (s : Server) : Bool := s.name != "" || s.address != 0

/-- The loop over the servers: the first one that is configured is asked. -/
def pollServers (answers : Bool) : List Server → List Server
  | [] => []
  | s :: rest =>
    if s.configured then
      { s with reachability := (s.reachability * 2 + if answers then 1 else 0) % 256 } :: rest
    else s :: pollServers answers rest

namespace Shared

variable (s : Shared)

def record (e : Entry) : Shared := { s with history := e :: s.history }

/-- A delivery is claimed. -/
def claim : Shared :=
  { s with
    client := { s.client with deliveries := s.client.deliveries + 1 }
    next := s.next + 1
    inFlight := s.next :: s.inFlight
    history := .claimed s.next :: s.history }

def retire (id : ℕ) : Shared :=
  { s with
    client := { s.client with deliveries := s.client.deliveries - 1 }
    inFlight := s.inFlight.erase id
    history := .retired id :: s.history }

/-- The locked section of `TimerWake`: the response it delivers. -/
def timerWake (now : ℤ) (host : Option ℤ) : Option (Shared × Option ℤ) :=
  if s.client.enabled = false ∨ now < s.client.deadline then some (s, none)
  else
    let response :=
      if s.client.servers.any Server.configured then s.client.response now host else none
    let c := { s.client with servers := pollServers response.isSome s.client.servers }
    (c.scheduleLocked now (c.intervalMs * 1000)).map fun c =>
      let s := { s with client := c }
      (if response.isSome then s.claim else s, response)

/-- The locked section of `PublishTime`, and the callback that it has to call. -/
def publish (id : ℕ) (unixUs : ℤ) : Shared × Option ℕ :=
  (({ s with client := { s.client with status := .completed } }).record (.published id unixUs),
    s.client.callback)

def init (now : ℤ) : Option Shared :=
  if s.client.resetting then none
  else if s.client.enabled then some s
  else ({ s.client with enabled := true }.scheduleLocked now
    s.client.behavior.responseDelayUs).map fun c => { s with client := c }

def stop : Shared := ({ s with client := s.client.stopLocked }).record .stopped

def restart (now : ℤ) : Option Shared :=
  if s.client.resetting then none
  else if s.client.enabled = false then some s
  else (s.client.scheduleLocked now s.client.behavior.responseDelayUs).map fun c =>
    ({ s with client := c }).record .restarted

/-- `ConfigureServer`, and whether it succeeds. -/
def configureServer (b : ServerBehavior) (now : ℤ) : Shared × Bool :=
  if b.responseDelayUs ≤ 0 ∨ inInt64 (b.referenceUnixUs + b.responseDelayUs) = false then (s, false)
  else if s.client.enabled ∨ s.client.resetting ∨ s.client.deliveries ≠ 0 then (s, false)
  else (({ s with client := { s.client with behavior := b, referenceUptime := now } }).record
    .configured, true)

def setServer (index : ℕ) (server : Server) : Option Shared :=
  if index < s.client.servers.length then
    some { s with client := { s.client with servers := s.client.servers.set index server } }
  else none

/-- The first locked section of `Reset`. -/
def beginReset : Option Shared :=
  if s.client.resetting then none
  else some { s with client := { s.client with resetting := true }.stopLocked }

/-- The last locked section of `Reset`. -/
def clear : Shared :=
  ({ s with client := { s.client with
      servers := List.replicate kMaxServers {}
      behavior := {}
      referenceUptime := 0
      intervalMs := kDefaultIntervalMs
      callback := none
      status := .reset
      resetting := false } }).record .reset

end Shared

/-- The delivery in which the code of a thread runs: its `notification_depth` counts the claims
that are to be retired. -/
def delivery : Local → Option ℕ
  | [] => none
  | .retire id :: _ => some id
  | _ :: rest => delivery rest

/-- The thread runs application code. -/
def callable : Local → Bool
  | [] => true
  | .callback _ :: _ => true
  | .override :: _ => true
  | _ => false

/-- The next step of the innermost call. The application may have put its own
`sntp_sync_time` in the place of the weak one. -/
def resume (overridden : Bool) (s : Shared) (rest : Local) : Frame → Option (Shared × Local)
  | .sync id unixUs =>
    some (s, (if overridden then .override else .publish id (ofTimeval (toTimeval unixUs))) :: rest)
  | .publish id unixUs =>
    if inInt64 unixUs then
      match s.publish id unixUs with
      | (s, none) => some (s, rest)
      | (s, some f) => some (s, .callback f :: rest)
    else none
  | .callback _ => some (s, rest)
  | .override => some (s, rest)
  | .retire id => some (s.retire id, rest)
  | .drain => some (s, (if s.client.deliveries = 0 then .clear else .drain) :: rest)
  | .clear => some (s.clear, rest)

/-- A call of the interface up to the end of its first locked section. -/
def call (overridden : Bool) (s : Shared) (l : Local) : Event → Option (Shared × Local)
  | .timerWake now host =>
    if l = [] then
      (s.timerWake now host).map fun r => match r.2 with
        | none => (r.1, l)
        | some value => (r.1, .sync s.next value :: .retire s.next :: l)
    else none
  | .syncTime unixUs =>
    if overridden then some (s, .override :: l)
    else match delivery l with
      | some id => some (s, .publish id unixUs :: l)
      | none =>
        if s.client.resetting then none
        else some (s.claim, .publish s.next unixUs :: .retire s.next :: l)
  | .init now => (s.init now).map fun s => (s, l)
  | .stop => some (s.stop, l)
  | .restart now => (s.restart now).map fun s => (s, l)
  | .configureServer b now => some ((s.configureServer b now).1, l)
  | .setServerName index name => (s.setServer index { name := name }).map fun s => (s, l)
  | .setServer index address => (s.setServer index { address := address }).map fun s => (s, l)
  | .setSyncInterval interval =>
    some ({ s with client := { s.client with intervalMs := max 15000 interval } }, l)
  | .setSyncStatus status => some ({ s with client := { s.client with status := status } }, l)
  | .getSyncStatus => some ({ s with client := { s.client with status := .reset } }, l)
  | .setCallback f =>
    some ({ s with client := { s.client with
      callback := f, registration := s.client.registration + 1 } }, l)
  | .reset => if delivery l = none then s.beginReset.map fun s => (s, .drain :: l) else none
  | .resume => none

/-- One atomic step of one thread. -/
def step (overridden : Bool) : Program Shared Local Event
  | .resume, s, f :: rest => resume overridden s rest f
  | .resume, _, [] => none
  | a, s, l => if callable l then call overridden s l a else none

abbrev System := Config Shared Local

def start : System := ⟨{}, fun _ => []⟩

end RooTesting.Sntp
