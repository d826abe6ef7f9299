import RooTesting.SntpClient

/-! # The esp-netif adapter of the SNTP client

A session owns a registration of the client's notification hook and, where it is to be waited
for, a binary semaphore. The sections under the adapter's lock contain sections of the client,
which other threads take steps of as well. The hook is called by the thread that publishes. -/
namespace RooTesting.SntpNetif
open Transition Threads

inductive EspErr | ok | invalidArg | notSupported | invalidState | timeout
  deriving DecidableEq

/-- `esp_sntp_config_t`. A name that is not set is a null pointer. -/
structure Config where
  smoothSync : Bool := false
  serverFromDhcp : Bool := false
  waitForSync : Bool := true
  start : Bool := true
  syncCb : Option ℕ := none
  renewServersAfterNewIp : Bool := false
  numOfServers : ℕ := 0
  servers : List (Option String) := []
  deriving DecidableEq

def Config.server (config : Config) (i : ℕ) : Option String := (config.servers[i]?).join

def validate : Option Config → EspErr
  | none => .invalidArg
  | some config =>
    if config.numOfServers = 0 ∨ config.numOfServers > Sntp.kMaxServers then .invalidArg
    else if config.smoothSync ∨ config.serverFromDhcp ∨ config.renewServersAfterNewIp then
      .notSupported
    else if (List.range config.numOfServers).any fun i => (config.server i).getD "" == "" then
      .invalidArg
    else .ok

/-- A session, and the waits that are counted in it. A semaphore is full or empty. -/
structure Session where
  semaphore : Option Bool := none
  callback : Option ℕ := none
  registration : ℕ := 0
  waiters : ℕ := 0
  active : Bool := true
  waits : List ℕ := []
  deriving DecidableEq

/-- The hook that the adapter installs in the client. -/
def notify : ℕ := 0

/-- What happened to the sessions, latest first. -/
inductive Entry
  | installed (id registration : ℕ)
  | synchronized (registration : ℕ)
  | notified (id registration : ℕ)
  | called (id : ℕ)
  | posted (id : ℕ)
  | retired (id : ℕ)
  | waited (id : ℕ) (result : EspErr)
  deriving DecidableEq

structure Shared where
  sntp : Sntp.Shared := {}
  sessions : ℕ → Session := fun _ => {}
  current : Option ℕ := none
  locked : Bool := false
  next : ℕ := 0
  nextWait : ℕ := 0
  history : List Entry := []

/-- A call in progress, by the step it takes next. -/
inductive Frame
  | application
  | notify (registration : ℕ)
  | deliver (id : ℕ)
  | post (id : ℕ)
  | init (config : Config)
  | initServers (config : Config) (i : ℕ)
  | start
  | startStop
  | begin
  | deinit
  | deinitStop (id : ℕ)
  | deinitClear (id : ℕ)
  | deinitGive (id : ℕ)
  | syncWait
  | waiting (id wait : ℕ)
  | leave (id wait : ℕ) (taken : Bool)
  deriving DecidableEq

abbrev Local := List Frame

inductive Event
  | client (e : Sntp.Event) (l : Sntp.Local)
  | publish (delivery : ℕ) (unixUs : ℤ)
  | init (config : Option Config)
  | start
  | deinit
  | syncWait
  | resume (now : ℤ)
  | timeout

namespace Session

variable (s : Session)

def give : Session := { s with semaphore := s.semaphore.map fun _ => true }

def enter (wait : ℕ) : Session := { s with waiters := s.waiters + 1, waits := wait :: s.waits }

/-- The last section of a wait, and what the wait returns. -/
def leave (wait : ℕ) (taken : Bool) : Session × EspErr :=
  let s := { s with waiters := s.waiters - 1, waits := s.waits.erase wait }
  if s.active = false then (if s.waiters ≠ 0 then s.give else s, .invalidState)
  else (s, if taken then .ok else .timeout)

end Session

/-- `InstallSntpNotificationForHost` -/
def installNotification (s : Sntp.Shared) (hook : Option ℕ) : Sntp.Shared :=
  { s with client := { s.client with
      callback := hook, registration := s.client.registration + 1 } }

namespace Shared

variable (s : Shared)

def record (e : Entry) : Shared := { s with history := e :: s.history }

def set (id : ℕ) (session : Session) : Shared :=
  { s with sessions := Function.update s.sessions id session }

/-- The section in which `PublishTime` reads the hook, and the call it then makes. -/
def publish (delivery : ℕ) (unixUs : ℤ) : Shared × List Frame :=
  match s.sntp.publish delivery unixUs with
  | (sntp, none) => ({ s with sntp := sntp }, [])
  | (sntp, some hook) =>
    if hook = SntpNetif.notify then
      (({ s with sntp := sntp }).record (.synchronized s.sntp.client.registration),
        [.notify s.sntp.client.registration])
    else ({ s with sntp := sntp }, [.application])

/-- The locked section of `Notify`. -/
def notify (registration : ℕ) : Shared × List Frame :=
  match s.current with
  | none => (s, [])
  | some id =>
    if (s.sessions id).active = false ∨ (s.sessions id).registration ≠ registration then (s, [])
    else ((s.set id (s.sessions id).give).record (.notified id registration), [.deliver id])

/-- The client takes the hook of a new session, and the session becomes the current one. -/
def install (config : Config) : Shared :=
  let sntp := installNotification s.sntp (some SntpNetif.notify)
  let session : Session := {
    semaphore := if config.waitForSync then some false else none
    callback := config.syncCb
    registration := sntp.client.registration }
  (({ s with sntp := sntp, current := some s.next, next := s.next + 1 }).set s.next session).record
    (.installed s.next session.registration)

end Shared

/-- The thread runs application code. -/
def callable : Local → Bool
  | [] => true
  | .application :: _ => true
  | _ => false

/-- The next step of the innermost call. A call that has to take the lock waits while another
thread has it. -/
def resume (now : ℤ) (s : Shared) (rest : Local) : Frame → Option (Shared × Local)
  | .application => some (s, rest)
  | .notify registration =>
    if s.locked then none
    else some ((s.notify registration).1, (s.notify registration).2 ++ rest)
  | .deliver id =>
    match (s.sessions id).callback with
    | none => some (s, .post id :: rest)
    | some _ => some (s.record (.called id), .application :: .post id :: rest)
  | .post id => some (s.record (.posted id), rest)
  | .init config =>
    if s.locked then none
    else if s.current.isSome ∨ s.sntp.client.enabled then some (s, rest)
    else some ({ s with locked := true }, .initServers config 0 :: rest)
  | .initServers config i =>
    if i < Sntp.kMaxServers then
      let name := if i < config.numOfServers then (config.server i).getD "" else ""
      (s.sntp.setServer i { name := name }).map fun sntp =>
        ({ s with sntp := sntp }, .initServers config (i + 1) :: rest)
    else if config.start then some (s.install config, .begin :: rest)
    else some ({ s.install config with locked := false }, rest)
  | .start =>
    if s.locked then none
    else if s.current = none then some (s, rest)
    else some ({ s with locked := true }, .startStop :: rest)
  | .startStop => some ({ s with sntp := s.sntp.stop }, .begin :: rest)
  | .begin => (s.sntp.init now).map fun sntp => ({ s with sntp := sntp, locked := false }, rest)
  | .deinit =>
    if s.locked then none
    else match s.current with
      | none => some (s, rest)
      | some id =>
        some (({ s with locked := true }).set id { s.sessions id with active := false },
          .deinitStop id :: rest)
  | .deinitStop id => some ({ s with sntp := s.sntp.stop }, .deinitClear id :: rest)
  | .deinitClear id =>
    some ({ s with sntp := installNotification s.sntp none }, .deinitGive id :: rest)
  -- One waiter is woken; each waiter that leaves passes the wake to the next.
  | .deinitGive id =>
    some ((({ s with current := none, locked := false }).set id (s.sessions id).give).record
      (.retired id), rest)
  | .syncWait =>
    if s.locked then none
    else match s.current with
      | none => some (s, rest)
      | some id =>
        if (s.sessions id).semaphore = none then some (s, rest)
        else some (({ s with nextWait := s.nextWait + 1 }).set id
          ((s.sessions id).enter s.nextWait), .waiting id s.nextWait :: rest)
  | .waiting id wait =>
    if (s.sessions id).semaphore = some true then
      some (s.set id { s.sessions id with semaphore := some false }, .leave id wait true :: rest)
    else none
  | .leave id wait taken =>
    if s.locked then none
    else
      let r := (s.sessions id).leave wait taken
      some ((s.set id r.1).record (.waited id r.2), rest)

/-- One atomic step of one thread. Any other part of the program may take any step of the client
that does not install the hook of the adapter, whatever calls it is in. -/
def step (overridden : Bool) : Program Shared Local Event
  | .resume now, s, f :: rest => resume now s rest f
  | .resume _, _, [] => none
  | .timeout, s, .waiting id wait :: rest => some (s, .leave id wait false :: rest)
  | .timeout, _, _ => none
  | .client e sl, s, l =>
    if e = .setCallback (some notify) then none
    else (Sntp.step overridden e s.sntp sl).map fun r => ({ s with sntp := r.1 }, l)
  | .publish delivery unixUs, s, l =>
    if callable l ∧ Sntp.inInt64 unixUs then
      some ((s.publish delivery unixUs).1, (s.publish delivery unixUs).2 ++ l)
    else none
  | .init config, s, l =>
    if callable l then
      match config with
      | some c => if validate config = .ok then some (s, .init c :: l) else some (s, l)
      | none => some (s, l)
    else none
  | .start, s, l => if callable l then some (s, .start :: l) else none
  | .deinit, s, l => if callable l then some (s, .deinit :: l) else none
  | .syncWait, s, l => if callable l then some (s, .syncWait :: l) else none

abbrev System := Threads.Config Shared Local

def start : System := ⟨{}, fun _ => []⟩

end RooTesting.SntpNetif
