import RooTesting.Threads

/-! # The WiFi driver

The state of the driver and of the station under one mutex, the calls of the public interface
and the completion of a connection, each cut into the sections that hold the mutex. What a
section decides to post is posted after the mutex is released, one event at a time. -/
namespace RooTesting.Wifi
open Transition Threads

inductive DriverState where
  | uninitialized | stopped | started
  deriving DecidableEq

inductive StationState where
  | disabled | idle | scanning | connecting | associated | gotIp
  deriving DecidableEq

inductive Mode where
  | null | sta | ap | apsta | nan
  deriving DecidableEq

def hasStation : Mode → Bool
  | .sta | .apsta => true
  | _ => false

def hasAccessPoint : Mode → Bool
  | .ap | .apsta => true
  | _ => false

inductive EspErr where
  | ok | invalidArg | noMem | wifiNotInit | wifiInitState | wifiNotStarted | wifiMode | wifiState
  | wifiSsid
  deriving DecidableEq

/-- The fields of the station's configuration that a connection reads. -/
structure StationConfig where
  ssid : String
  bssid : Option ℕ
  password : String
  failureRetryCnt : ℕ
  deriving DecidableEq

def StationConfig.empty : StationConfig := ⟨"", none, "", 0⟩

structure AccessPoint where
  macAddress : ℕ
  ssid : String
  passwd : String
  rssi : ℤ
  channel : ℕ
  deriving DecidableEq

/-- The access points in the order in which the map that holds them is walked. -/
abbrev Environment := List AccessPoint

inductive ConnectionOutcome where
  | automatic | success | noAccessPoint | authenticationFailure | dhcpTimeout | beaconTimeout
  | roaming
  deriving DecidableEq

structure ConnectionAttempt where
  outcome : ConnectionOutcome
  associationDelayMs : ℕ
  dhcpDelayMs : ℕ
  connectedDurationMs : ℕ
  deriving DecidableEq

inductive Reason where
  | noApFound | authFail | assocLeave | roaming | beaconTimeout
  deriving DecidableEq

structure IpInfo where
  ip : ℕ
  netmask : ℕ
  gw : ℕ
  deriving DecidableEq

def IpInfo.none : IpInfo := ⟨0, 0, 0⟩

/-- A default interface of the driver. -/
structure Netif where
  up : Bool
  ipInfo : IpInfo
  dhcpStarted : Bool
  deriving DecidableEq

/-- The posted events. Nothing reads the generation of an attempt in them. -/
inductive Event where
  | staStart | staStop | apStart | apStop
  | staConnected (generation : ℕ) (ap : AccessPoint)
  | staDisconnected (reason : Reason) (ssid : String)
  | staGotIp (generation : ℕ) (ipInfo : IpInfo)
  | staLostIp
  deriving DecidableEq

/-- The variables under the mutex that the station's life depends on. The generation counts
without wrapping (`generations_unwrapped`). -/
structure State where
  driver : DriverState
  station : StationState
  mode : Mode
  stationConfig : StationConfig
  scanInProgress : Bool
  connectGeneration : ℕ
  connectedAp : Option AccessPoint
  stationNetif : Option Netif
  apNetif : Option Netif
  deriving DecidableEq

structure PendingConnection where
  generation : ℕ
  config : StationConfig
  environment : Environment
  attempt : ConnectionAttempt
  lostPreviousIp : Bool

/-- Where a completion is: the section that it enters next. -/
inductive Phase where
  | spawn
  | delay (index : ℕ) (attempt : ConnectionAttempt)
  | fail (reason : Reason)
  | failLostIp
  | lostIp (ap : AccessPoint) (attempt : ConnectionAttempt)
  | associate (ap : AccessPoint) (attempt : ConnectionAttempt)
  | dhcpDelay (attempt : ConnectionAttempt)
  | lease (attempt : ConnectionAttempt)
  | connectedDelay (attempt : ConnectionAttempt)
  | drop (attempt : ConnectionAttempt)
  | dropLostIp

/-- What a thread does after its posts. A call that put an end to all earlier attempts returns
with the first generation after them. -/
inductive Rest where
  | done
  | returning (generation : ℕ)
  | completing (pending : PendingConnection) (phase : Phase)

/-- What a section under the mutex leaves behind. -/
structure Section where
  code : EspErr
  state : State
  posts : List Event
  rest : Rest

namespace State

variable (s : State)

def setStationNetif (up : Bool) (ipInfo : IpInfo → IpInfo) : State :=
  { s with stationNetif := s.stationNetif.map fun netif =>
      { netif with up := up, ipInfo := ipInfo netif.ipInfo } }

def setStationUp (up : Bool) : State := s.setStationNetif up id

def setApUp (up : Bool) : State :=
  { s with apNetif := s.apNetif.map fun netif => { netif with up := up } }

def resetDriverLocked (driverState : DriverState) : State :=
  let next : State := { s with
    connectGeneration := s.connectGeneration + 1
    driver := driverState
    station := if driverState = .uninitialized then .disabled else .idle
    mode := if driverState = .uninitialized then .null else .sta
    stationConfig := .empty
    scanInProgress := false
    connectedAp := none }
  (next.setStationNetif (driverState = .started) fun _ => .none).setApUp false

/-- The station holds an address. -/
def hasStationIp : Bool := s.stationNetif.any fun netif => netif.ipInfo.ip ≠ 0

def clearStationIpLocked : State :=
  if s.hasStationIp then
    { s with stationNetif := s.stationNetif.map fun netif => { netif with ipInfo := .none } }
  else s

def isConnectionCurrentLocked (generation : ℕ) : Bool :=
  generation = s.connectGeneration && s.driver = .started && hasStation s.mode &&
    s.station ≠ .idle && s.station ≠ .disabled

/-- Ends the connection and every attempt at one. -/
def dropConnection : State :=
  { s with
    connectGeneration := s.connectGeneration + 1
    connectedAp := none }.clearStationIpLocked

def refuse (code : EspErr) : Section := ⟨code, s, [], .done⟩

end State

/-- The posts of a call that takes a connection and an address away. -/
def lossPosts (s : State) : List Event :=
  (if s.connectedAp.isSome then [.staDisconnected .assocLeave s.stationConfig.ssid] else []) ++
    if s.hasStationIp then [.staLostIp] else []

section Calls

variable (s : State)

def reset : Section :=
  ⟨.ok, ((s.resetDriverLocked .uninitialized).setStationNetif false fun _ => .none).setApUp false, [],
    .done⟩

def espWifiInit : Section :=
  if s.driver ≠ .uninitialized then s.refuse .wifiInitState
  else ⟨.ok, s.resetDriverLocked .stopped, [], .done⟩

def espWifiDeinit : Section :=
  match s.driver with
  | .uninitialized => s.refuse .wifiNotInit
  | .started => s.refuse .wifiInitState
  | .stopped => ⟨.ok, s.resetDriverLocked .uninitialized, [], .done⟩

/-- The posts of a mode change for one interface. -/
def modePosts (started had has : Bool) (start stop : Event) : List Event :=
  if started && had ≠ has then [if has then start else stop] else []

/-- A mode of `none` is not a valid one. -/
def espWifiSetMode (mode : Option Mode) : Section :=
  match mode with
  | none => s.refuse .invalidArg
  | some mode =>
    if s.driver = .uninitialized then s.refuse .wifiNotInit
    else
      let started : Bool := s.driver = .started
      let interfacePosts :=
        modePosts started (hasStation s.mode) (hasStation mode) .staStart .staStop ++
          modePosts started (hasAccessPoint s.mode) (hasAccessPoint mode) .apStart .apStop
      if !hasStation mode then
        let next := { s with mode := mode, scanInProgress := false }.dropConnection
        ⟨.ok, { next.setStationUp false with station := .disabled },
          lossPosts s ++ interfacePosts, .returning next.connectGeneration⟩
      else if !hasStation s.mode then
        ⟨.ok, { ({ s with mode := mode }.setStationUp started) with station := .idle },
          interfacePosts, .done⟩
      else ⟨.ok, { s with mode := mode }, interfacePosts, .done⟩

def espWifiStart : Section :=
  if s.driver = .uninitialized then s.refuse .wifiNotInit
  else if s.mode = .null then s.refuse .wifiMode
  else if s.driver = .started then s.refuse .ok
  else
    let next := { s with
      driver := .started
      station := if hasStation s.mode then .idle else .disabled }
    let next := if hasStation s.mode then next.setStationUp true else next
    let next := if hasAccessPoint s.mode then next.setApUp true else next
    ⟨.ok, next, (if hasStation s.mode then [.staStart] else []) ++
      if hasAccessPoint s.mode then [.apStart] else [], .done⟩

def espWifiStop : Section :=
  if s.driver = .uninitialized then s.refuse .wifiNotInit
  else if s.driver = .stopped then s.refuse .ok
  else
    let next := { s with
      driver := .stopped
      station := if hasStation s.mode then .idle else .disabled
      scanInProgress := false }.dropConnection
    ⟨.ok, (next.setStationUp false).setApUp false,
      lossPosts s ++ (if hasStation s.mode then [.staStop] else []) ++
        (if hasAccessPoint s.mode then [.apStop] else []),
      .returning next.connectGeneration⟩

def espWifiRestore : Section :=
  if s.driver = .uninitialized then s.refuse .wifiNotInit
  else ⟨.ok, s.resetDriverLocked s.driver, [], .done⟩

def espWifiSetConfig (config : StationConfig) : Section :=
  if s.driver = .uninitialized then s.refuse .wifiNotInit
  else if !hasStation s.mode then s.refuse .wifiMode
  else if s.station = .connecting then s.refuse .wifiState
  else ⟨.ok, { s with stationConfig := config }, [], .done⟩

/-- The completion runs in a task of its own. -/
def isAsynchronous (config : StationConfig) (attempt : ConnectionAttempt) : Bool :=
  attempt.associationDelayMs ≠ 0 || attempt.dhcpDelayMs ≠ 0 || attempt.connectedDurationMs ≠ 0 ||
    config.failureRetryCnt ≠ 0 || attempt.outcome = .beaconTimeout || attempt.outcome = .roaming

/-- The environment and the attempt are the ones that the emulator hands out. -/
def espWifiConnect (environment : Environment) (attempt : ConnectionAttempt) : Section :=
  if s.driver = .uninitialized then s.refuse .wifiNotInit
  else if s.driver ≠ .started then s.refuse .wifiNotStarted
  else if !hasStation s.mode then s.refuse .wifiMode
  else if s.scanInProgress || s.station = .connecting then s.refuse .wifiState
  else if s.stationConfig.ssid = "" then s.refuse .wifiSsid
  else
    let dhcp := s.stationNetif.any Netif.dhcpStarted
    let lostPreviousIp := dhcp && s.hasStationIp
    let next := { s with
      connectGeneration := s.connectGeneration + 1
      connectedAp := none
      station := .connecting }
    let next := if dhcp then next.clearStationIpLocked else next
    let pending := ⟨next.connectGeneration, s.stationConfig, environment, attempt, lostPreviousIp⟩
    ⟨.ok, next, [], .completing pending
      (if isAsynchronous s.stationConfig attempt then .spawn else .delay 0 attempt)⟩

def espWifiDisconnect : Section :=
  if s.driver = .uninitialized then s.refuse .wifiNotInit
  else if s.driver ≠ .started then s.refuse .wifiNotStarted
  else if !hasStation s.mode then s.refuse .wifiMode
  else
    let next := { s.dropConnection with station := .idle }
    ⟨.ok, next, lossPosts s, .returning next.connectGeneration⟩

end Calls

section Completion

/-- The strongest of the access points that the configuration names, the first of equals. -/
def findConfiguredAccessPoint (environment : Environment) (config : StationConfig) :
    Option AccessPoint :=
  environment.foldl (fun found candidate =>
    if candidate.ssid ≠ config.ssid then found
    else if config.bssid.any (· ≠ candidate.macAddress) then found
    else match found with
      | none => some candidate
      | some best => if candidate.rssi > best.rssi then some candidate else found) none

def resolveAssociation (environment : Environment) (config : StationConfig)
    (outcome : ConnectionOutcome) : Except Reason AccessPoint :=
  match findConfiguredAccessPoint environment config with
  | none => .error .noApFound
  | some ap =>
    if outcome = .noAccessPoint then .error .noApFound
    else if outcome = .authenticationFailure then .error .authFail
    else if outcome = .automatic && ap.passwd ≠ config.password then .error .authFail
    else .ok ap

/-- The lease of the emulated DHCP server. -/
def dhcpLease : IpInfo := ⟨0x6401A8C0, 0x00FFFFFF, 0x0101A8C0⟩

/-- The interface of a station that has completed a connection. -/
def leased (netif : Netif) : Netif :=
  { netif with
    up := true
    ipInfo := if netif.dhcpStarted && netif.ipInfo.ip = 0 then dhcpLease else netif.ipInfo }

variable (s : State) (pending : PendingConnection)

/-- `PostLostIpIfCurrent`, up to the post. -/
def lostIpPosts : List Event :=
  if pending.generation ≠ s.connectGeneration || s.stationNetif.isNone || s.hasStationIp then []
  else [.staLostIp]

/-- A section that decides what to do next only: `next` when the attempt is current. -/
def whenCurrent (next : Phase) : Section :=
  if s.isConnectionCurrentLocked pending.generation then ⟨.ok, s, [], .completing pending next⟩
  else s.refuse .ok

/-- The round of the retry loop behind the delay of an attempt. The emulator hands out the
attempt of the next round. -/
def associationRound (index : ℕ) (attempt retry : ConnectionAttempt) : Phase :=
  match resolveAssociation pending.environment pending.config attempt.outcome with
  | .ok ap => if pending.lostPreviousIp then .lostIp ap attempt else .associate ap attempt
  | .error reason =>
    if index < pending.config.failureRetryCnt then .delay (index + 1) retry else .fail reason

/-- One section of `CompleteConnection`. -/
def completeConnection (retry : ConnectionAttempt) (created : Bool) : Phase → Section
  | .spawn =>
    if created then ⟨.ok, s, [], .completing pending (.delay 0 pending.attempt)⟩
    else if pending.generation = s.connectGeneration then
      ⟨.noMem, { s with station := .idle }, [], .done⟩
    else s.refuse .noMem
  | .delay index attempt => whenCurrent s pending (associationRound pending index attempt retry)
  | .fail reason =>
    if s.isConnectionCurrentLocked pending.generation then
      ⟨.ok, { s with station := .idle }, [.staDisconnected reason pending.config.ssid],
        if pending.lostPreviousIp then .completing pending .failLostIp else .done⟩
    else s.refuse .ok
  | .failLostIp => ⟨.ok, s, lostIpPosts s pending, .done⟩
  | .lostIp ap attempt =>
    ⟨.ok, s, lostIpPosts s pending, .completing pending (.associate ap attempt)⟩
  | .associate ap attempt =>
    if s.isConnectionCurrentLocked pending.generation then
      ⟨.ok, { s with connectedAp := some ap, station := .associated },
        [.staConnected pending.generation ap],
        if attempt.outcome = .dhcpTimeout then .done else .completing pending (.dhcpDelay attempt)⟩
    else s.refuse .ok
  | .dhcpDelay attempt => whenCurrent s pending (.lease attempt)
  | .lease attempt =>
    if s.isConnectionCurrentLocked pending.generation then
      let next := { s with stationNetif := s.stationNetif.map leased }
      let hasIp := next.hasStationIp
      ⟨.ok, if hasIp then { next with station := .gotIp } else next,
        if hasIp then
          [.staGotIp pending.generation (next.stationNetif.elim .none Netif.ipInfo)]
        else [],
        if attempt.outcome = .beaconTimeout || attempt.outcome = .roaming then
          .completing pending (.connectedDelay attempt)
        else .done⟩
    else s.refuse .ok
  | .connectedDelay attempt => whenCurrent s pending (.drop attempt)
  | .drop attempt =>
    if s.isConnectionCurrentLocked pending.generation then
      ⟨.ok, { ({ s with connectedAp := none }.clearStationIpLocked) with station := .idle },
        [.staDisconnected (if attempt.outcome = .roaming then .roaming else .beaconTimeout)
          pending.config.ssid],
        if s.hasStationIp then .completing pending .dropLostIp else .done⟩
    else s.refuse .ok
  | .dropLostIp => ⟨.ok, s, lostIpPosts s pending, .done⟩

end Completion

inductive Call where
  | reset | init | deinit | start | stop | restore | disconnect
  | setMode (mode : Option Mode)
  | setConfig (config : StationConfig)
  | scan (inProgress : Bool)
  | connect (environment : Environment) (attempt : ConnectionAttempt)

/-- The section of a call. The scans set and clear one flag of the station's, at any time. -/
def callSection (s : State) : Call → Section
  | .reset => RooTesting.Wifi.reset s
  | .init => espWifiInit s
  | .deinit => espWifiDeinit s
  | .start => espWifiStart s
  | .stop => espWifiStop s
  | .restore => espWifiRestore s
  | .disconnect => espWifiDisconnect s
  | .setMode mode => espWifiSetMode s mode
  | .setConfig config => espWifiSetConfig s config
  | .scan inProgress => ⟨.ok, { s with scanInProgress := inProgress }, [], .done⟩
  | .connect environment attempt => espWifiConnect s environment attempt

/-- What happened, latest first. -/
inductive Entry where
  | posted (event : Event)
  | returned (generation : ℕ)
  deriving DecidableEq

/-- The state, and what nothing of the driver reads: the history and the number of sections
so far. -/
structure Shared where
  state : State
  history : List Entry
  sections : ℕ

/-- The posts that a thread still has to make, the number of the section that decided on them,
and what comes then. -/
structure Local where
  number : ℕ
  posts : List Event
  rest : Rest

def Local.idle : Local := ⟨0, [], .done⟩

inductive Action where
  | call (c : Call)
  | post
  | advance (retry : ConnectionAttempt) (created : Bool)

def Shared.commit (s : Shared) (done : Section) : Shared × Local :=
  ({ s with state := done.state, sections := s.sections + 1 },
    ⟨s.sections, done.posts, done.rest⟩)

/-- One section or one post of one thread. A thread that has returned may call again. -/
def step : Program Shared Local Action
  | .call c, s, ⟨_, [], .done⟩ => some (s.commit (callSection s.state c))
  | .post, s, ⟨number, event :: posts, rest⟩ =>
    some ({ s with history := .posted event :: s.history }, ⟨number, posts, rest⟩)
  | .advance _ _, s, ⟨_, [], .returning generation⟩ =>
    some ({ s with history := .returned generation :: s.history }, .idle)
  | .advance retry created, s, ⟨_, [], .completing pending phase⟩ =>
    some (s.commit (completeConnection s.state pending retry created phase))
  | _, _, _ => none

abbrev System := Config Shared Local

/-- Before the first call, with the default interfaces that were created by then. -/
def start (stationNetif apNetif : Option Netif) : System :=
  ⟨⟨⟨.uninitialized, .disabled, .null, .empty, false, 0, none, stationNetif, apNetif⟩, [], 0⟩,
    fun _ => .idle⟩

end RooTesting.Wifi
