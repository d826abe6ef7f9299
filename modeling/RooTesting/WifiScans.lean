import Mathlib.Data.List.Sort
import RooTesting.Lifecycles
import RooTesting.WifiStates
import Mathlib.Algebra.Group.Nat.Defs

/-! # The scans of the WiFi driver

A scan is accepted in one section under the mutex, gathers its results without it and takes
effect in a second section that looks at nothing again. A completion of its own, or the caller
of a blocking scan, publishes the results in a third. All the other calls of the driver run in
between. -/
namespace RooTesting.WifiScans
open Transition Threads Lifecycles
open Wifi hiding step start Action Entry Shared System

abbrev Byte := UInt8

/-- What a scan reads of an access point of the environment. -/
structure Beacon where
  macAddress : ℕ
  ssid : List Byte
  channel : ℤ
  rssi : ℤ
  authMode : ℕ
  isVisible : Bool

structure ScanConfig where
  ssid : Option (List Byte)
  bssid : Option ℕ
  channel : ℕ
  showHidden : Bool

/-- The fields of a record that come from the access point. -/
structure ApRecord where
  bssid : ℕ
  ssid : List Byte
  primary : ℕ
  rssi : ℤ
  authmode : ℕ
  deriving DecidableEq

def cString (bytes : List Byte) : List Byte := bytes.takeWhile (· ≠ 0)

def toRecord (ap : Beacon) : ApRecord :=
  ⟨ap.macAddress, ap.ssid.take 33, (ap.channel % 256).toNat, ap.rssi, ap.authMode⟩

/-- The access point passes the filter of the scan. -/
def passes (config : Option ScanConfig) (ap : Beacon) : Bool :=
  match config with
  | none => ap.isVisible
  | some config =>
    (ap.isVisible || config.showHidden) &&
      (config.channel = 0 || (config.channel : ℤ) = ap.channel) &&
      config.ssid.all (fun ssid => cString ssid = cString ap.ssid) &&
      config.bssid.all (· = ap.macAddress)

/-- The order of the records: the stronger first, then by address. -/
def recordLe (lhs rhs : ApRecord) : Prop :=
  if lhs.rssi ≠ rhs.rssi then lhs.rssi > rhs.rssi else lhs.bssid ≤ rhs.bssid

instance : DecidableRel recordLe := fun lhs rhs =>
  inferInstanceAs (Decidable (if lhs.rssi ≠ rhs.rssi then _ else _))

def gather (config : Option ScanConfig) (accessPoints : List Beacon) : List ApRecord :=
  ((accessPoints.filter (passes config)).map toRecord).insertionSort recordLe

/-- What the log keeps of a scan. Nothing of the driver reads it. -/
inductive Mark where
  | began (results : List ApRecord)
  | returned
  | failed
  | completed (published : List ApRecord)
  | stopped
  | ended
  | scanDone (status number : ℕ)
  deriving DecidableEq

/-- The variables of the driver, those of the scans, and the log of the scans by generation,
which is counted without wrapping (`scans_unwrapped`). -/
structure Scans where
  wifi : Wifi.Shared
  pendingScanResults : List ApRecord
  scanResults : List ApRecord
  scanGeneration : ℕ
  log : List (Entry ℕ Mark)

/-- What a thread does: any other call of the driver, or its part in a scan. -/
inductive Task where
  | radio (l : Local)
  | accepted (config : Option ScanConfig) (block : Bool)
  | creating (scan : ℕ)
  | waiting (scan : ℕ) (block : Bool)
  | posting (scan status number : ℕ) (block : Bool)

def Task.idle : Task := .radio .idle

namespace Scans

variable (s : Scans)

def state : State := s.wifi.state

def scanInProgress : Bool := s.wifi.state.scanInProgress

def setScanInProgress (inProgress : Bool) : Scans :=
  { s with wifi.state.scanInProgress := inProgress }

def mark (scan : ℕ) (m : Mark) : Scans := { s with log := ⟨scan, m⟩ :: s.log }

/-- `mark` on the scan in progress, when there is one. -/
def markCurrent (m : Mark) : Scans := if s.scanInProgress then s.mark s.scanGeneration m else s

end Scans

section ScanStart

/-- The checks in the first section of `esp_wifi_scan_start`. -/
def scanStartCode (s : State) : EspErr :=
  if s.driver = .uninitialized then .wifiNotInit
  else if s.driver ≠ .started then .wifiNotStarted
  else if s.mode ≠ .sta ∧ s.mode ≠ .apsta then .wifiMode
  else if s.station = .connecting ∨ s.scanInProgress then .wifiState
  else .ok

variable (s : Scans)

def espWifiScanStart (config : Option ScanConfig) (block : Bool) : Scans × Task :=
  (s, if scanStartCode s.state = .ok then .accepted config block else .idle)

/-- The second section of `esp_wifi_scan_start`. -/
def beginScan (results : List ApRecord) (block : Bool) : Scans × Task :=
  let scan := s.scanGeneration + 1
  ({ (s.setScanInProgress true).mark scan (.began results) with
      pendingScanResults := results
      scanGeneration := scan },
    if block then .waiting scan true else .creating scan)

/-- The completion of an asynchronous scan is a task of its own. Without memory for it the scan
is given up in a section of its own. -/
def createCompletion (scan : ℕ) (created : Bool) : Scans × Task :=
  if created then (s.mark scan .returned, .waiting scan false)
  else
    ({ (s.setScanInProgress false).mark scan .failed with pendingScanResults := [] }, .idle)

/-- The section of `CompleteAndPostScan`. A blocking scan returns after it. -/
def completeAndPostScan (scan : ℕ) (block : Bool) : Scans × Task :=
  if scan ≠ s.scanGeneration ∨ !s.scanInProgress then
    (if block then s.mark scan .returned else s, .idle)
  else
    ({ (s.setScanInProgress false).mark scan (.completed s.pendingScanResults) with
        scanResults := s.pendingScanResults
        pendingScanResults := [] },
      .posting scan 0 (s.pendingScanResults.length % 2 ^ 16) block)

def postScanDone (scan status number : ℕ) (block : Bool) : Scans × Task :=
  let posted := s.mark scan (.scanDone status number)
  (if block then posted.mark scan .returned else posted, .idle)

end ScanStart

section Endings

variable (s : Scans)

def scanStopCode (s : State) : EspErr :=
  if s.driver = .uninitialized then .wifiNotInit
  else if s.driver ≠ .started then .wifiNotStarted
  else .ok

def espWifiScanStop : Scans × Task :=
  if scanStopCode s.state ≠ .ok then (s, .idle)
  else if !s.scanInProgress then (s, .idle)
  else
    ({ (s.setScanInProgress false).mark s.scanGeneration .stopped with
        scanGeneration := s.scanGeneration + 1
        pendingScanResults := []
        scanResults := [] },
      .posting s.scanGeneration 1 0 false)

/-- The calls that reset the driver. -/
def resetsDriver (s : State) : Call → Bool
  | .reset => true
  | .init => s.driver = .uninitialized
  | .deinit => s.driver = .stopped
  | .restore => s.driver ≠ .uninitialized
  | _ => false

/-- The calls whose section ends a scan besides. -/
def endsScan (s : State) : Call → Bool
  | .stop => s.driver = .started
  | .setMode (some mode) => s.driver ≠ .uninitialized && !hasStation mode
  | c => resetsDriver s c

/-- What a step of the rest of the driver, which leaves `wifi`, does to the scans. The flag is
in the state of the driver. -/
def follow (wifi : Wifi.Shared) : Wifi.Action → Scans
  | .call c =>
    if endsScan s.state c then
      { s.markCurrent .ended with
        wifi := wifi
        scanGeneration := s.scanGeneration + 1
        pendingScanResults := []
        scanResults := if resetsDriver s.state c then [] else s.scanResults }
    else { s with wifi := wifi }
  | _ => { s with wifi := wifi }

end Endings

inductive Action where
  | radio (a : Wifi.Action)
  | scanStart (config : Option ScanConfig) (block : Bool)
  | beginScan (accessPoints : List Beacon)
  | create (created : Bool)
  | complete
  | postScanDone
  | scanStop
  | takeResults (count : ℕ)

/-- One section or one post of one thread. The environment is the one the emulator hands out,
and the calls that read the results take some of them away. -/
def step : Program Scans Task Action
  | .radio (.call (.scan _)), _, _ => none
  | .radio a, s, .radio l =>
    (Wifi.step a s.wifi l).map fun r => (follow s r.1 a, .radio r.2)
  | .scanStart config block, s, .radio ⟨_, [], .done⟩ => some (espWifiScanStart s config block)
  | .beginScan accessPoints, s, .accepted config block =>
    some (beginScan s (gather config accessPoints) block)
  | .create created, s, .creating scan => some (createCompletion s scan created)
  | .complete, s, .waiting scan block => some (completeAndPostScan s scan block)
  | .postScanDone, s, .posting scan status number block =>
    some (postScanDone s scan status number block)
  | .scanStop, s, .radio ⟨_, [], .done⟩ => some (espWifiScanStop s)
  | .takeResults count, s, .radio ⟨number, [], .done⟩ =>
    some ({ s with scanResults := s.scanResults.drop count }, .radio ⟨number, [], .done⟩)
  | _, _, _ => none

abbrev System := Config Scans Task

/-- Before the first call. -/
def start (stationNetif apNetif : Option Netif) : System :=
  ⟨⟨(Wifi.start stationNetif apNetif).shared, [], [], 0, []⟩, fun _ => .idle⟩

end RooTesting.WifiScans
