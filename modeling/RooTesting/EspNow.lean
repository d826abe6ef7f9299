import RooTesting.Lifecycles
import RooTesting.Transition
import Mathlib.Algebra.Group.Nat.Defs
import Mathlib.Data.Fin.VecNotation
import Mathlib.Data.Fintype.Basic
import Mathlib.Logic.Function.Basic
import Mathlib.Tactic.Cases
import Mathlib.Tactic.FinCases

/-! # Wireless datagrams

Devices on the air hand packets to an inbox, which one native thread empties into the receive
callback. Tasks set and clear the callbacks and send to the devices. Each side guards its own
data with its own mutex, so a registration is two sections and a delivery reads two callbacks. -/
namespace RooTesting.EspNow
open Transition Lifecycles

abbrev Byte := BitVec 8
abbrev Bytes := List Byte

/-- Six bytes, the first one sent first. -/
abbrev Mac := Fin 6 → Byte

/-- A function pointer. -/
abbrev Callback := ℕ

def getMac (mac : BitVec 64) : Mac :=
  ![(mac >>> 40).setWidth 8, (mac >>> 32).setWidth 8, (mac >>> 24).setWidth 8,
    (mac >>> 16).setWidth 8, (mac >>> 8).setWidth 8, mac.setWidth 8]

def fromMac (addr : Mac) : BitVec 64 :=
  (addr 0).setWidth 64 <<< 40 ||| (addr 1).setWidth 64 <<< 32 ||| (addr 2).setWidth 64 <<< 24 |||
    (addr 3).setWidth 64 <<< 16 ||| (addr 4).setWidth 64 <<< 8 ||| (addr 5).setWidth 64

def broadcast : BitVec 64 := 0xFFFFFFFFFFFF

/-- A length put in an `int`. -/
def int (n : ℕ) : ℤ := Int.bmod n (2 ^ 32)

inductive EspErr where
  | ok | arg | notFound | exist
  deriving DecidableEq

def maxDataLenV2 : ℕ := 1470

structure Packet where
  peerMac : BitVec 64
  size : ℤ
  payload : Bytes
  deriving DecidableEq

/-- The packet that ends the thread. -/
def sentinel : Packet := ⟨0, -1, []⟩

def Packet.isSentinel (packet : Packet) : Bool := packet.peerMac == 0 && packet.size == -1

/-- What a receive callback is called with. -/
structure Call where
  callback : Callback
  source : Mac
  data : Bytes
  size : ℤ
  deriving DecidableEq

/-- Where the thread is. It copies the closure with the packet and the registered callback later. -/
inductive Processor where
  | waiting
  | holding (packet : Packet)
  | copied (packet : Packet) (callback : Callback)
  | inCallback
  | finished
  deriving DecidableEq

/-- Where a task is in a call: `handing` is the loop over the devices, and a confirmation copies
the closure and the registered callback as a delivery does. -/
inductive Task where
  | idle
  | registering
  | unregistering
  | sendRegistering
  | sendUnregistering
  | deinitSend
  | deinitClear
  | handing (rest : List (BitVec 64)) (mac : BitVec 64) (data : Bytes)
  | holding (mac : BitVec 64)
  | copied (mac : BitVec 64) (callback : Callback)
  | returning
  deriving DecidableEq

/-- What a task does as it sends. -/
inductive Mark where
  | send (addr : Option Mac) (data : Option Bytes)
  | handed (device : BitVec 64) (data : Bytes)
  | confirmed (callback : Callback) (destination : Mac) (success : Bool)
  | returned (err : EspErr)
  deriving DecidableEq

/-- The closures that are set as callbacks of the interface are always the same two, so it matters
only whether they are set. `arrived`, `fates` and `log` tell what has happened so far. -/
structure State where
  devices : List (BitVec 64)
  inbox : List Packet
  onRecvCb : Bool
  onSentCb : Bool
  recvCallback : Option Callback
  sendCallback : Option Callback
  processor : Processor
  task : ℕ → Task
  calls : List Call
  arrived : List Packet
  fates : List (Packet × Option Callback)
  log : List (Entry ℕ Mark)

/-- The addresses of the attached devices are in the order of the map. -/
def start (devices : List (BitVec 64)) : State where
  devices := devices
  inbox := []
  onRecvCb := false
  onSentCb := false
  recvCallback := none
  sendCallback := none
  processor := .waiting
  task := fun _ => .idle
  calls := []
  arrived := []
  fates := []
  log := []

namespace State

variable (s : State)

def setTask (t : ℕ) (x : Task) : State := { s with task := Function.update s.task t x }

def mark (t : ℕ) (m : Mark) : State := { s with log := ⟨t, m⟩ :: s.log }

@[simp] theorem setTask_self (t : ℕ) (x : Task) : (s.setTask t x).task t = x := by
  simp [setTask]

@[simp] theorem setTask_of_ne {t u : ℕ} (hu : u ≠ t) (x : Task) :
    (s.setTask t x).task u = s.task u := by
  simp [setTask, hu]

@[simp] theorem mark_task (t : ℕ) (m : Mark) : (s.mark t m).task = s.task := rfl

def push (packet : Packet) : State :=
  { s with
    inbox := s.inbox ++ [packet]
    arrived := s.arrived ++ [packet] }

/-- `incoming`: a device responds. -/
def incoming (peer : BitVec 64) (data : Bytes) : State :=
  if data.length = 0 then s else s.push ⟨peer, int data.length, data⟩

/-- What became of a packet. -/
def settle (packet : Packet) (callback : Option Callback) : State :=
  { s with fates := s.fates ++ [(packet, callback)] }

/-- The next step of the thread. -/
def processInbox : Option State :=
  match s.processor with
  | .waiting =>
    match s.inbox with
    | [] => none
    | packet :: rest =>
      if packet.isSentinel then
        some { s.settle packet none with
          inbox := rest
          processor := .finished }
      else if s.onRecvCb then
        some { s with
          inbox := rest
          processor := .holding packet }
      else some { s.settle packet none with inbox := rest }
  | .holding packet =>
    match s.recvCallback with
    | none => some { s.settle packet none with processor := .waiting }
    | some callback => some { s with processor := .copied packet callback }
  | .copied packet callback =>
    some { s.settle packet (some callback) with
      processor := .inCallback
      calls := s.calls ++ [⟨callback, getMac packet.peerMac, packet.payload, packet.size⟩] }
  | .inCallback => some { s with processor := .waiting }
  | .finished => none

end State

/-- The devices that a destination stands for. -/
def targets (devices : List (BitVec 64)) (mac : BitVec 64) : Option (List (BitVec 64)) :=
  if mac = broadcast then some devices
  else if mac ∈ devices then some [mac]
  else none

/-- A null address is the broadcast address. -/
def destination (addr : Option Mac) : BitVec 64 := (addr.map fromMac).getD broadcast

inductive ApiCall where
  | registerRecv (callback : Option Callback)
  | unregisterRecv
  | registerSend (callback : Option Callback)
  | unregisterSend
  | deinit
  | send (addr : Option Mac) (data : Option Bytes)
  deriving DecidableEq

/-- The first section of a call. -/
def State.begin (s : State) (t : ℕ) : ApiCall → State
  | .registerRecv none => s
  | .registerRecv (some callback) =>
    { s.setTask t .registering with recvCallback := some callback }
  | .unregisterRecv => { s.setTask t .unregistering with onRecvCb := false }
  | .registerSend none => s
  | .registerSend (some callback) =>
    { s.setTask t .sendRegistering with sendCallback := some callback }
  | .unregisterSend => { s.setTask t .sendUnregistering with onSentCb := false }
  | .deinit => { s.setTask t .deinitSend with onRecvCb := false }
  | .send addr none => (s.mark t (.send addr none)).mark t (.returned .arg)
  | .send addr (some data) =>
    if data.length = 0 ∨ maxDataLenV2 < data.length then
      (s.mark t (.send addr (some data))).mark t (.returned .arg)
    else
      match targets s.devices (destination addr) with
      | none => (s.mark t (.send addr (some data))).mark t (.returned .notFound)
      | some rest =>
        (s.mark t (.send addr (some data))).setTask t (.handing rest (destination addr) data)

/-- The next section of the call that a task is in. -/
def State.proceed (s : State) (t : ℕ) : Option State :=
  match s.task t with
  | .idle => none
  | .registering => some { s.setTask t .idle with onRecvCb := true }
  | .unregistering => some { s.setTask t .idle with recvCallback := none }
  | .sendRegistering => some { s.setTask t .idle with onSentCb := true }
  | .sendUnregistering => some { s.setTask t .idle with sendCallback := none }
  | .deinitSend => some { s.setTask t .deinitClear with onSentCb := false }
  | .deinitClear =>
    some { s.setTask t .idle with
      recvCallback := none
      sendCallback := none }
  | .handing (device :: rest) mac data =>
    some ((s.mark t (.handed device data)).setTask t (.handing rest mac data))
  | .handing [] mac _ => some (s.setTask t (if s.onSentCb then .holding mac else .returning))
  | .holding mac =>
    match s.sendCallback with
    | none => some (s.setTask t .returning)
    | some callback => some (s.setTask t (.copied mac callback))
  | .copied mac callback =>
    some ((s.mark t (.confirmed callback (getMac mac) true)).setTask t .returning)
  | .returning => some ((s.mark t (.returned .ok)).setTask t .idle)

/-- A device, the thread, the destructor or a task. -/
inductive Act where
  | incoming (peer : BitVec 64) (data : Bytes)
  | processInbox
  | shutdown
  | begin (t : ℕ) (call : ApiCall)
  | proceed (t : ℕ)
  deriving DecidableEq

def step (s : State) : Act → Option State
  | .incoming peer data => some (s.incoming peer data)
  | .processInbox => s.processInbox
  | .shutdown => some (s.push sentinel)
  | .begin t call => if s.task t = .idle then some (s.begin t call) else none
  | .proceed t => s.proceed t

/-- The bytes of an address are the address again. -/
theorem getMac_fromMac (addr : Mac) : getMac (fromMac addr) = addr := by
  funext i
  fin_cases i <;> simp only [getMac, fromMac] <;> ext j hj <;> simp <;> grind

/-- A byte of a word, put back in its place. -/
theorem getLsbD_byte (mac : BitVec 64) (k : ℕ) {j : ℕ} (hj : j < 64) :
    (((mac >>> k).setWidth 8).setWidth 64 <<< k).getLsbD j =
      (decide (k ≤ j ∧ j < k + 8) && mac.getLsbD j) := by
  by_cases hk : k ≤ j
  · by_cases h8 : j < k + 8
    · have hbyte : j - k < 8 := by omega
      have hword : j - k < 64 := by omega
      have hback : k + (j - k) = j := by omega
      simp [hk, h8, hj, hbyte, hword, hback, Nat.not_lt.mpr hk]
    · have hbyte : ¬ j - k < 8 := by omega
      simp [h8, hbyte]
  · simp [hk, Nat.lt_of_not_le hk]

/-- An address of six bytes is made of its bytes. -/
theorem fromMac_getMac {mac : BitVec 64} (h : mac.toNat < 2 ^ 48) : fromMac (getMac mac) = mac := by
  ext j hj
  rw [← BitVec.getLsbD_eq_getElem, ← BitVec.getLsbD_eq_getElem]
  have hlast := getLsbD_byte mac 0 hj
  simp only [BitVec.ushiftRight_zero, BitVec.shiftLeft_zero] at hlast
  have hbytes : (fromMac (getMac mac)).getLsbD j =
      (decide (40 ≤ j ∧ j < 40 + 8) && mac.getLsbD j ||
        decide (32 ≤ j ∧ j < 32 + 8) && mac.getLsbD j ||
        decide (24 ≤ j ∧ j < 24 + 8) && mac.getLsbD j ||
        decide (16 ≤ j ∧ j < 16 + 8) && mac.getLsbD j ||
        decide (8 ≤ j ∧ j < 8 + 8) && mac.getLsbD j ||
        decide (0 ≤ j ∧ j < 0 + 8) && mac.getLsbD j) := by
    rw [fromMac, BitVec.getLsbD_or, BitVec.getLsbD_or, BitVec.getLsbD_or, BitVec.getLsbD_or,
      BitVec.getLsbD_or, ← hlast, ← getLsbD_byte mac 8 hj, ← getLsbD_byte mac 16 hj,
      ← getLsbD_byte mac 24 hj, ← getLsbD_byte mac 32 hj, ← getLsbD_byte mac 40 hj]
    rfl
  rw [hbytes]
  cases hbit : mac.getLsbD j with
  | false => simp
  | true =>
    have hlow : j < 48 := by
      by_contra hge
      have hhigh : mac.toNat < 2 ^ j :=
        h.trans_le (Nat.pow_le_pow_right Nat.two_pos (by omega))
      rw [BitVec.getLsbD, Nat.testBit_lt_two_pow hhigh] at hbit
      cases hbit
    simp only [Bool.and_true, Bool.or_eq_true, decide_eq_true_eq]
    omega

end RooTesting.EspNow
