import Mathlib.Data.List.Basic
import Mathlib.Data.BitVec
import Mathlib.Tactic.Common

/-! # The 1-Wire bus and its master

Devices answer one bit at a time and the bus carries the conjunction of their answers. A
failed assertion of a device ends the program. The master sends bytes from the low bit on
and finds the addresses on the bus with the search of discrepancies. -/
namespace RooTesting.OneWire

abbrev Byte := BitVec 8

def dscrc2x16Table : List Byte :=
  [0x00, 0x5E, 0xBC, 0xE2, 0x61, 0x3F, 0xDD, 0x83, 0xC2, 0x9C, 0x7E,
    0x20, 0xA3, 0xFD, 0x1F, 0x41, 0x00, 0x9D, 0x23, 0xBE, 0x46, 0xDB,
    0x65, 0xF8, 0x8C, 0x11, 0xAF, 0x32, 0xCA, 0x57, 0xE9, 0x74]

def crcTurn (crc byte : Byte) : Byte :=
  let crc := byte ^^^ crc
  dscrc2x16Table.getD (crc &&& 0x0f).toNat 0 ^^^
    dscrc2x16Table.getD (16 + ((crc >>> 4) &&& 0x0f).toNat) 0

/-- The checksum that the devices and the master compute from the same table. -/
def onewireCrc (buf : List Byte) : Byte := buf.foldl crcTurn 0

theorem last_lt : 7 < 8 := by decide

/-- An address: family code, six bytes of serial number, checksum. -/
structure Rom where
  raw : Vector Byte 8
  checked : getElem raw 7 last_lt = onewireCrc (raw.toList.take 7)

def serialByte (serial : BitVec 64) (i : ℕ) : Byte := (serial >>> (i * 8)).setWidth 8

/-- The address of a family code and a serial number. -/
def Rom.ofSerial (model : Byte) (serial : BitVec 64) : Rom where
  raw := #v[model, serialByte serial 0, serialByte serial 1, serialByte serial 2,
    serialByte serial 3, serialByte serial 4, serialByte serial 5,
    onewireCrc [model, serialByte serial 0, serialByte serial 1, serialByte serial 2,
      serialByte serial 3, serialByte serial 4, serialByte serial 5]]
  checked := rfl

namespace Rom
variable (rom : Rom)

def model : Byte := rom.raw[0]

def serial : BitVec 64 :=
  (rom.raw[1].setWidth 64 <<< 0) ||| (rom.raw[2].setWidth 64 <<< 8) |||
  (rom.raw[3].setWidth 64 <<< 16) ||| (rom.raw[4].setWidth 64 <<< 24) |||
  (rom.raw[5].setWidth 64 <<< 32) ||| (rom.raw[6].setWidth 64 <<< 40)

def getBit (idx : ℕ) : Bool := ((rom.raw.toList.getD (idx >>> 3) 0) >>> (idx &&& 7)).getLsbD 0

end Rom

inductive State where
  | inactive
  | romCommand
  | romCommandDataExchange
  | functionCommand
  | functionCommandDataExchange
  deriving DecidableEq, Repr

/-- The part of a device that its class adds: it sees the function command, the bits
received and the bits sent, and answers with `none` when it fails. -/
structure Functions (σ : Type) where
  startFunctionCommand : Byte → ℕ → ℕ → σ → Option σ
  writeFunctionBit : Bool → Byte → ℕ → ℕ → σ → Option σ
  readFunctionBit : Byte → ℕ → ℕ → σ → Option (Bool × σ)

structure Device (σ : Type) where
  rom : Rom
  state : State
  bitsReceived : ℕ
  bitsSent : ℕ
  romCommand : Byte
  functionCommand : Byte
  own : σ

variable {σ : Type}

/-- A byte that arrives from its low bit on. -/
def shiftIn (command : Byte) (bit : Bool) : Byte :=
  let command := command >>> 1
  if bit then command ||| 0x80 else command

namespace Device
variable (d : Device σ)

def reset : Device σ :=
  { d with
    state := .romCommand
    bitsReceived := 0
    bitsSent := 0
    romCommand := 0
    functionCommand := 0 }

def receiveCommand (bit : Bool) : Device σ :=
  let command := shiftIn d.romCommand bit
  if d.bitsReceived + 1 ≥ 8 then
    { d with
      romCommand := command
      state := if command = 0xCC then .functionCommand else .romCommandDataExchange
      bitsReceived := 0 }
  else
    { d with
      romCommand := command
      bitsReceived := d.bitsReceived + 1 }

def matchBit (bit : Bool) : Device σ :=
  let addressBit := d.rom.getBit d.bitsReceived
  if addressBit ≠ bit then
    { d with
      bitsReceived := d.bitsReceived + 1
      state := .inactive }
  else if d.bitsReceived + 1 ≥ 64 then
    { d with
      bitsReceived := 0
      state := .functionCommand }
  else
    { d with
      bitsReceived := d.bitsReceived + 1 }

def receiveFunction (F : Functions σ) (bit : Bool) : Option (Device σ) :=
  let command := shiftIn d.functionCommand bit
  if d.bitsReceived + 1 ≥ 8 then
    (F.startFunctionCommand command 0 d.bitsSent d.own).map fun own =>
      { d with
        functionCommand := command
        bitsReceived := 0
        state := .functionCommandDataExchange
        own := own }
  else
    some { d with
      functionCommand := command
      bitsReceived := d.bitsReceived + 1 }

def writeBit (F : Functions σ) (bit : Bool) : Option (Device σ) :=
  match d.state with
  | .inactive => some d
  | .romCommand => some (d.receiveCommand bit)
  | .romCommandDataExchange =>
    if d.romCommand = 0x55 ∨ d.romCommand = 0xF0 then some (d.matchBit bit) else none
  | .functionCommand => d.receiveFunction F bit
  | .functionCommandDataExchange =>
    (F.writeFunctionBit bit d.functionCommand d.bitsReceived d.bitsSent d.own).map fun own =>
      { d with
        own := own
        bitsReceived := d.bitsReceived + 1 }

/-- The next bit of a search: every address bit is sent twice, the second time inverted. -/
def sendSearchBit : Bool × Device σ :=
  let addressBit := d.rom.getBit d.bitsReceived
  let flip := d.bitsSent % 2 = 1
  (addressBit ^^ decide flip,
    { d with
      bitsSent := d.bitsSent + 1
      state := if d.bitsSent + 1 ≥ 128 then .inactive else d.state })

def sendAddressBit : Bool × Device σ :=
  (d.rom.getBit d.bitsSent,
    { d with
      bitsSent := d.bitsSent + 1
      state := if d.bitsSent + 1 ≥ 64 then .functionCommand else d.state })

def readBit (F : Functions σ) : Option (Bool × Device σ) :=
  match d.state with
  | .inactive => some (true, d)
  | .romCommandDataExchange =>
    if d.romCommand = 0xF0 then some d.sendSearchBit
    else if d.romCommand = 0x33 then some d.sendAddressBit
    else none
  | .functionCommandDataExchange =>
    (F.readFunctionBit d.functionCommand d.bitsReceived d.bitsSent d.own).map fun answer =>
      (answer.1, { d with
        own := answer.2
        bitsSent := d.bitsSent + 1 })
  | .romCommand | .functionCommand => none

variable {d}

theorem writeBit_rom {F : Functions σ} {bit : Bool} {e : Device σ}
    (h : d.writeBit F bit = some e) : e.rom = d.rom := by
  unfold writeBit at h
  split at h
  · obtain rfl := Option.some.inj h
    rfl
  · obtain rfl := Option.some.inj h
    unfold receiveCommand
    dsimp only
    split <;> rfl
  · split at h
    · obtain rfl := Option.some.inj h
      unfold matchBit
      dsimp only
      split
      · rfl
      · split <;> rfl
    · cases h
  · unfold receiveFunction at h
    dsimp only at h
    split at h
    · obtain ⟨own, _, rfl⟩ := Option.map_eq_some_iff.mp h
      rfl
    · obtain rfl := Option.some.inj h
      rfl
  · obtain ⟨own, _, rfl⟩ := Option.map_eq_some_iff.mp h
    rfl

theorem readBit_rom {F : Functions σ} {r : Bool × Device σ} (h : d.readBit F = some r) :
    r.2.rom = d.rom := by
  unfold readBit at h
  split at h
  · obtain rfl := Option.some.inj h
    rfl
  · split at h
    · obtain rfl := Option.some.inj h
      rfl
    · split at h
      · obtain rfl := Option.some.inj h
        rfl
      · cases h
  · obtain ⟨own, _, rfl⟩ := Option.map_eq_some_iff.mp h
    rfl
  · cases h
  · cases h

end Device

/-- The devices of a bus stand in a map under their serial numbers. -/
structure Bus (σ : Type) where
  devices : List (Device σ)
  ordered : (devices.map fun d => d.rom.serial).Pairwise (· < ·)

namespace Bus

/-- What leaves the addresses alone leaves a bus. -/
def withDevices (bus : Bus σ) (devices : List (Device σ))
    (h : devices.map Device.rom = bus.devices.map Device.rom) : Bus σ where
  devices := devices
  ordered := by
    have hserial : devices.map (fun d => d.rom.serial) =
        bus.devices.map fun d => d.rom.serial := by
      have := congrArg (List.map Rom.serial) h
      simpa only [List.map_map, Function.comp_def] using this
    rw [hserial]
    exact bus.ordered

def reset (bus : Bus σ) : Bool × Bus σ :=
  (!bus.devices.isEmpty, bus.withDevices (bus.devices.map Device.reset) (by simp [Device.reset]))

def writeDevices (F : Functions σ) (bit : Bool) : List (Device σ) → Option (List (Device σ))
  | [] => some []
  | d :: ds => do
    let d ← d.writeBit F bit
    let ds ← writeDevices F bit ds
    some (d :: ds)

/-- The wire is low as soon as one device pulls it; every device is asked. -/
def readDevices (F : Functions σ) : List (Device σ) → Option (Bool × List (Device σ))
  | [] => some (true, [])
  | d :: ds => do
    let (bit, d) ← d.readBit F
    let (rest, ds) ← readDevices F ds
    some (bit && rest, d :: ds)

theorem writeDevices_rom {F : Functions σ} {bit : Bool} {ds ds' : List (Device σ)}
    (h : writeDevices F bit ds = some ds') : ds'.map Device.rom = ds.map Device.rom := by
  induction ds generalizing ds' with
  | nil =>
    obtain rfl := Option.some.inj h
    rfl
  | cons d ds ih =>
    simp only [writeDevices, Option.bind_eq_bind, Option.bind_eq_some_iff,
      Option.some.injEq] at h
    obtain ⟨e, he, es, hes, rfl⟩ := h
    rw [List.map_cons, List.map_cons, Device.writeBit_rom he, ih hes]

theorem readDevices_rom {F : Functions σ} {ds : List (Device σ)} {r : Bool × List (Device σ)}
    (h : readDevices F ds = some r) : r.2.map Device.rom = ds.map Device.rom := by
  induction ds generalizing r with
  | nil =>
    obtain rfl := Option.some.inj h
    rfl
  | cons d ds ih =>
    simp only [readDevices, Option.bind_eq_bind, Option.bind_eq_some_iff,
      Option.some.injEq] at h
    obtain ⟨e, he, es, hes, rfl⟩ := h
    rw [List.map_cons, List.map_cons, Device.readBit_rom he, ih hes]

def writeBit (F : Functions σ) (bit : Bool) (bus : Bus σ) : Option (Bus σ) :=
  match h : writeDevices F bit bus.devices with
  | none => none
  | some ds => some (bus.withDevices ds (writeDevices_rom h))

def readBit (F : Functions σ) (bus : Bus σ) : Option (Bool × Bus σ) :=
  match h : readDevices F bus.devices with
  | none => none
  | some (bit, ds) => some (bit, bus.withDevices ds (readDevices_rom h))

theorem writeBit_eq {F : Functions σ} {bit : Bool} {bus : Bus σ} {ds : List (Device σ)}
    (h : writeDevices F bit bus.devices = some ds) :
    ∃ bus', bus.writeBit F bit = some bus' ∧ bus'.devices = ds := by
  refine ⟨bus.withDevices ds (writeDevices_rom h), ?_, rfl⟩
  unfold writeBit
  split
  · rename_i hnone
    rw [h] at hnone
    cases hnone
  · rename_i ds' hds
    obtain rfl := Option.some.inj (h.symm.trans hds)
    rfl

theorem readBit_eq {F : Functions σ} {bus : Bus σ} {bit : Bool} {ds : List (Device σ)}
    (h : readDevices F bus.devices = some (bit, ds)) :
    ∃ bus', bus.readBit F = some (bit, bus') ∧ bus'.devices = ds := by
  refine ⟨bus.withDevices ds (readDevices_rom h), ?_, rfl⟩
  unfold readBit
  split
  · rename_i hnone
    rw [h] at hnone
    cases hnone
  · rename_i bit' ds' hds
    obtain ⟨rfl, rfl⟩ := Prod.mk.inj (Option.some.inj (h.symm.trans hds))
    rfl

end Bus

/-- A device whose serial number is already there is dropped. -/
def insertDevice (device : Device σ) : List (Device σ) → List (Device σ)
  | [] => [device]
  | d :: ds =>
    if device.rom.serial < d.rom.serial then device :: d :: ds
    else if device.rom.serial = d.rom.serial then d :: ds
    else d :: insertDevice device ds

/-- A device with a new serial number is added. -/
theorem insertDevice_perm {device : Device σ} {ds : List (Device σ)}
    (hnew : ∀ d ∈ ds, d.rom.serial ≠ device.rom.serial) :
    (insertDevice device ds).Perm (device :: ds) := by
  induction ds with
  | nil => exact List.Perm.refl _
  | cons e es ih =>
    unfold insertDevice
    split
    · exact List.Perm.refl _
    · rw [if_neg (hnew e List.mem_cons_self).symm]
      exact ((ih fun d hd => hnew d (List.mem_cons_of_mem _ hd)).cons e).trans
        (List.Perm.swap _ _ _)

theorem serial_insertDevice {device d : Device σ} {ds : List (Device σ)}
    (h : d ∈ insertDevice device ds) : d = device ∨ d ∈ ds := by
  induction ds with
  | nil => exact Or.inl (List.mem_singleton.mp h)
  | cons e es ih =>
    unfold insertDevice at h
    split at h
    · exact List.mem_cons.mp h
    · split at h
      · exact Or.inr h
      · rcases List.mem_cons.mp h with rfl | h
        · exact Or.inr List.mem_cons_self
        · exact (ih h).imp_right (List.mem_cons_of_mem _)

theorem insertDevice_ordered {device : Device σ} {ds : List (Device σ)}
    (h : (ds.map fun d => d.rom.serial).Pairwise (· < ·)) :
    ((insertDevice device ds).map fun d => d.rom.serial).Pairwise (· < ·) := by
  induction ds with
  | nil => simp [insertDevice]
  | cons e es ih =>
    rw [List.map_cons, List.pairwise_cons] at h
    obtain ⟨hall, hes⟩ := h
    unfold insertDevice
    split
    · rename_i hlt
      rw [List.map_cons, List.pairwise_cons]
      refine ⟨?_, by rw [List.map_cons, List.pairwise_cons]; exact ⟨hall, hes⟩⟩
      intro s hs
      rcases List.mem_cons.mp hs with rfl | hs
      · exact hlt
      · exact BitVec.lt_trans hlt (hall s hs)
    · split
      · rw [List.map_cons, List.pairwise_cons]
        exact ⟨hall, hes⟩
      · rename_i hnot hne
        rw [List.map_cons, List.pairwise_cons]
        refine ⟨?_, ih hes⟩
        intro s hs
        obtain ⟨d, hd, rfl⟩ := List.mem_map.mp hs
        rcases serial_insertDevice hd with rfl | hd
        · exact BitVec.lt_of_le_ne (BitVec.not_lt.mp hnot) (Ne.symm hne)
        · exact hall _ (List.mem_map_of_mem hd)

namespace Bus

def empty : Bus σ where
  devices := []
  ordered := List.Pairwise.nil

def addDevice (bus : Bus σ) (device : Device σ) : Bus σ where
  devices := insertDevice device bus.devices
  ordered := insertDevice_ordered bus.ordered

/-- The bus of a list of devices. -/
def interface (devices : List (Device σ)) : Bus σ := devices.foldl addDevice empty

/-- Devices with distinct serial numbers are all on the bus. -/
theorem interface_perm {devices : List (Device σ)}
    (h : (devices.map fun d => d.rom.serial).Nodup) :
    (interface devices).devices.Perm devices := by
  induction devices using List.reverseRecOn with
  | nil => exact List.Perm.refl _
  | append_singleton devices device ih =>
    rw [List.map_append, List.nodup_append] at h
    obtain ⟨hnodup, _, hnew⟩ := h
    have hbus := ih hnodup
    have hinterface : (interface (devices ++ [device])).devices =
        insertDevice device (interface devices).devices := by
      rw [interface, List.foldl_append]
      rfl
    rw [hinterface]
    refine (insertDevice_perm ?_).trans ((hbus.cons device).trans ?_)
    · intro d hd
      exact hnew _ (List.mem_map_of_mem (hbus.mem_iff.mp hd)) _ (by simp)
    · exact (List.perm_append_singleton device devices).symm

end Bus

abbrev Address := Vector Byte 8

/-- The search state of a master. -/
structure Master where
  romNo : Address
  lastDiscrepancy : ℕ
  lastFamilyDiscrepancy : ℕ
  lastDeviceFlag : Bool
  deriving DecidableEq

/-- The local variables of one search. -/
structure Walk where
  idBitNumber : ℕ
  lastZero : ℕ
  romByteNumber : ℕ
  romByteMask : Byte

def Walk.start : Walk := ⟨1, 0, 0, 1⟩

def Walk.next (walk : Walk) : Walk :=
  let mask := walk.romByteMask <<< 1
  { walk with
    idBitNumber := walk.idBitNumber + 1
    romByteNumber := if mask = 0 then walk.romByteNumber + 1 else walk.romByteNumber
    romByteMask := if mask = 0 then 1 else mask }

def writeByte (F : Functions σ) (v : Byte) (bus : Bus σ) : Option (Bus σ) :=
  (List.range 8).foldlM (fun bus i => bus.writeBit F (v &&& 1#8 <<< i ≠ 0)) bus

namespace Master
variable (m : Master)

/-- The whole search state is overwritten. -/
def resetSearch (_ : Master) : Master where
  romNo := Vector.replicate 8 0
  lastDiscrepancy := 0
  lastFamilyDiscrepancy := 0
  lastDeviceFlag := false

/-- The counters are cleared, the last address stays. -/
def resetCounters : Master :=
  { m with
    lastDiscrepancy := 0
    lastDeviceFlag := false
    lastFamilyDiscrepancy := 0 }

def romByte (walk : Walk) : Byte := m.romNo.toList.getD walk.romByteNumber 0

/-- The direction at a discrepancy. -/
def choose (walk : Walk) : Bool :=
  if walk.idBitNumber < m.lastDiscrepancy then decide (0 < m.romByte walk &&& walk.romByteMask)
  else decide (walk.idBitNumber = m.lastDiscrepancy)

/-- A zero picked at a discrepancy is recorded. -/
def recordZero (walk : Walk) : Master × Walk :=
  ({ m with
      lastFamilyDiscrepancy :=
        if walk.idBitNumber < 9 then walk.idBitNumber else m.lastFamilyDiscrepancy },
    { walk with
      lastZero := walk.idBitNumber })

def setBit (walk : Walk) (searchDirection : Bool) : Master :=
  { m with
    romNo := m.romNo.setIfInBounds walk.romByteNumber
      (if searchDirection then m.romByte walk ||| walk.romByteMask
       else m.romByte walk &&& ~~~walk.romByteMask) }

/-- The bit to send and the notes taken, from the two bits read. -/
def decideDirection (walk : Walk) (idBit cmpIdBit : Bool) : Bool × Master × Walk :=
  if idBit ≠ cmpIdBit then (idBit, m, walk)
  else if m.choose walk then (true, m, walk)
  else (false, m.recordZero walk)

/-- One turn of the loop. The first part is false where no device has answered. -/
def searchRound (F : Functions σ) (walk : Walk) (bus : Bus σ) :
    Option (Bool × Master × Walk × Bus σ) := do
  let (idBit, bus) ← bus.readBit F
  let (cmpIdBit, bus) ← bus.readBit F
  if idBit && cmpIdBit then
    some (false, m, walk, bus)
  else
    let (searchDirection, m, walk) := m.decideDirection walk idBit cmpIdBit
    let m := m.setBit walk searchDirection
    let bus ← bus.writeBit F searchDirection
    some (true, m, walk.next, bus)

/-- The loop, for at most `fuel` turns. -/
def searchLoop (F : Functions σ) : ℕ → Master → Walk → Bus σ → Option (Master × Walk × Bus σ)
  | 0, _, _, _ => none
  | fuel + 1, m, walk, bus => do
    let (answered, m, walk, bus) ← m.searchRound F walk bus
    if answered ∧ walk.romByteNumber < 8 then searchLoop F fuel m walk bus
    else some (m, walk, bus)

/-- What follows the loop. -/
def finish (searchResult : Bool) : Option Address × Master :=
  if !searchResult || m.romNo[0] = 0 then (none, m.resetCounters) else (some m.romNo, m)

def recordLast (walk : Walk) : Master :=
  { m with
    lastDiscrepancy := walk.lastZero
    lastDeviceFlag := if walk.lastZero = 0 then true else m.lastDeviceFlag }

/-- One search; the result is the address found. The loop has at most 64 turns. -/
def search (F : Functions σ) (searchMode : Bool) (bus : Bus σ) :
    Option (Option Address × Master × Bus σ) :=
  if m.lastDeviceFlag then
    some ((m.finish false).1, (m.finish false).2, bus)
  else
    let (presence, bus) := bus.reset
    if !presence then
      some (none, m.resetCounters, bus)
    else do
      let bus ← writeByte F (if searchMode then 0xF0 else 0xEC) bus
      let (m, walk, bus) ← searchLoop F 64 m Walk.start bus
      if ¬ walk.idBitNumber < 65 then
        let m := m.recordLast walk
        some ((m.finish true).1, (m.finish true).2, bus)
      else
        some ((m.finish false).1, (m.finish false).2, bus)

/-- Repeated searches. -/
def searches (F : Functions σ) : ℕ → Master → Bus σ →
    Option (List (Option Address) × Master × Bus σ)
  | 0, m, bus => some ([], m, bus)
  | k + 1, m, bus => do
    let (found, m, bus) ← m.search F true bus
    let (rest, m, bus) ← searches F k m bus
    some (found :: rest, m, bus)

end Master

/-- The master's checksum. -/
def crc8 (addr : List Byte) : Byte := addr.foldl crcTurn 0

end RooTesting.OneWire
