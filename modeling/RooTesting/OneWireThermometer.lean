import RooTesting.OneWire
import RooTesting.Transition
import Mathlib.Data.Rat.Floor
import Mathlib.Data.List.GetD

/-! # The scratchpad of a 1-Wire thermometer

The record has nine bytes, the last of them a checksum of the others. Commands and a conversion that
takes time write it; a master reads and writes it bit by bit, for as long as it likes. -/
namespace RooTesting.OneWireThermometer
open Transition
open OneWire (Byte Rom Functions Device onewireCrc)

abbrev Scratchpad := Vector Byte 9

def byteAt (buf : Scratchpad) (i : ℕ) : Byte := buf.toList.getD i 0

/-- `set_bit` in the record, from a byte of it on. What lies behind the record is not changed. -/
def setBit (buf : Scratchpad) (base idx : ℕ) (bit : Bool) : Scratchpad :=
  let mask := (1 : Byte) <<< (idx &&& 7)
  let byte := byteAt buf (base + (idx >>> 3))
  buf.setIfInBounds (base + (idx >>> 3)) (if bit then byte ||| mask else byte &&& ~~~mask)

/-- `get_bit`. -/
def getBit (buf : Scratchpad) (idx : ℕ) : Bool := (byteAt buf (idx >>> 3) >>> (idx &&& 7)).getLsbD 0

def CONVERT_T : Byte := 0x44
def READ_SCRATCHPAD : Byte := 0xBE
def WRITE_SCRATCHPAD : Byte := 0x4E
def COPY_SCRATCHPAD : Byte := 0x48
def RECALL_E2 : Byte := 0xB8
def READ_POWER_SUPPLY : Byte := 0xB4

def MODEL_DS18S20 : Byte := 0x10

inductive Power | supplied | parasite
  deriving DecidableEq

structure EepromState where
  tH : Byte
  tL : Byte
  resolution : Byte

/-- A thermometer in its surroundings: `now` is the time of the system clock, and `reading` what the
transducer would give, as degrees Celsius. Nothing of the code reads the list of the bytes of the
record that it has touched bit by bit, or the number of bits read since the function command. -/
structure Thermometer where
  scratchpad : Scratchpad
  eeprom : EepromState
  power : Power
  conversionInProgress : Bool
  conversionStart : ℤ
  temperature : ℚ
  isAlarming : Bool
  now : ℤ
  reading : ℚ
  accesses : List ℕ
  slots : ℕ

/-- Towards zero, as a conversion of a `double` does. -/
def truncate (x : ℚ) : ℤ := if 0 ≤ x then ⌊x⌋ else ⌈x⌉

def tconvUs (resolution : ℕ) : ℤ :=
  if resolution = 9 then 90000
  else if resolution = 10 then 180000
  else if resolution = 11 then 360000
  else 720000

namespace Thermometer
variable (model : Byte) (t : Thermometer)

def recalculateScratchCrc : Thermometer :=
  { t with scratchpad := t.scratchpad.set 8 (onewireCrc (t.scratchpad.toList.take 8)) }

/-- `has_configurable_resolution`. -/
def configurable : Bool := model ≠ MODEL_DS18S20

def resolution : ℕ := if configurable model then (t.scratchpad[4] >>> 5).toNat + 9 else 12

/-- The bytes of a temperature. -/
def converted (tempC : ℚ) : Scratchpad :=
  if configurable model then
    let temp : BitVec 16 := BitVec.ofInt 16 (truncate (tempC * 16))
    (t.scratchpad.set 0 (temp.setWidth 8)).set 1 ((temp >>> 8).setWidth 8)
  else
    ((t.scratchpad.set 0 (BitVec.ofInt 8 (truncate (tempC * 2)))).set 1
      (if 0 ≤ tempC then 0x00 else 0xFF)).set 6
        (BitVec.ofInt 8 (truncate ((tempC - truncate tempC) * 16)))

def checkFinishConversion : Thermometer :=
  if t.conversionInProgress = true ∧ tconvUs (t.resolution model) ≤ t.now - t.conversionStart then
    let tempC := max (-55) (min t.temperature 125)
    let t := { t with
      conversionInProgress := false
      conversionStart := 0
      scratchpad := t.converted model tempC }.recalculateScratchCrc
    let alarmingTemp := truncate tempC
    { t with
      isAlarming := t.scratchpad[2].toInt ≤ alarmingTemp || alarmingTemp ≤ t.scratchpad[3].toInt }
  else t

def startFunctionCommand (command : Byte) : Thermometer :=
  let t := t.checkFinishConversion model
  if command = CONVERT_T then
    { t with
      temperature := t.reading
      conversionInProgress := true
      conversionStart := t.now }
  else if command = COPY_SCRATCHPAD then
    let eeprom := { t.eeprom with
      tH := t.scratchpad[2]
      tL := t.scratchpad[3] }
    { t with
      eeprom :=
        if configurable model then { eeprom with resolution := t.scratchpad[4] } else eeprom }
  else if command = RECALL_E2 then
    let scratchpad := (t.scratchpad.set 2 t.eeprom.tH).set 3 t.eeprom.tL
    { t with
      scratchpad := if configurable model then scratchpad.set 4 t.eeprom.resolution else scratchpad
      }.recalculateScratchCrc
  else t

def writeFunctionBit (bit : Bool) (command : Byte) (bitsReceived : ℕ) : Thermometer :=
  if command = WRITE_SCRATCHPAD then
    { t with
      scratchpad := setBit t.scratchpad 2 bitsReceived bit
      accesses := t.accesses ++ [2 + (bitsReceived >>> 3)] }.recalculateScratchCrc
  else t

def readFunctionBit (command : Byte) (bitsSent : ℕ) : Bool × Thermometer :=
  if command = READ_SCRATCHPAD then
    (getBit t.scratchpad bitsSent, { t with accesses := t.accesses ++ [bitsSent >>> 3] })
  else if command = READ_POWER_SUPPLY then (t.power = .supplied, t)
  else if command = CONVERT_T ∧ t.power = .supplied then
    let t := t.checkFinishConversion model
    (!t.conversionInProgress, t)
  else (true, t)

end Thermometer

/-- The class of the device. -/
def functions (model : Byte) : Functions Thermometer where
  startFunctionCommand command _ _ t :=
    some { t.startFunctionCommand model command with slots := 0 }
  writeFunctionBit bit command bitsReceived _ t :=
    some (t.writeFunctionBit bit command bitsReceived)
  readFunctionBit command _ bitsSent t :=
    let answer := t.readFunctionBit model command bitsSent
    some (answer.1, { answer.2 with slots := t.slots + 1 })

/-- A new device, before its first reset. -/
def create (rom : Rom) (eeprom : EepromState) (power : Power) (now : ℤ) (reading : ℚ) :
    Device Thermometer where
  rom := rom
  state := .inactive
  bitsReceived := 0
  bitsSent := 0
  romCommand := 0
  functionCommand := 0
  own := Thermometer.recalculateScratchCrc
    { scratchpad := #v[0xAA, 0x00, eeprom.tH, eeprom.tL, eeprom.resolution, 0xFF, 0x0C, 0x10, 0]
      eeprom := eeprom
      power := power
      conversionInProgress := false
      conversionStart := 0
      temperature := 0
      isAlarming := false
      now := now
      reading := reading
      accesses := []
      slots := 0 }

inductive Event
  | reset
  | writeBit (bit : Bool)
  | readBit
  | surroundings (now : ℤ) (reading : ℚ)
  | setPower (power : Power)
  deriving DecidableEq

/-- What an event does, with the answer to a read slot; a failed assertion ends the run. -/
def step (d : Device Thermometer) : Event → Option (Option Bool × Device Thermometer)
  | .reset => some (none, d.reset)
  | .writeBit bit => (d.writeBit (functions d.rom.model) bit).map fun d => (none, d)
  | .readBit => (d.readBit (functions d.rom.model)).map fun answer => (some answer.1, answer.2)
  | .surroundings now reading =>
      some (none, { d with own := { d.own with now := now, reading := reading } })
  | .setPower power => some (none, { d with own := { d.own with power := power } })

def next (d : Device Thermometer) (event : Event) : Option (Device Thermometer) :=
  (step d event).map Prod.snd

/-- The last byte is the checksum of the others. -/
def Checked (buf : Scratchpad) : Prop := byteAt buf 8 = onewireCrc (buf.toList.take 8)

/-- A function command is being carried out. -/
def During (command : Byte) (d : Device Thermometer) : Prop :=
  d.state = .functionCommandDataExchange ∧ d.functionCommand = command

instance decidableDuring (command : Byte) (d : Device Thermometer) : Decidable (During command d) :=
  inferInstanceAs (Decidable (_ ∧ _))

/-- Bits are set and got inside of the record only; slots of WRITE_SCRATCHPAD leave all bytes but
the three that can be written and the checksum; READ_SCRATCHPAD starts with the right checksum,
leaves the record and answers with its bits, one after the other. -/
structure Kept (d : Device Thermometer) (event : Event) (answer : Option Bool)
    (d' : Device Thermometer) : Prop where
  inside : ∀ byte ∈ d'.own.accesses, byte < 9
  written : During WRITE_SCRATCHPAD d → (∃ bit, event = .writeBit bit) →
    ∀ i < 9, i ∉ [2, 3, 4, 8] → byteAt d'.own.scratchpad i = byteAt d.own.scratchpad i
  started : ¬ During READ_SCRATCHPAD d → During READ_SCRATCHPAD d' → Checked d'.own.scratchpad
  unchanged : During READ_SCRATCHPAD d → d'.own.scratchpad = d.own.scratchpad
  answered : During READ_SCRATCHPAD d → event = .readBit → d.own.slots < 72 →
    answer = some (getBit d.own.scratchpad d.own.slots)

def KeptStep (d : Device Thermometer) (event : Event) : Prop :=
  ∀ answer d', step d event = some (answer, d') → Kept d event answer d'

/-- WRITE_SCRATCHPAD takes no more than its 24 slots; READ_SCRATCHPAD starts with no bit sent since
the reset, and sends no more than the 72 bits. -/
def Within (d : Device Thermometer) : Event → Prop
  | .writeBit bit => (During WRITE_SCRATCHPAD d → d.bitsReceived < 24) ∧
      (d.state = .functionCommand → 7 ≤ d.bitsReceived →
        OneWire.shiftIn d.functionCommand bit = READ_SCRATCHPAD → d.bitsSent = 0)
  | .readBit => During READ_SCRATCHPAD d → d.bitsSent < 72
  | _ => True

section Bytes
variable {buf : Scratchpad} {i idx : ℕ} {bit : Bool}

theorem byteAt_setIfInBounds (buf : Scratchpad) (i j : ℕ) (b : Byte) :
    byteAt (buf.setIfInBounds j b) i = if i = j ∧ i < 9 then b else byteAt buf i := by
  unfold byteAt
  rw [Vector.toList_setIfInBounds, List.getD_eq_getElem?_getD, List.getD_eq_getElem?_getD,
    List.getElem?_set, Vector.length_toList]
  by_cases heq : j = i
  · rw [if_pos heq, heq]
    by_cases hlt : i < 9
    · rw [if_pos hlt, if_pos ⟨rfl, hlt⟩]
      rfl
    · rw [if_neg hlt, if_neg fun h => hlt h.2, List.getElem?_eq_none]
      rw [Vector.length_toList]
      omega
  · rw [if_neg heq, if_neg fun h => heq h.1.symm]

theorem byteAt_set (buf : Scratchpad) {j : ℕ} (hj : j < 9) (b : Byte) (i : ℕ) :
    byteAt (buf.set j b hj) i = if i = j then b else byteAt buf i := by
  unfold byteAt
  rw [Vector.toList_set, List.getD_eq_getElem?_getD, List.getD_eq_getElem?_getD,
    List.getElem?_set, Vector.length_toList, if_pos hj]
  by_cases heq : j = i
  · rw [if_pos heq, if_pos heq.symm]
    rfl
  · rw [if_neg heq, if_neg fun h => heq h.symm]

theorem byteAt_setBit (buf : Scratchpad) (base idx : ℕ) (bit : Bool) (i : ℕ) :
    byteAt (setBit buf base idx bit) i =
      if i = base + idx / 8 ∧ i < 9 then
        if bit then byteAt buf i ||| (1 : Byte) <<< (idx % 8)
        else byteAt buf i &&& ~~~((1 : Byte) <<< (idx % 8))
      else byteAt buf i := by
  have hmask : idx &&& 7 = idx % 8 := Nat.and_two_pow_sub_one_eq_mod idx 3
  have hbyte : idx >>> 3 = idx / 8 := Nat.shiftRight_eq_div_pow idx 3
  unfold setBit
  simp only [hmask, hbyte, byteAt_setIfInBounds]
  by_cases heq : i = base + idx / 8 ∧ i < 9
  · rw [if_pos heq, if_pos heq, ← heq.1]
  · rw [if_neg heq, if_neg heq]

end Bytes

section Checksums

theorem checked_recalculate (t : Thermometer) : Checked t.recalculateScratchCrc.scratchpad := by
  unfold Checked Thermometer.recalculateScratchCrc
  simp only
  rw [byteAt_set, if_pos rfl, Vector.toList_set, List.take_set_of_le le_rfl]

theorem byteAt_recalculate (t : Thermometer) {i : ℕ} (hi : i ≠ 8) :
    byteAt t.recalculateScratchCrc.scratchpad i = byteAt t.scratchpad i := by
  rw [Thermometer.recalculateScratchCrc, byteAt_set, if_neg hi]

theorem checkFinishConversion_kept (model : Byte) (t : Thermometer) :
    (Checked t.scratchpad → Checked (t.checkFinishConversion model).scratchpad) ∧
      (t.checkFinishConversion model).accesses = t.accesses := by
  unfold Thermometer.checkFinishConversion
  split
  · exact ⟨fun _ => checked_recalculate _, rfl⟩
  · exact ⟨id, rfl⟩

theorem startFunctionCommand_kept (model : Byte) (t : Thermometer) (command : Byte) :
    (Checked t.scratchpad → Checked (t.startFunctionCommand model command).scratchpad) ∧
      (t.startFunctionCommand model command).accesses = t.accesses := by
  obtain ⟨hchecked, haccesses⟩ := checkFinishConversion_kept model t
  unfold Thermometer.startFunctionCommand
  simp only
  split_ifs
  · exact ⟨hchecked, haccesses⟩
  · exact ⟨hchecked, haccesses⟩
  · exact ⟨hchecked, haccesses⟩
  · exact ⟨fun _ => checked_recalculate _, haccesses⟩
  · exact ⟨fun _ => checked_recalculate _, haccesses⟩
  · exact ⟨hchecked, haccesses⟩

end Checksums

section Steps
variable {d d' : Device Thermometer} {event : Event} {answer : Option Bool}

/-- What an event can do to the record. -/
inductive Effect (d : Device Thermometer) (event : Event) (answer : Option Bool)
    (d' : Device Thermometer) : Prop
  | quiet (hscratchpad : d'.own.scratchpad = d.own.scratchpad)
      (haccesses : d'.own.accesses = d.own.accesses)
      (hduring : During READ_SCRATCHPAD d' → During READ_SCRATCHPAD d ∧
        d'.own.slots = d.own.slots ∧ d'.bitsSent = d.bitsSent)
      (hanswer : During READ_SCRATCHPAD d → event ≠ .readBit)
  | worked (hchecked : Checked d.own.scratchpad → Checked d'.own.scratchpad)
      (haccesses : d'.own.accesses = d.own.accesses)
      (hslots : During READ_SCRATCHPAD d' → d'.own.slots = 0)
      (hsent : During READ_SCRATCHPAD d' → Within d event → d'.bitsSent = 0)
      (hread : ¬ During READ_SCRATCHPAD d) (hwrite : ¬ During WRITE_SCRATCHPAD d)
  | wrote (bit : Bool) (hevent : event = .writeBit bit) (hwrite : During WRITE_SCRATCHPAD d)
      (hown : d'.own = d.own.writeFunctionBit bit WRITE_SCRATCHPAD d.bitsReceived)
      (hread : ¬ During READ_SCRATCHPAD d')
  | read (hevent : event = .readBit) (hread : During READ_SCRATCHPAD d)
      (hanswer : answer = some (getBit d.own.scratchpad d.bitsSent))
      (hscratchpad : d'.own.scratchpad = d.own.scratchpad)
      (haccesses : d'.own.accesses = d.own.accesses ++ [d.bitsSent / 8])
      (hslots : d'.own.slots = d.own.slots + 1) (hsent : d'.bitsSent = d.bitsSent + 1)

/-- Nothing happens to the record before a function command. -/
theorem Effect.before (hstate : d.state ≠ .functionCommandDataExchange)
    (hstate' : d'.state ≠ .functionCommandDataExchange) (hown : d'.own = d.own) :
    Effect d event answer d' := by
  refine .quiet ?_ ?_ (fun h => absurd h.1 hstate') (fun h => absurd h.1 hstate)
  · rw [hown]
  · rw [hown]

theorem writeBit_effect {bit : Bool} (h : d.writeBit (functions d.rom.model) bit = some d') :
    Effect d (.writeBit bit) none d' := by
  unfold Device.writeBit at h
  split at h
  · rename_i hstate
    cases h
    exact .before (by rw [hstate]; decide) (by rw [hstate]; decide) rfl
  · rename_i hstate
    cases h
    refine .before (by rw [hstate]; decide) ?_ ?_
    · unfold Device.receiveCommand
      simp only
      split_ifs <;> simp [hstate]
    · unfold Device.receiveCommand
      simp only
      split <;> rfl
  · rename_i hstate
    split at h
    · cases h
      refine .before (by rw [hstate]; decide) ?_ ?_
      · unfold Device.matchBit
        simp only
        split_ifs <;> simp [hstate]
      · unfold Device.matchBit
        simp only
        split_ifs <;> rfl
    · cases h
  · rename_i hstate
    have hnone : ∀ command, ¬ During command d := by
      rintro command ⟨hexchange, -⟩
      rw [hstate] at hexchange
      cases hexchange
    unfold Device.receiveFunction at h
    simp only at h
    split at h
    · rename_i hlast
      cases h
      have hkept := startFunctionCommand_kept d.rom.model d.own
        (OneWire.shiftIn d.functionCommand bit)
      refine .worked hkept.1 hkept.2 (fun _ => rfl) (fun hread hwithin => ?_) (hnone _) (hnone _)
      exact hwithin.2 hstate (by omega) hread.2
    · cases h
      exact .before (by rw [hstate]; decide) (by rw [hstate]; decide) rfl
  · rename_i hstate
    cases h
    by_cases hwrite : d.functionCommand = WRITE_SCRATCHPAD
    · refine .wrote bit rfl ⟨hstate, hwrite⟩ ?_ ?_
      · rw [← hwrite]
      · rintro ⟨-, hread⟩
        exact absurd (hwrite.symm.trans hread) (by decide)
    · have hsame : d.own.writeFunctionBit bit d.functionCommand d.bitsReceived = d.own :=
        if_neg hwrite
      refine .quiet ?_ ?_ ?_ (fun _ h => by cases h)
      · exact congrArg Thermometer.scratchpad hsame
      · exact congrArg Thermometer.accesses hsame
      · exact fun h => ⟨⟨hstate, h.2⟩, congrArg Thermometer.slots hsame, rfl⟩

theorem readBit_effect {r : Bool × Device Thermometer}
    (h : d.readBit (functions d.rom.model) = some r) : Effect d .readBit (some r.1) r.2 := by
  unfold Device.readBit at h
  split at h
  · rename_i hstate
    cases h
    exact .before (by rw [hstate]; decide) (by rw [hstate]; decide) rfl
  · rename_i hstate
    split at h
    · cases h
      refine .before (by rw [hstate]; decide) ?_ rfl
      unfold Device.sendSearchBit
      simp only
      split_ifs <;> simp [hstate]
    · split at h
      · cases h
        refine .before (by rw [hstate]; decide) ?_ rfl
        unfold Device.sendAddressBit
        simp only
        split_ifs <;> simp [hstate]
      · cases h
  · rename_i hstate
    cases h
    by_cases hread : d.functionCommand = READ_SCRATCHPAD
    · have hanswer : d.own.readFunctionBit d.rom.model d.functionCommand d.bitsSent =
          (getBit d.own.scratchpad d.bitsSent,
            { d.own with accesses := d.own.accesses ++ [d.bitsSent >>> 3] }) := if_pos hread
      refine .read rfl ⟨hstate, hread⟩ ?_ ?_ ?_ rfl rfl
      · exact congrArg some (congrArg Prod.fst hanswer)
      · exact congrArg (fun r => r.2.scratchpad) hanswer
      · rw [← Nat.shiftRight_eq_div_pow d.bitsSent 3]
        exact congrArg (fun r => r.2.accesses) hanswer
    · have hnone : ∀ t sent, ¬ During READ_SCRATCHPAD
          { d with
            own := t
            bitsSent := sent } := fun _ _ h => hread h.2
      by_cases hconvert : d.functionCommand = CONVERT_T ∧ d.own.power = .supplied
      · have hkept := checkFinishConversion_kept d.rom.model d.own
        have hanswer : (d.own.readFunctionBit d.rom.model d.functionCommand d.bitsSent).2 =
            d.own.checkFinishConversion d.rom.model := by
          rw [Thermometer.readFunctionBit, if_neg hread, if_neg (by rw [hconvert.1]; decide),
            if_pos hconvert]
        refine .worked ?_ ?_ (fun h => absurd h (hnone _ _)) (fun h => absurd h (hnone _ _))
          (fun h => hread h.2) ?_
        · simp only [hanswer]
          exact hkept.1
        · simp only [hanswer]
          exact hkept.2
        · rintro ⟨-, hwrite⟩
          exact absurd (hconvert.1.symm.trans hwrite) (by decide)
      · have hanswer : (d.own.readFunctionBit d.rom.model d.functionCommand d.bitsSent).2 =
            d.own := by
          rw [Thermometer.readFunctionBit, if_neg hread, if_neg hconvert]
          split <;> rfl
        refine .quiet ?_ ?_ (fun h => absurd h (hnone _ _)) (fun h => absurd h.2 hread)
        · simp only [hanswer]
        · simp only [hanswer]
  · cases h
  · cases h

theorem step_effect (h : step d event = some (answer, d')) : Effect d event answer d' := by
  cases event with
  | reset =>
    cases h
    exact .quiet rfl rfl (fun h => by cases h.1) (fun _ h => by cases h)
  | writeBit bit =>
    obtain ⟨e, he, heq⟩ := Option.map_eq_some_iff.1 h
    cases heq
    exact writeBit_effect he
  | readBit =>
    obtain ⟨r, hr, heq⟩ := Option.map_eq_some_iff.1 h
    cases heq
    exact readBit_effect hr
  | surroundings now reading =>
    cases h
    exact .quiet rfl rfl (fun h => ⟨h, rfl, rfl⟩) (fun _ h => by cases h)
  | setPower power =>
    cases h
    exact .quiet rfl rfl (fun h => ⟨h, rfl, rfl⟩) (fun _ h => by cases h)

/-- What holds of the record as long as it is kept. -/
structure Sound (d : Device Thermometer) : Prop where
  checked : Checked d.own.scratchpad
  slots : During READ_SCRATCHPAD d → d.own.slots = d.bitsSent
  inside : ∀ byte ∈ d.own.accesses, byte < 9

theorem kept_of_quiet (hsound : Sound d) (hscratchpad : d'.own.scratchpad = d.own.scratchpad)
    (haccesses : d'.own.accesses = d.own.accesses)
    (hduring : During READ_SCRATCHPAD d' → During READ_SCRATCHPAD d)
    (hanswer : During READ_SCRATCHPAD d → event ≠ .readBit) : Kept d event answer d' where
  inside := by
    rw [haccesses]
    exact hsound.inside
  written _ _ i _ _ := by rw [hscratchpad]
  started hbefore hafter := absurd (hduring hafter) hbefore
  unchanged _ := hscratchpad
  answered hread hevent _ := absurd hevent (hanswer hread)

theorem kept_of_worked (hsound : Sound d)
    (hchecked : Checked d.own.scratchpad → Checked d'.own.scratchpad)
    (haccesses : d'.own.accesses = d.own.accesses) (hread : ¬ During READ_SCRATCHPAD d)
    (hwrite : ¬ During WRITE_SCRATCHPAD d) : Kept d event answer d' where
  inside := by
    rw [haccesses]
    exact hsound.inside
  written hduring _ := absurd hduring hwrite
  started _ _ := hchecked hsound.checked
  unchanged hduring := absurd hduring hread
  answered hduring _ := absurd hduring hread

theorem kept_of_wrote {bit : Bool} (hsound : Sound d) (hwrite : During WRITE_SCRATCHPAD d)
    (hown : d'.own = d.own.writeFunctionBit bit WRITE_SCRATCHPAD d.bitsReceived)
    (hread : ¬ During READ_SCRATCHPAD d') (hslot : d.bitsReceived < 24) :
    Kept d (.writeBit bit) answer d' where
  inside := by
    intro byte hmem
    have haccesses : d'.own.accesses = d.own.accesses ++ [2 + d.bitsReceived / 8] := by
      rw [hown, ← Nat.shiftRight_eq_div_pow d.bitsReceived 3]
      rfl
    rw [haccesses, List.mem_append, List.mem_singleton] at hmem
    rcases hmem with hmem | rfl
    · exact hsound.inside byte hmem
    · omega
  written _ _ i _ hi := by
    simp only [List.mem_cons, List.not_mem_nil, or_false] at hi
    have hset : byteAt (setBit d.own.scratchpad 2 d.bitsReceived bit) i =
        byteAt d.own.scratchpad i := by
      rw [byteAt_setBit, if_neg]
      rintro ⟨heq, -⟩
      omega
    rw [hown, ← hset]
    exact byteAt_recalculate _ fun heq => hi (by omega)
  started _ hafter := absurd hafter hread
  unchanged hduring := absurd (hwrite.2.symm.trans hduring.2) (by decide)
  answered hduring := absurd (hwrite.2.symm.trans hduring.2) (by decide)

theorem kept_of_read (hsound : Sound d) (hread : During READ_SCRATCHPAD d)
    (hanswer : answer = some (getBit d.own.scratchpad d.bitsSent))
    (hscratchpad : d'.own.scratchpad = d.own.scratchpad)
    (haccesses : d'.own.accesses = d.own.accesses ++ [d.bitsSent / 8]) (hslot : d.bitsSent < 72) :
    Kept d .readBit answer d' where
  inside := by
    intro byte hmem
    rw [haccesses, List.mem_append, List.mem_singleton] at hmem
    rcases hmem with hmem | rfl
    · exact hsound.inside byte hmem
    · omega
  written _ _ i _ _ := by rw [hscratchpad]
  started hbefore _ := absurd hread hbefore
  unchanged _ := hscratchpad
  answered _ _ _ := by rw [hanswer, hsound.slots hread]

/-- An event within bounds keeps the record. -/
theorem kept_of_within (hsound : Sound d) (h : step d event = some (answer, d'))
    (hwithin : Within d event) : Kept d event answer d' := by
  cases step_effect h with
  | quiet hscratchpad haccesses hduring hanswer =>
    exact kept_of_quiet hsound hscratchpad haccesses (fun h => (hduring h).1) hanswer
  | worked hchecked haccesses hslots hsent hread hwrite =>
    exact kept_of_worked hsound hchecked haccesses hread hwrite
  | wrote bit hevent hwrite hown hread =>
    subst hevent
    exact kept_of_wrote hsound hwrite hown hread (hwithin.1 hwrite)
  | read hevent hread hanswer hscratchpad haccesses hslots hsent =>
    subst hevent
    exact kept_of_read hsound hread hanswer hscratchpad haccesses (hwithin hread)

theorem Sound.next (hsound : Sound d) (h : step d event = some (answer, d'))
    (hwithin : Within d event) : Sound d' := by
  have hkept := kept_of_within hsound h hwithin
  cases step_effect h with
  | quiet hscratchpad haccesses hduring hanswer =>
    refine ⟨by rw [hscratchpad]; exact hsound.checked, fun hread => ?_, hkept.inside⟩
    obtain ⟨hbefore, hslots, hsent⟩ := hduring hread
    rw [hslots, hsent]
    exact hsound.slots hbefore
  | worked hchecked haccesses hslots hsent hread hwrite =>
    refine ⟨hchecked hsound.checked, fun hread => ?_, hkept.inside⟩
    rw [hslots hread, hsent hread hwithin]
  | wrote bit hevent hwrite hown hread =>
    refine ⟨?_, fun h => absurd h hread, hkept.inside⟩
    rw [hown]
    exact checked_recalculate _
  | read hevent hread hanswer hscratchpad haccesses hslots hsent =>
    refine ⟨by rw [hscratchpad]; exact hsound.checked, fun _ => ?_, hkept.inside⟩
    rw [hslots, hsent, hsound.slots hread]

theorem sound_next : PreservesWhen next Within Sound := by
  intro d event d' hwithin h hsound
  obtain ⟨⟨answer, e⟩, hstep, rfl⟩ := Option.map_eq_some_iff.1 h
  exact hsound.next hstep hwithin

theorem Sound.created (rom : Rom) (eeprom : EepromState) (power : Power) (now : ℤ)
    (reading : ℚ) : Sound (create rom eeprom power now reading) where
  checked := checked_recalculate _
  slots h := by cases h.1
  inside _ h := by cases h

end Steps

section Reads
variable {d : Device Thermometer}

/-- The answers to some read slots. -/
def readSlots (d : Device Thermometer) : ℕ → Option (List Bool)
  | 0 => some []
  | n + 1 => do
    let answer ← d.readBit (functions d.rom.model)
    let answers ← readSlots answer.2 n
    some (answer.1 :: answers)

/-- The device after a read slot of READ_SCRATCHPAD. -/
def afterRead (d : Device Thermometer) : Device Thermometer :=
  { d with
    own := { d.own with
      accesses := d.own.accesses ++ [d.bitsSent >>> 3]
      slots := d.own.slots + 1 }
    bitsSent := d.bitsSent + 1 }

theorem readBit_during (hread : During READ_SCRATCHPAD d) :
    d.readBit (functions d.rom.model) =
      some (getBit d.own.scratchpad d.bitsSent, afterRead d) := by
  obtain ⟨hstate, hcommand⟩ := hread
  simp [Device.readBit, hstate, functions, Thermometer.readFunctionBit, hcommand, afterRead]

/-- A master that reads as long as the record is kept gets its bits, from the first one on. -/
theorem readSlots_kept {n : ℕ} (hread : During READ_SCRATCHPAD d) (hslots : d.own.slots + n ≤ 72)
    (hkept : Meets next KeptStep d (List.replicate n .readBit)) :
    readSlots d n = some ((List.range' d.own.slots n).map (getBit d.own.scratchpad)) := by
  induction n generalizing d with
  | zero => rfl
  | succ n ih =>
    have hbit := readBit_during hread
    have hstep : step d .readBit =
        some (some (getBit d.own.scratchpad d.bitsSent), afterRead d) := by
      rw [step, hbit]
      rfl
    have hanswer := (hkept.1 _ _ hstep).answered hread rfl (by omega)
    have hrest := hkept.2 _ (congrArg (Option.map Prod.snd) hstep)
    rw [readSlots, hbit, List.range'_succ, List.map_cons, ← Option.some.inj hanswer]
    have hslots' : (afterRead d).own.slots + n ≤ 72 := by
      change d.own.slots + 1 + n ≤ 72
      omega
    have hothers := ih (d := afterRead d) hread hslots' hrest
    simp only [Option.bind_eq_bind, Option.bind_some, hothers]
    rfl

end Reads

instance decidableWithin (d : Device Thermometer) : (event : Event) → Decidable (Within d event)
  | .reset | .surroundings _ _ | .setPower _ => inferInstanceAs (Decidable True)
  | .writeBit _ => inferInstanceAs (Decidable (_ ∧ _))
  | .readBit => inferInstanceAs (Decidable (_ → _))

/-- Whatever comes over the bus to a new device within these bounds, every event keeps its record. -/
theorem scratchpad_kept {rom : Rom} {eeprom : EepromState} {power : Power} {now : ℤ} {reading : ℚ}
    {events : List Event}
    (hwithin : Meets next Within (create rom eeprom power now reading) events) :
    Meets next KeptStep (create rom eeprom power now reading) events :=
  hwithin.along sound_next (fun _ _ hsound hw _ _ h => kept_of_within hsound h hw)
    (Sound.created rom eeprom power now reading)

def aRom : Rom := Rom.ofSerial 0x28 1

/-- The slots of a byte, from its low bit on. -/
def slotsOf (byte : Byte) : List Event := (List.range 8).map fun i => .writeBit (byte.getLsbD i)

/-- The command, before its slots. -/
def readCommand : List Event := .reset :: slotsOf 0xCC ++ slotsOf READ_SCRATCHPAD

theorem scratchpad_kept_readCommand :
    ∃ d, run next (create aRom ⟨0x55, 0x00, 0x7F⟩ .supplied 0 20) readCommand = some d ∧
      readSlots d 72 = some ((List.range' 0 72).map (getBit d.own.scratchpad)) := by
  have hwithin : Meets next Within (create aRom ⟨0x55, 0x00, 0x7F⟩ .supplied 0 20)
      (readCommand ++ List.replicate 72 .readBit) :=
    Meets.of_check (I := fun _ => True) (fun _ _ _ _ _ _ => trivial)
      (fun _ _ _ h => of_decide_eq_true h) trivial (by decide +kernel)
  have hstarted : ((run next (create aRom ⟨0x55, 0x00, 0x7F⟩ .supplied 0 20) readCommand).all
      fun d => decide (During READ_SCRATCHPAD d ∧ d.own.slots = 0)) = true := by
    decide +kernel
  have hsome : (run next (create aRom ⟨0x55, 0x00, 0x7F⟩ .supplied 0 20) readCommand).isSome =
      true := by
    decide +kernel
  obtain ⟨d, hrun⟩ := Option.isSome_iff_exists.mp hsome
  rw [hrun] at hstarted
  obtain ⟨hread, hslots⟩ := of_decide_eq_true hstarted
  have hkept := (scratchpad_kept hwithin).after hrun
  refine ⟨d, hrun, ?_⟩
  rw [readSlots_kept hread (by omega) hkept, hslots]

/-- A fourth byte after the three that can be written. -/
def fourBytes : List Event :=
  .reset :: slotsOf 0xCC ++ slotsOf WRITE_SCRATCHPAD ++ List.replicate 32 (.writeBit false)

theorem fourBytes_not_kept :
    ¬ Meets next KeptStep (create aRom ⟨0x55, 0x00, 0x7F⟩ .supplied 0 20) fourBytes := by
  intro hmeets
  have hevents : fourBytes = fourBytes.take 41 ++ .writeBit false :: fourBytes.drop 42 := by
    decide +kernel
  rw [hevents] at hmeets
  have hbyte : ((run next (create aRom ⟨0x55, 0x00, 0x7F⟩ .supplied 0 20)
      (fourBytes.take 41)).bind fun d => (step d (.writeBit false)).map fun r =>
        (decide (During WRITE_SCRATCHPAD d), byteAt d.own.scratchpad 5,
          byteAt r.2.own.scratchpad 5)) = some (true, 0xFF, 0xFE) := by
    decide +kernel
  obtain ⟨d, hrun, hbyte⟩ := Option.bind_eq_some_iff.1 hbyte
  obtain ⟨r, hstep, hbyte⟩ := Option.map_eq_some_iff.1 hbyte
  obtain ⟨hwrite, hbefore, hafter⟩ := Prod.mk.inj hbyte |>.imp_right Prod.mk.inj
  have hkept := (hmeets.after hrun).1 r.1 r.2 hstep
  have hduring : During WRITE_SCRATCHPAD d := of_decide_eq_true hwrite
  have hsame := hkept.written hduring ⟨false, rfl⟩ 5 (by decide) (by decide)
  rw [hbefore, hafter] at hsame
  exact absurd hsame (by decide)

end RooTesting.OneWireThermometer
