import RooTesting.OneWire

/-! # The checksum of the 1-Wire bus

The tables and the shift register compute one and the same function of a byte and the checksum so
far, and that is a function of their exclusive or. -/
namespace RooTesting.OneWire

/-- One turn of the inner loop of `crc8` where there is no table. -/
def crc8Bit (s : Byte × Byte) : Byte × Byte :=
  let mix := (s.1 ^^^ s.2) &&& 0x01
  let crc := s.1 >>> 1
  (if mix ≠ 0 then crc ^^^ 0x8C else crc, s.2 >>> 1)

def crc8Byte (crc inbyte : Byte) : Byte := (crc8Bit^[8] (crc, inbyte)).1

/-- `crc8` where there is no table. -/
def crc8Bitwise (addr : List Byte) (len : Byte) : Byte := (addr.take len.toNat).foldl crc8Byte 0

/-- The shift register on its own. -/
def crcShift (crc : Byte) : Byte := if crc &&& 0x01 ≠ 0 then crc >>> 1 ^^^ 0x8C else crc >>> 1

theorem crc8Bit_xor : Function.Semiconj (fun s : Byte × Byte => s.1 ^^^ s.2) crc8Bit crcShift := by
  intro s
  dsimp only [crc8Bit, crcShift]
  rw [BitVec.ushiftRight_xor_distrib]
  split
  · rw [BitVec.xor_assoc, BitVec.xor_comm 0x8C, ← BitVec.xor_assoc]
  · rfl

/-- After eight turns nothing of the byte is left. -/
theorem crc8Bit_inbyte (s : Byte × Byte) : (crc8Bit^[8] s).2 = 0#8 := by
  have hshift : ∀ n, (crc8Bit^[n] s).2 = s.2 >>> n := by
    intro n
    induction n with
    | zero => rfl
    | succ n ih =>
      rw [Function.iterate_succ_apply', BitVec.shiftRight_add, ← ih]
      rfl
  rw [hshift]
  exact BitVec.ushiftRight_eq_zero le_rfl

theorem crc8Byte_eq (crc inbyte : Byte) : crc8Byte crc inbyte = crcShift^[8] (crc ^^^ inbyte) := by
  have hxor := crc8Bit_xor.iterate_right 8 (crc, inbyte)
  dsimp only at hxor
  rw [crc8Bit_inbyte, BitVec.xor_zero] at hxor
  exact hxor

/-- Each nibble has its table. -/
theorem crcTurn_eq (crc byte : Byte) : crcTurn crc byte = crcShift^[8] (crc ^^^ byte) := by
  have htable : ∀ x : Byte, dscrc2x16Table.getD (x &&& 0x0f).toNat 0 ^^^
      dscrc2x16Table.getD (16 + ((x >>> 4) &&& 0x0f).toNat) 0 = crcShift^[8] x := by decide +kernel
  rw [crcTurn, htable, BitVec.xor_comm]

theorem crcTurn_eq_crc8Byte : crcTurn = crc8Byte := by
  funext crc byte
  rw [crcTurn_eq, crc8Byte_eq]

theorem crcTurn_self (crc : Byte) : crcTurn crc crc = 0 := by
  rw [crcTurn_eq, BitVec.xor_self]
  decide

/-- The checksum from the tables is that of the shift register, for every string and after every
prefix of it, and a string followed by its checksum has none. -/
theorem onewireCrc_bitwise (buf : List Byte) :
    onewireCrc buf = buf.foldl crc8Byte 0 ∧
    (∀ len : Byte, crc8Bitwise buf len = onewireCrc (buf.take len.toNat)) ∧
    onewireCrc (buf ++ [onewireCrc buf]) = 0 := by
  refine ⟨?_, ?_, ?_⟩
  · rw [onewireCrc, crcTurn_eq_crc8Byte]
  · intro len
    rw [crc8Bitwise, onewireCrc, crcTurn_eq_crc8Byte]
  · rw [onewireCrc, List.foldl_append]
    exact crcTurn_self _

end RooTesting.OneWire
