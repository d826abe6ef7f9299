import RooTesting.Esp32Spi
import Mathlib.Tactic.IntervalCases

/-! # The SPI calls of the ESP32 shim

Every call fills the data buffer of its controller, starts a transfer and reads the buffer back.
Words lie in memory with their low byte first. What a transfer sends is kept in a list. -/
namespace RooTesting.ArduinoSpi
open Esp32Spi

inductive BitOrder where
  | lsbFirst | msbFirst
  deriving DecidableEq, Repr

structure Spi where
  bitOrder : BitOrder
  started : Bool

def byteOf {n : ℕ} (v : BitVec n) (k : ℕ) : Byte := (v >>> (8 * k)).setWidth 8

def assemble (b0 b1 b2 b3 : Byte) : BitVec 32 := b3 ++ b2 ++ b1 ++ b0

def setWord (buf : Buffer) (k : ℕ) (v : BitVec 32) : Buffer :=
  fun j => if j.val / 4 = k then byteOf v (j.val % 4) else buf j

/-- The first word of a buffer. -/
def firstWord (buf : Buffer) : BitVec 32 := assemble (buf 0) (buf 1) (buf 2) (buf 3)

def swap16 (value : BitVec 16) : BitVec 16 := value >>> 8 ||| value <<< 8

def swap32 (value : BitVec 32) : BitVec 32 :=
  assemble (byteOf value 3) (byteOf value 2) (byteOf value 1) (byteOf value 0)

def swap24 (value : BitVec 32) : BitVec 32 :=
  (byteOf value 2).setWidth 32 ||| (byteOf value 1).setWidth 32 <<< 8 |||
    (byteOf value 0).setWidth 32 <<< 16

def swapPixels (value : BitVec 32) : BitVec 32 :=
  (byteOf value 1).setWidth 32 ||| (byteOf value 0).setWidth 32 <<< 8 |||
    (byteOf value 3).setWidth 32 <<< 16 ||| (byteOf value 2).setWidth 32 <<< 24

/-- A controller with the devices of its board, and the bytes and numbers of bits that the
transfers have sent. -/
structure World (σ : Type) where
  dev : SpiDev
  devices : List (Device σ)
  wire : List (List Byte × ℕ)

/-- Where a call takes place. The local buffer of a transfer has any bytes at first. -/
structure Host (σ : Type) where
  board : Board
  interface : Interface
  behaviour : Behaviour σ
  junk : Buffer

section Calls

variable {σ : Type} (h : Host σ) (spi : Spi) (w : World σ)

/-- `cmd.usr = 1`. -/
def transferOnDevice : World σ :=
  let r := transfer h.board h.interface h.behaviour h.junk w.dev w.devices
  let bits := w.dev.usrMosiDbitlen + 1
  { dev := r.1
    devices := r.2.1
    wire := w.wire ++ [(firstBytes w.dev.dataBuf (byteCount bits), bits)] }

/-- At most 64 bytes; without an input ones are sent. -/
def transferChunk (input : Option (List Byte)) (length : ℕ) (read : Bool) : World σ × List Byte :=
  let words : Buffer :=
    match input with
    | some bytes => overwrite (fun _ => 0) (bytes.take length)
    | none => memset (fun _ => 0) 0xFF length
  let wordCount := (length + 3) / 4
  let w := transferOnDevice h { w with
    dev :=
      { dataBuf := memcpy w.dev.dataBuf words (4 * wordCount)
        usrMosiDbitlen := length * 8 - 1
        usrMisoDbitlen := if read then length * 8 - 1 else 0 } }
  (w, firstBytes (memcpy words w.dev.dataBuf (4 * wordCount)) length)

/-- The loop over the chunks. Each takes a byte at least, so that as many rounds as bytes are
enough. -/
def transferLoop (read : Bool) : ℕ → World σ → Option (List Byte) → ℕ → World σ × List Byte
  | 0, w, _, _ => (w, [])
  | rounds + 1, w, input, length =>
    if length = 0 then (w, [])
    else
      let chunk := min 64 length
      let (w, output) := transferChunk h w input chunk read
      let (w, rest) := transferLoop read rounds w (input.map (List.drop chunk)) (length - chunk)
      (w, output ++ rest)

/-- The output stays as it is where the bus has not been started. -/
def transferBytes (input : Option (List Byte)) (length : ℕ) (read : Bool) : World σ × List Byte :=
  if spi.started then transferLoop h read length w input length else (w, [])

def spiWriteNL (data : List Byte) (length : ℕ) : World σ :=
  (transferBytes h spi w (some data) length false).1

def spiWriteShortNL (data : BitVec 16) : World σ :=
  let data := if spi.bitOrder = .msbFirst then swap16 data else data
  spiWriteNL h spi w [byteOf data 0, byteOf data 1] 2

def spiTransferByteNL (data : Byte) : World σ × Byte :=
  let r := transferBytes h spi w (some [data]) 1 true
  (r.1, r.2.getD 0 0)

def spiTransferShortNL (data : BitVec 16) : World σ × BitVec 16 :=
  let data := if spi.bitOrder = .msbFirst then swap16 data else data
  let r := transferBytes h spi w (some [byteOf data 0, byteOf data 1]) 2 true
  let out : BitVec 16 := r.2.getD 1 0 ++ r.2.getD 0 0
  (r.1, if spi.bitOrder = .msbFirst then swap16 out else out)

def spiTransferLongNL (data : BitVec 32) : World σ × BitVec 32 :=
  let data := if spi.bitOrder = .msbFirst then swap32 data else data
  let r := transferBytes h spi w
    (some [byteOf data 0, byteOf data 1, byteOf data 2, byteOf data 3]) 4 true
  let out := assemble (r.2.getD 0 0) (r.2.getD 1 0) (r.2.getD 2 0) (r.2.getD 3 0)
  (r.1, if spi.bitOrder = .msbFirst then swap32 out else out)

/-- The order of the bytes of a word of some bits on an MSB-first bus. -/
def reorder (bytes : ℕ) (data : BitVec 32) : BitVec 32 :=
  if bytes = 2 then (swap16 (data.setWidth 16)).setWidth 32
  else if bytes = 3 then swap24 data
  else swap32 data

def bitMask (bits : ℕ) : BitVec 32 := if bits = 32 then BitVec.allOnes 32 else 1#32 <<< bits - 1

/-- The word that is sent comes first, then what is left in `out`. -/
def spiTransferBitsNL (data : BitVec 32) (bits : ℕ) : World σ × BitVec 32 :=
  if bits = 0 then (w, 0)
  else
    let bits := min bits 32
    let data := data &&& bitMask bits
    let data := if spi.bitOrder = .msbFirst then reorder (byteCount bits) data else data
    let w := transferOnDevice h { w with
      dev :=
        { dataBuf := setWord w.dev.dataBuf 0 data
          usrMosiDbitlen := bits - 1
          usrMisoDbitlen := bits - 1 } }
    let data := firstWord w.dev.dataBuf
    (w, (if spi.bitOrder = .msbFirst then reorder (byteCount bits) data else data) &&& bitMask bits)

/-- A word of an array, whose bytes follow one another from its address on. -/
def wordAt (input : ℕ → Byte) (k : ℕ) : BitVec 32 :=
  assemble (input (4 * k)) (input (4 * k + 1)) (input (4 * k + 2)) (input (4 * k + 3))

/-- What is put into the buffer for a word of a chunk. -/
def pixelWord (words tail k : ℕ) (value : BitVec 32) : BitVec 32 :=
  if spi.bitOrder = .msbFirst then
    if tail ≠ 0 ∧ k + 1 = words then
      if tail = 2 then (swap16 (value.setWidth 16)).setWidth 32 else value &&& 0xff
    else swapPixels value
  else value

/-- The loop over the chunks, from a word of the array on. -/
def pixelLoop (input : ℕ → Byte) : ℕ → World σ → ℕ → ℕ → ℕ → World σ
  | 0, w, _, _, _ => w
  | rounds + 1, w, data, wordsLeft, length =>
    if length = 0 then w
    else
      let chunk := min 64 length
      let words := min 16 wordsLeft
      let tail := chunk % 4
      let dataBuf := (List.range words).foldl
        (fun buf k => setWord buf k (pixelWord spi words tail k (wordAt input (data + k))))
        w.dev.dataBuf
      let w := transferOnDevice h { w with
        dev :=
          { dataBuf := dataBuf
            usrMosiDbitlen := chunk * 8 - 1
            usrMisoDbitlen := 0 } }
      pixelLoop input rounds w (data + words) (wordsLeft - words) (length - chunk)

/-- The bytes are read as words, the last one perhaps past the end of the array. The length is a
`uint32_t`, and so is the sum that gives the number of words. -/
def spiWritePixelsNL (input : ℕ → Byte) (length : ℕ) : World σ :=
  pixelLoop h spi input length w 0 ((length + 3) % 2 ^ 32 / 4) length

end Calls

theorem getLsbD_byteOf {n : ℕ} (v : BitVec n) (k i : ℕ) :
    (byteOf v k).getLsbD i = (decide (i < 8) && v.getLsbD (8 * k + i)) := by
  simp [byteOf]

theorem getLsbD_assemble (b0 b1 b2 b3 : Byte) {k i : ℕ} (hk : k < 4) (hi : i < 8) :
    (assemble b0 b1 b2 b3).getLsbD (8 * k + i) = ([b0, b1, b2, b3].getD k 0).getLsbD i := by
  unfold assemble
  simp only [BitVec.getLsbD_append]
  interval_cases k
  · simp [hi]
  · simp [show ¬ 8 + i < 8 by omega, hi]
  · simp [show ¬ 16 + i < 8 by omega, show 16 + i - 8 = 8 + i by omega, hi]
  · simp [show ¬ 24 + i < 8 by omega, show 24 + i - 8 = 16 + i by omega,
      show ¬ 16 + i < 8 by omega, show 16 + i - 8 = 8 + i by omega]

theorem byteOf_assemble (b0 b1 b2 b3 : Byte) {k : ℕ} (hk : k < 4) :
    byteOf (assemble b0 b1 b2 b3) k = [b0, b1, b2, b3].getD k 0 := by
  apply BitVec.eq_of_getLsbD_eq
  intro i hi
  rw [getLsbD_byteOf, decide_eq_true hi, Bool.true_and, getLsbD_assemble b0 b1 b2 b3 hk hi]

/-- Bytes put together by shifts. -/
theorem or_bytes (b0 b1 b2 b3 : Byte) :
    b0.setWidth 32 ||| b1.setWidth 32 <<< 8 ||| b2.setWidth 32 <<< 16 ||| b3.setWidth 32 <<< 24 =
      assemble b0 b1 b2 b3 := by
  apply BitVec.eq_of_getLsbD_eq
  intro j hj
  have hsplit : j = 8 * (j / 8) + j % 8 := by omega
  have hk : j / 8 < 4 := by omega
  have hi : j % 8 < 8 := by omega
  rw [hsplit, getLsbD_assemble _ _ _ _ hk hi]
  generalize j / 8 = k at hk
  generalize j % 8 = i at hi
  interval_cases k <;> interval_cases i <;> simp

theorem byteOf_setWidth {n n' m : ℕ} (value : BitVec n) (h : 8 * m + 8 ≤ n') :
    byteOf (value.setWidth n') m = byteOf value m := by
  apply BitVec.eq_of_getLsbD_eq
  intro i hi
  rw [getLsbD_byteOf, getLsbD_byteOf, BitVec.getLsbD_setWidth,
    decide_eq_true (show 8 * m + i < n' by omega), Bool.true_and]

theorem byteOf_swap16 {m : ℕ} (value : BitVec 16) (hm : m < 2) :
    byteOf (swap16 value) m = byteOf value (1 - m) := by
  apply BitVec.eq_of_getLsbD_eq
  intro i hi
  rw [getLsbD_byteOf, getLsbD_byteOf]
  unfold swap16
  rw [BitVec.getLsbD_or, BitVec.getLsbD_ushiftRight, BitVec.getLsbD_shiftLeft]
  interval_cases m
  · simp [show i < 8 from hi]
  · have hhigh : value.getLsbD (8 + (8 * 1 + i)) = false := BitVec.getLsbD_of_ge _ _ (by omega)
    rw [hhigh]
    simp [hi, show 8 + i < 16 by omega]

section Chunks

variable {σ : Type} (h : Host σ)

/-- A chunk that is all that is left. -/
theorem transferLoop_once (read : Bool) (w : World σ) (input : Option (List Byte)) {length : ℕ}
    (hpos : 0 < length) (hlength : length ≤ 64) :
    transferLoop h read length w input length = transferChunk h w input length read := by
  obtain ⟨rounds, rfl⟩ : ∃ rounds, length = rounds + 1 := ⟨length - 1, by omega⟩
  have hdone : ∀ (w : World σ) (input : Option (List Byte)),
      transferLoop h read rounds w input 0 = (w, []) := by
    intro w input
    cases rounds with
    | zero => rfl
    | succ rounds => rfl
  rw [transferLoop, if_neg (by omega), Nat.min_eq_right hlength]
  simp only [Nat.sub_self, hdone, List.append_nil]

/-- What a chunk of the given bytes sends. -/
theorem transferChunk_wire (w : World σ) (bytes : List Byte) (read : Bool)
    (hpos : 0 < bytes.length) (hlength : bytes.length ≤ 64) :
    (transferChunk h w (some bytes) bytes.length read).1.wire =
      w.wire ++ [(bytes, 8 * bytes.length)] := by
  have hbits : bytes.length * 8 - 1 + 1 = 8 * bytes.length := by omega
  have hbytes : byteCount (8 * bytes.length) = bytes.length := by
    unfold byteCount
    omega
  have hbuffer : ∀ buf : Buffer, firstBytes (memcpy buf
      (overwrite (fun _ => 0) (bytes.take bytes.length)) (4 * ((bytes.length + 3) / 4)))
      bytes.length = bytes := by
    intro buf
    have hcopied : firstBytes (memcpy buf (overwrite (fun _ => 0) bytes)
        (4 * ((bytes.length + 3) / 4))) bytes.length =
        firstBytes (overwrite (fun _ => 0) bytes) bytes.length :=
      firstBytes_congr fun j hj => if_pos (by omega)
    rw [List.take_length, hcopied, firstBytes_overwrite (by omega)]
  simp only [transferChunk, transferOnDevice, hbits, hbytes, hbuffer]

end Chunks

end RooTesting.ArduinoSpi
