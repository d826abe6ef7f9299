import Mathlib.Data.Int.Notation
import Mathlib.Data.Nat.Notation
import Mathlib.Logic.Function.Basic
import Mathlib.Tactic.Common
import Mathlib.Tactic.Cases

/-! # The SPI display controllers

The four controllers that keep their operands in a buffer differ in the width of a data unit, in
the number of units of a page address and of a pixel, in the colour format and in the placement of
a pixel on the viewport. A member that the constructor leaves uninitialised has any value. -/
namespace RooTesting.Displays

abbrev Byte := BitVec 8
abbrev Word := BitVec 16

/-- A transfer that goes wrong: it reads past its own buffer, writes past the operand buffer, or
ends the process in a failed check. -/
inductive Error
  | pastEnd
  | pastOperands
  | failedCheck
  deriving DecidableEq

/-- A `fillRect` on the viewport. -/
structure Write where
  x0 : Word
  y0 : Word
  x1 : Word
  y1 : Word
  argb : BitVec 32
  deriving DecidableEq

structure State where
  lastCommand : Word
  madCtl : Word
  x0 : Word
  y0 : Word
  x1 : Word
  y1 : Word
  xCursor : Word
  yCursor : Word
  isReset : Bool
  isInverted : Bool
  cmdDone : Bool
  buf : Fin 16 → Word
  bufSize : ℕ
  halfWord : Option Byte
  writes : List Write

def word (hi lo : Byte) : Word := (hi.setWidth 16 <<< 8) + lo.setWidth 16

/-- What one controller does in its own way. -/
structure Panel where
  words : Bool
  invon : Bool
  pageUnits : ℕ
  pixelUnits : ℕ
  operand : Word → Word
  color : (Fin 16 → Word) → BitVec 32
  place : Word → Word → Word → Option (Word × Word)
  stripes : List Write
  pageUnits_ge : 2 ≤ pageUnits := by decide
  pageUnits_le : pageUnits ≤ 4 := by decide
  pixelUnits_pos : 0 < pixelUnits := by decide
  pixelUnits_le : pixelUnits ≤ 16 := by decide
  color_congr : ∀ b b', (∀ i : Fin 16, i.val < pixelUnits → b i = b' i) → color b = color b'

/-- A command, or a unit of data, as it reaches `handleCmd` or `handleData`. -/
inductive Item
  | command (cmd : Word)
  | data (unit : Word)
  deriving DecidableEq

namespace MadCtl

def my (val : Word) : Bool := val &&& 0x80 != 0
def mx (val : Word) : Bool := val &&& 0x40 != 0
def mv (val : Word) : Bool := val &&& 0x20 != 0

end MadCtl

namespace State

variable (p : Panel) (s : State)

def reset : State :=
  if s.isReset then s
  else { s with
    madCtl := 0
    writes := s.writes ++ p.stripes
    bufSize := 0
    isReset := true
    isInverted := false
    halfWord := if p.words then none else s.halfWord }

def argb : BitVec 32 :=
  if s.isInverted then p.color s.buf ^^^ 0x00FFFFFF else p.color s.buf

/-- What the next pixel writes to the viewport. -/
def pixel : List Write :=
  match p.place s.madCtl s.xCursor s.yCursor with
  | some (x, y) => [⟨x, y, x, y, s.argb p⟩]
  | none => []

def writeColor : State :=
  let s' := { s with writes := s.writes ++ s.pixel p }
  if s.xCursor.slt s.x1 then { s' with xCursor := s.xCursor + 1 }
  else { s' with xCursor := s.x0, yCursor := s.yCursor + 1 }

/-- INVOFF and INVON fall through, to the end of DISPOFF. -/
def handleCmd (cmd : Word) : State :=
  let s := { s with cmdDone := false, bufSize := 0, lastCommand := cmd }
  if cmd = 0x01 then { s.reset p with cmdDone := true }
  else if cmd = 0x20 ∨ p.invon ∧ cmd = 0x21 then { s with isInverted := false, cmdDone := true }
  else if cmd = 0x2A ∨ cmd = 0x2B ∨ cmd = 0x36 ∨ cmd = 0x3A then s
  else if cmd = 0x2C then { s with xCursor := s.x0, yCursor := s.y0, cmdDone := true }
  else { s with cmdDone := true }

def address (hi lo : Word) : Word := (p.operand hi <<< 8) + p.operand lo

def handleData : State :=
  if s.lastCommand = 0x2A then
    if s.bufSize < 4 then s
    else { s with
      x0 := address p (s.buf 0) (s.buf 1), x1 := address p (s.buf 2) (s.buf 3), cmdDone := true }
  else if s.lastCommand = 0x2B then
    if s.bufSize < p.pageUnits then s
    else { s with
      y0 := address p (s.buf 0) (s.buf 1), y1 := address p (s.buf 2) (s.buf 3), cmdDone := true }
  else if s.lastCommand = 0x2C then
    if s.bufSize < p.pixelUnits then s else { s.writeColor p with bufSize := 0 }
  else if s.lastCommand = 0x36 then { s with madCtl := s.buf 0, cmdDone := true }
  else if s.lastCommand = 0x3A then { s with cmdDone := true }
  else { s with bufSize := 0, cmdDone := true }

/-- `buf_[buf_size_++] = unit`. -/
def store (unit : Word) : Except Error State :=
  if h : s.bufSize < 16 then
    .ok { s with buf := Function.update s.buf ⟨s.bufSize, h⟩ unit, bufSize := s.bufSize + 1 }
  else .error .pastOperands

def handle : Item → Except Error State
  | .command cmd => .ok (s.handleCmd p cmd)
  | .data unit => (s.store unit).map (handleData p)

/-- The final check on `bit_count`. -/
def finish (bitCount : ℕ) : Except Error State :=
  if bitCount = 0 then .ok s else .error .failedCheck

end State

def item (command : Bool) (unit : Word) : Item := if command then .command unit else .data unit

/-- The loops of `transfer` over single bytes. -/
def byteLoop (p : Panel) (command : Bool) : State → ℕ → List Byte → Except Error State
  | s, bitCount + 8, b :: buf =>
    (s.handle p (item command (b.setWidth 16))).bind fun s => byteLoop p command s bitCount buf
  | _, _ + 8, [] => .error .pastEnd
  | s, bitCount, _ => s.finish bitCount

/-- The loops of `transfer` over words, with the byte that is left at the end. -/
def wordLoop (p : Panel) (command : Bool) : State → ℕ → List Byte → Except Error State
  | s, bitCount + 16, hi :: lo :: buf =>
    (s.handle p (item command (word hi lo))).bind fun s => wordLoop p command s bitCount buf
  | _, _ + 16, _ => .error .pastEnd
  | s, bitCount + 8, b :: _ => { s with halfWord := some b }.finish bitCount
  | _, _ + 8, [] => .error .pastEnd
  | s, bitCount, _ => s.finish bitCount

/-- The byte that completes a half word. A command is the low byte alone. -/
def completed (command : Bool) (half b : Byte) : Item :=
  if command then .command (word half b &&& 0xFF) else .data (word half b)

def transferWords (p : Panel) (s : State) (command : Bool) (buf : List Byte) (bitCount : ℕ) :
    Except Error State :=
  match s.halfWord with
  | none => wordLoop p command s bitCount buf
  | some half =>
    if bitCount < 8 then .error .failedCheck
    else match buf with
      | [] => .error .pastEnd
      | b :: buf => ({ s with halfWord := none }.handle p (completed command half b)).bind fun s =>
          wordLoop p command s (bitCount - 8) buf

/-- `transfer`, with the levels of RST and D/C. -/
def transfer (p : Panel) (s : State) (resetLow command : Bool) (buf : List Byte) (bitCount : ℕ) :
    Except Error State :=
  if resetLow then .ok (s.reset p)
  else if p.words then transferWords p s command buf bitCount
  else byteLoop p command s bitCount buf

/-- The stripes that `reset` draws, two rows in each turn of its loop. -/
def stripes (width height : Word) : List Write :=
  (List.range ((height.toInt.toNat + 1) / 2)).flatMap fun i =>
    [⟨0, .ofNat 16 (2 * i), width - 1, .ofNat 16 (2 * i), 0xFFCCCCCC⟩,
      ⟨0, .ofNat 16 (2 * i + 1), width - 1, .ofNat 16 (2 * i + 1), 0xFF444444⟩]

def rgb565 (color : BitVec 16) : BitVec 32 :=
  let color := color.setWidth 32
  let r := ((color >>> 8) &&& 0xF8) ||| (color >>> 13)
  let g := ((color >>> 3) &&& 0xFC) ||| ((color >>> 9) &&& 0x03)
  let b := ((color <<< 3) &&& 0xF8) ||| ((color >>> 2) &&& 0x07)
  0xFF000000 ||| (r <<< 16) ||| (g <<< 8) ||| b

def rgb666 (color : BitVec 32) : BitVec 32 :=
  let r := ((color >>> 16) &&& 0xFC) ||| ((color >>> 22) &&& 0x03)
  let g := ((color >>> 8) &&& 0xFC) ||| ((color >>> 14) &&& 0x03)
  let b := (color &&& 0xFC) ||| ((color >>> 6) &&& 0x03)
  0xFF000000 ||| (r <<< 16) ||| (g <<< 8) ||| b

/-- A panel of a fixed size; `uint16_t` coordinates. -/
def iliPlace (width height val x y : Word) : Option (Word × Word) :=
  let x' := if MadCtl.mv val then y else x
  let y' := if MadCtl.mv val then x else y
  some (if MadCtl.mx val then x' else width - 1 - x', if MadCtl.my val then height - 1 - y' else y')

/-- A panel that hides a border of the controller's memory; `int32_t` coordinates. -/
def stPlace (width height xPadding yPadding : ℤ) (val x y : Word) : Option (Word × Word) :=
  let x' := if MadCtl.mv val then y.toInt else x.toInt
  let y' := if MadCtl.mv val then x.toInt else y.toInt
  let y' := (if MadCtl.my val then height + 2 * yPadding - 1 - y' else y') - yPadding
  let x' := (if MadCtl.mx val then width + 2 * xPadding - 1 - x' else x') - xPadding
  if 0 ≤ x' ∧ 0 ≤ y' ∧ x' < width ∧ y' < height then some (.ofInt 16 x', .ofInt 16 y') else none

def fakeIli9341Spi : Panel where
  words := false
  invon := false
  pageUnits := 4
  pixelUnits := 2
  operand := id
  color buf := rgb565 ((buf 0 <<< 8) + buf 1)
  place := iliPlace 240 320
  stripes := stripes 320 480
  color_congr b b' h := by rw [h 0 (by decide), h 1 (by decide)]

def fakeIli9486Spi : Panel where
  words := true
  invon := false
  pageUnits := 4
  pixelUnits := 1
  operand := (· &&& 0xFF)
  color buf := rgb565 (buf 0)
  place := iliPlace 320 480
  stripes := stripes 320 480
  color_congr b b' h := by rw [h 0 (by decide)]

def fakeIli9488Spi : Panel where
  words := false
  invon := false
  pageUnits := 2
  pixelUnits := 3
  operand := id
  color buf :=
    rgb666 (((buf 0).setWidth 32 <<< 16) + ((buf 1).setWidth 32 <<< 8) + (buf 2).setWidth 32)
  place := iliPlace 320 480
  stripes := stripes 320 480
  color_congr b b' h := by rw [h 0 (by decide), h 1 (by decide), h 2 (by decide)]

def fakeSt77xxSpi (width height xPadding yPadding : Word) : Panel where
  words := false
  invon := true
  pageUnits := 4
  pixelUnits := 2
  operand := id
  color buf := rgb565 ((buf 0 <<< 8) + buf 1)
  place := stPlace width.toInt height.toInt xPadding.toInt yPadding.toInt
  stripes := stripes width height
  color_congr b b' h := by rw [h 0 (by decide), h 1 (by decide)]

inductive Controller
  | ili9341
  | ili9486
  | ili9488
  | st77xx (width height xPadding yPadding : Word)

def Controller.panel : Controller → Panel
  | .ili9341 => fakeIli9341Spi
  | .ili9486 => fakeIli9486Spi
  | .ili9488 => fakeIli9488Spi
  | .st77xx width height xPadding yPadding => fakeSt77xxSpi width height xPadding yPadding

/-- What the constructor sets. -/
structure Constructed (s : State) : Prop where
  madCtl : s.madCtl = 0
  isReset : s.isReset = true
  isInverted : s.isInverted = false
  bufSize : s.bufSize = 0
  halfWord : s.halfWord = none

/-- One SPI transfer of whole bytes. -/
structure Transfer where
  resetLow : Bool
  command : Bool
  bytes : List Byte
  nonempty : bytes ≠ []

def Transfer.send (p : Panel) (s : State) (t : Transfer) : Except Error State :=
  transfer p s t.resetLow t.command t.bytes (8 * t.bytes.length)

def sendAll (p : Panel) (s : State) (ts : List Transfer) : Except Error State :=
  ts.foldlM (Transfer.send p) s

end RooTesting.Displays
