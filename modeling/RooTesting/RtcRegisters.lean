import RooTesting.LeapCalendar
import Mathlib.Algebra.Order.Field.Rat
import Mathlib.Logic.Function.Basic

/-! # The registers of the real-time clocks

The register banks of the emulated chips: the calendar in BCD at the addresses and in the hour
modes of each chip, the carry of seconds through it, the sampling of the emulated clock, and
the masks of the control and status registers. -/
namespace RooTesting.Rtc
open LeapCalendar

inductive Chip where
  | ds3231 | ds3232 | ds3234 | ds1307 | pcf8523 | rv3028 | rv8803
  deriving DecidableEq

abbrev Byte := BitVec 8

def bcd (value : ℕ) : Byte := BitVec.ofNat 8 (value / 10 * 16 + value % 10)

/-- The value of two digits; `none` stands for the -1 of a digit above 9. -/
def decimal (value : Byte) : Option ℕ :=
  if value &&& 15 > 9 || value >>> 4 > 9 then none
  else some ((value >>> 4).toNat * 10 + (value &&& 15).toNat)

structure Calendar extends Date where
  hour : ℕ
  minute : ℕ
  second : ℕ
  deriving DecidableEq

structure Registers where
  chip : Chip
  data : Byte → Byte
  snapshot : Fin 7 → Byte
  sampledAt : ℤ
  fractionUs : ℕ
  sampled : Bool
  reading : Bool

namespace Chip

variable (chip : Chip)

def isDs323x : Bool := chip = .ds3231 || chip = .ds3232 || chip = .ds3234

def timeBase : Byte := if chip = .pcf8523 then 3 else 0

def dayIndex : Byte := chip.timeBase + if chip = .pcf8523 then 3 else 4

def weekdayIndex : Byte := chip.timeBase + if chip = .pcf8523 then 4 else 3

def size : ℕ :=
  match chip with
  | .ds3231 => 0x13
  | .ds3232 => 0x100
  | .ds3234 => 0x14
  | .ds1307 => 0x40
  | .pcf8523 => 0x14
  | .rv3028 => 0x40
  | .rv8803 => 0x30

def nextAddress (address : Byte) : Byte := BitVec.ofNat 8 ((address.toNat + 1) % chip.size)

def canonicalAddress (address : Byte) : Byte :=
  if chip = .rv8803 && address ≥ 0x11 && address ≤ 0x17 then address - 0x11
  else if chip = .rv8803 && address ≥ 0x18 && address ≤ 0x1f then address - 0x10
  else address

/-- The first year behind the last one of the chip's calendar. -/
def topYear : ℕ := if chip.isDs323x then 2200 else 2100

variable (data : Byte → Byte)

def stopped : Bool :=
  match chip with
  | .ds1307 => data 0 &&& 0x80 ≠ 0
  | .pcf8523 => data 0 &&& 0x20 ≠ 0
  | .rv8803 => data 0x0f &&& 1 ≠ 0
  | _ => false

def twelveHour : Bool :=
  if chip.isDs323x || chip = .ds1307 then data 2 &&& 0x40 ≠ 0
  else if chip = .pcf8523 then data 0 &&& 8 ≠ 0
  else chip = .rv3028 && data 0x10 &&& 2 ≠ 0

/-- The hour from its register, in either mode. -/
def decodeHour : Option ℕ :=
  let value := data (chip.timeBase + 2)
  if chip.twelveHour data then
    match decimal (value &&& 0x1f) with
    | none => none
    | some hour =>
      if hour < 1 || hour > 12 then none
      else some (hour % 12 + if value &&& 0x20 ≠ 0 then 12 else 0)
  else decimal value

def decode : Option Calendar := do
  let base := chip.timeBase
  let second ← decimal (data base &&& 0x7f)
  let minute ← decimal (data (base + 1))
  let hour ← chip.decodeHour data
  let day ← decimal (data chip.dayIndex)
  let month ← decimal (data (base + 5) &&& if chip.isDs323x then 0x1f else 0xff)
  let years ← decimal (data (base + 6))
  let year := 2000 + years + if chip.isDs323x && data (base + 5) &&& 0x80 ≠ 0 then 100 else 0
  if second < 60 && minute < 60 && hour < 24 && month ≥ 1 && month ≤ 12 && day ≥ 1 &&
      day ≤ daysInMonth year month then
    some { year, month, day, hour, minute, second }
  else none

def encodeHour (twelveHour : Bool) (hour : ℕ) : Byte :=
  if twelveHour then
    bcd (if hour % 12 = 0 then 12 else hour % 12) ||| (if hour ≥ 12 then 0x20 else 0) |||
      if chip.isDs323x || chip = .ds1307 then 0x40 else 0
  else bcd hour

def encode (c : Calendar) : Byte → Byte :=
  let base := chip.timeBase
  let data := Function.update data base (bcd c.second ||| data base &&& 0x80)
  let data := Function.update data (base + 1) (bcd c.minute)
  let data := Function.update data (base + 2) (chip.encodeHour (chip.twelveHour data) c.hour)
  let data := Function.update data chip.dayIndex (bcd c.day)
  let data := Function.update data (base + 5)
    (bcd c.month ||| if chip.isDs323x && c.year ≥ 2100 then 0x80 else 0)
  Function.update data (base + 6) (bcd (c.year % 100))

/-- The weekday after some days, at least one: a rotation of seven bits, or a number modulo
seven, counted from the chip's origin. -/
def advanceWeekday (days : ℕ) (value : Byte) : Byte :=
  if chip = .rv8803 then
    let weekday := value &&& 0x7f
    let shift := days % 7
    (weekday <<< shift ||| weekday >>> (7 - shift)) &&& 0x7f
  else
    let origin := if chip.isDs323x || chip = .ds1307 then 1 else 0
    BitVec.ofNat 8 ((value.toNat + days - origin) % 7 + origin)

/-- The loop over the months. Each round but the last takes a day at least, so that as many
rounds as days are enough. -/
def carryDays : ℕ → Date → ℕ → Date
  | 0, d, _ => d
  | rounds + 1, d, days =>
    if days = 0 then d
    else
      let remaining := daysInMonth d.year d.month - d.day + 1
      if days < remaining then { d with day := d.day + days }
      else carryDays rounds (nextMonth 2000 chip.topYear d) (days - remaining)

/-- Seconds carried through the calendar. They are whole millions of 64-bit microseconds, so that
no 64-bit sum wraps. -/
def advance (seconds : ℕ) : Byte → Byte :=
  match chip.decode data with
  | none => data
  | some c =>
    let value := c.second + seconds
    let second := value % 60
    let value := c.minute + value / 60
    let minute := value % 60
    let value := c.hour + value / 60
    let hour := value % 24
    let days := value / 24
    let data :=
      if days ≠ 0 then
        Function.update data chip.weekdayIndex
          (chip.advanceWeekday days (data chip.weekdayIndex))
      else data
    let days := days % if chip.isDs323x then 73050 else 36525
    chip.encode data ⟨chip.carryDays days c.toDate days, hour, minute, second⟩

def statusWrite (old value : Byte) : Byte :=
  if chip.isDs323x then
    let settings : Byte := if chip = .ds3231 then 8 else 0x78
    (old &&& value &&& 0x83) ||| (value &&& settings) ||| (old &&& 4)
  else if chip = .rv3028 then (old &&& value &&& 0x7f) ||| (old &&& 0x80)
  else
    let flags := old &&& value &&& 0x3f
    if value &&& 3 ≠ 3 then flags &&& ~~~3 else flags

end Chip

namespace Registers

variable (r : Registers)

def stopped : Bool := r.chip.stopped r.data

def set (address value : Byte) : Registers := { r with data := Function.update r.data address value }

def simulateTimeLoss : Registers :=
  if r.chip.isDs323x then r.set 0x0f (r.data 0x0f ||| 0x80)
  else if r.chip = .ds1307 then r.set 0 (r.data 0 ||| 0x80)
  else if r.chip = .pcf8523 then r.set 3 (r.data 3 ||| 0x80)
  else r.set 0x0e (r.data 0x0e ||| if r.chip = .rv3028 then 1 else 3)

/-- A fraction's part before its point. -/
def truncate (value : ℚ) : ℤ := value.num.tdiv value.den

def setTemperature (celsius : ℚ) : Registers :=
  let celsius := if celsius < -128 then -128 else celsius
  let celsius := if celsius > 127.75 then 127.75 else celsius
  let quarters := BitVec.ofInt 32 (truncate (celsius * 4))
  (r.set 0x11 ((quarters.sshiftRight 2).setWidth 8)).set 0x12
    (((quarters &&& 3) <<< 6).setWidth 8)

/-- A bank of zeros; the snapshot and the time of sampling are left. -/
def clear : Registers :=
  { r with data := fun _ => 0, fractionUs := 0, sampled := false, reading := false }

def reset : Registers :=
  let base := r.chip.timeBase
  let weekday : Byte :=
    if r.chip = .rv8803 then 0x40
    else if r.chip = .pcf8523 || r.chip = .rv3028 then 6 else 7
  let r := ((r.clear.set r.chip.dayIndex 1).set (base + 5) 1).set r.chip.weekdayIndex weekday
  let r := if r.chip = .pcf8523 then r.set 2 0xe0 else r
  let r := if r.chip = .rv3028 then r.set 0x37 0x10 else r
  let r := if r.chip.isDs323x then r.setTemperature 25 else r
  r.simulateTimeLoss

/-- The emulated clock is looked at. -/
def sync (now : ℤ) : Registers :=
  let sampledAt := if r.sampled then r.sampledAt else now
  let elapsed := if now ≥ sampledAt then (now - sampledAt).toNat else 0
  let r := { r with sampled := true, sampledAt := now }
  if r.stopped then r
  else
    let fraction := r.fractionUs + elapsed
    let seconds := fraction / 1000000
    { r with
      fractionUs := fraction % 1000000
      data := if seconds ≠ 0 then r.chip.advance r.data seconds else r.data }

def beginRead (now : ℤ) : Registers :=
  let r := r.sync now
  { r with
    snapshot := fun i => r.data (r.chip.timeBase + BitVec.ofNat 8 i)
    reading := true }

def endRead : Registers := { r with reading := false }

/-- The registers after a read, and what it reads. -/
def read (now : ℤ) (address : Byte) : Registers × Byte :=
  let r := r.sync now
  let address := r.chip.canonicalAddress address
  let offset := (address - r.chip.timeBase).toNat
  (r,
    if h : r.reading ∧ r.chip ≠ .rv8803 ∧ address ≥ r.chip.timeBase ∧ offset < 7 then
      r.snapshot ⟨offset, h.2.2.2⟩
    else if r.chip = .rv8803 ∧ address = 0x10 then bcd (r.fractionUs / 10000)
    else r.data address)

/-- The hour mode of the RV-3028 changes with its control register, and the hour is encoded
anew. -/
def writeControl2 (address value : Byte) : Registers :=
  let old := r.data address
  let before := r.chip.decode r.data
  let r := r.set address (value &&& 0xfe)
  let r := match before with
    | some c => if (old ^^^ value) &&& 2 ≠ 0 then { r with data := r.chip.encode r.data c } else r
    | none => r
  if value &&& 1 ≠ 0 then { r with fractionUs := 0 } else r

/-- A write of the seconds, or to a halted clock, clears the remainder. -/
def writePlain (address value : Byte) : Registers :=
  let value := if r.chip = .rv8803 && address = 0x0f then value &&& 0x3d else value
  let r := r.set address value
  if address = r.chip.timeBase || r.stopped then { r with fractionUs := 0 } else r

def write (now : ℤ) (address value : Byte) : Registers :=
  let r := r.sync now
  let address := r.chip.canonicalAddress address
  let old := r.data address
  if r.chip.isDs323x && address = 0x0f ||
      (r.chip = .rv3028 || r.chip = .rv8803) && address = 0x0e then
    r.set address (r.chip.statusWrite old value)
  else if r.chip = .pcf8523 && address = 2 then
    r.set address ((value &&& 0xe3) ||| (old &&& value &&& 8) ||| (old &&& 4))
  else if r.chip.isDs323x && (address = 0x11 || address = 0x12) then r
  else if r.chip = .pcf8523 && address = 0 && value = 0x58 then r.reset
  else
    let value :=
      if r.chip = .pcf8523 && address = 3 then (value &&& 0x7f) ||| (old &&& value &&& 0x80)
      else value
    let value := if r.chip = .pcf8523 && address = 0 then value &&& 0xaf else value
    if r.chip = .rv3028 && address = 0x10 then r.writeControl2 address value
    else r.writePlain address value

def injectRegister (now : ℤ) (address value : Byte) : Registers :=
  (r.sync now).set (r.chip.canonicalAddress address) value

end Registers

/-- What looks at the clock and changes no register by itself. -/
inductive Access where
  | sync | beginRead | endRead
  | read (address : Byte)

inductive Operation where
  | access (a : Access)
  | reset | simulateTimeLoss
  | write (address value : Byte)
  | injectRegister (address value : Byte)
  | setTemperature (celsius : ℚ)

def Registers.observe (r : Registers) (now : ℤ) : Access → Registers
  | .sync => r.sync now
  | .beginRead => r.beginRead now
  | .endRead => r.endRead
  | .read address => (r.read now address).1

def Registers.apply (r : Registers) (now : ℤ) : Operation → Registers
  | .access a => r.observe now a
  | .reset => r.reset
  | .simulateTimeLoss => r.simulateTimeLoss
  | .write address value => r.write now address value
  | .injectRegister address value => r.injectRegister now address value
  | .setTemperature celsius => r.setTemperature celsius

/-- The registers of a new chip. -/
def powerOn (chip : Chip) : Registers :=
  Registers.reset ⟨chip, fun _ => 0, fun _ => 0, 0, 0, false, false⟩

end RooTesting.Rtc
