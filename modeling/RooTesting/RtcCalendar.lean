import RooTesting.RtcClock

/-! # The calendar counts seconds

The seconds since the first day of the chip's calendar are one number, and seconds carried through
the registers are added to it. -/
namespace RooTesting.Rtc
open LeapCalendar

variable {chip : Chip} {data : Byte → Byte} {c : Calendar}

def daySeconds : ℕ := 86400

/-- The seconds since the first day of the calendar. -/
def Calendar.count (c : Calendar) : ℕ :=
  index 2000 c.toDate * daySeconds + c.hour * 3600 + c.minute * 60 + c.second

/-- The days of a century have 25 leap days. -/
def Chip.period (chip : Chip) : ℕ := (if chip.isDs323x then 2 else 1) * 36525 * daySeconds

/-- The midnights after one second and up to another. -/
def crossedMidnights (before after : ℕ) : ℕ := after / daySeconds - before / daySeconds

def Chip.firstWeekday (chip : Chip) : ℕ := if chip.isDs323x || chip = .ds1307 then 1 else 0

/-- One bit for each day, or a number of seven. -/
def Chip.isWeekday (chip : Chip) (value : Byte) : Prop :=
  if chip = .rv8803 then value &&& 0x80 = 0
  else chip.firstWeekday ≤ value.toNat ∧ value.toNat < chip.firstWeekday + 7

def Chip.nextWeekday (chip : Chip) (value : Byte) : Byte :=
  if chip = .rv8803 then value.setWidth 7 |>.rotateLeft 1 |>.setWidth 8
  else if value.toNat + 1 = chip.firstWeekday + 7 then BitVec.ofNat 8 chip.firstWeekday
  else value + 1

theorem nextWeekday_rotate {value : Byte} (h : Chip.isWeekday .rv8803 value) :
    Chip.nextWeekday .rv8803 value = rotate value := by
  have hall : ∀ value : Byte, value &&& 0x80 = 0 →
      Chip.nextWeekday .rv8803 value = rotate value := by decide +kernel
  exact hall value h

theorem isWeekday_next {value : Byte} (h : chip.isWeekday value) :
    chip.isWeekday (chip.nextWeekday value) := by
  unfold Chip.isWeekday Chip.nextWeekday at *
  by_cases hchip : chip = .rv8803
  · rw [if_pos hchip] at h ⊢
    rw [if_pos hchip]
    have hall : ∀ value : Byte, (value.setWidth 7 |>.rotateLeft 1 |>.setWidth 8) &&& 0x80 = 0#8 := by
      decide +kernel
    exact hall value
  · rw [if_neg hchip] at h ⊢
    have hfirst : chip.firstWeekday ≤ 1 := by
      unfold Chip.firstWeekday
      split_ifs <;> omega
    rw [if_neg hchip]
    split_ifs with hlast
    · rw [BitVec.toNat_ofNat]
      omega
    · have hone : (1 : Byte).toNat = 1 := rfl
      rw [BitVec.toNat_add, hone]
      omega

/-- The arithmetic of the weekday register steps through the days of the week. -/
theorem advanceWeekday_eq {value : Byte} (h : chip.isWeekday value) (days : ℕ) :
    chip.advanceWeekday days value = chip.nextWeekday^[days] value := by
  by_cases hchip : chip = .rv8803
  · subst hchip
    rw [advanceWeekday_rotate]
    have hmasked : value &&& 0x7f = value := by
      have hall : ∀ value : Byte, value &&& 0x80 = 0 → value &&& 0x7f = value := by decide +kernel
      exact hall value h
    rw [hmasked]
    clear hmasked
    induction days generalizing value with
    | zero => rfl
    | succ days ih =>
      rw [Function.iterate_succ_apply, Function.iterate_succ_apply, nextWeekday_rotate h]
      apply ih
      rw [← nextWeekday_rotate h]
      exact isWeekday_next h
  · have hfirst : chip.firstWeekday ≤ 1 := by
      unfold Chip.firstWeekday
      split_ifs <;> omega
    induction days with
    | zero =>
      unfold Chip.isWeekday at h
      rw [if_neg hchip] at h
      simp only [Chip.advanceWeekday, if_neg hchip, Function.iterate_zero, id]
      change BitVec.ofNat 8 ((value.toNat + 0 - chip.firstWeekday) % 7 + chip.firstWeekday) = value
      apply BitVec.eq_of_toNat_eq
      rw [BitVec.toNat_ofNat]
      omega
    | succ days ih =>
      rw [Function.iterate_succ_apply', ← ih]
      unfold Chip.isWeekday at h
      rw [if_neg hchip] at h
      simp only [Chip.advanceWeekday, Chip.nextWeekday, if_neg hchip]
      change BitVec.ofNat 8 ((value.toNat + (days + 1) - chip.firstWeekday) % 7 +
        chip.firstWeekday) = if (BitVec.ofNat 8 ((value.toNat + days - chip.firstWeekday) % 7 +
          chip.firstWeekday)).toNat + 1 = chip.firstWeekday + 7 then _ else BitVec.ofNat 8
            ((value.toNat + days - chip.firstWeekday) % 7 + chip.firstWeekday) + 1
      apply BitVec.eq_of_toNat_eq
      rw [BitVec.toNat_ofNat, BitVec.toNat_ofNat]
      split_ifs with hlast
      · rw [BitVec.toNat_ofNat]
        omega
      · have hone : (1 : Byte).toNat = 1 := rfl
        rw [BitVec.toNat_add, BitVec.toNat_ofNat, hone]
        omega

theorem period_eq (chip : Chip) :
    ∃ years, chip.topYear = 2000 + years ∧
      chip.period = daySeconds * daysBeforeYear 2000 years := by
  obtain ⟨years, htop, hdays⟩ := daysBeforeYear_period chip
  refine ⟨years, htop, ?_⟩
  rw [hdays, Chip.period, daySeconds]
  split_ifs <;> rfl

theorem midnights_eq (h : c.Valid chip) (seconds : ℕ) :
    c.midnights seconds = crossedMidnights c.count (c.count + seconds) := by
  have hhour := h.hour
  have hminute := h.minute
  have hsecond := h.second
  simp only [Calendar.midnights, crossedMidnights, Calendar.count, daySeconds]
  omega

theorem count_after (h : c.Valid chip) (seconds : ℕ) :
    (c.after chip seconds).count = (c.count + seconds) % chip.period := by
  obtain ⟨years, htop, hperiod⟩ := period_eq chip
  have hdate := h.date
  rw [htop] at hdate
  have hindex := index_iterate hdate (c.midnights seconds)
  rw [← htop] at hindex
  have hmidnights := midnights_eq h seconds
  have hdays : (c.count + seconds) / daySeconds = index 2000 c.toDate + c.midnights seconds := by
    have hhour := h.hour
    have hminute := h.minute
    have hsecond := h.second
    simp only [Calendar.midnights, Calendar.count, daySeconds]
    omega
  have htime : (c.count + seconds) % daySeconds =
      (c.after chip seconds).hour * 3600 + (c.after chip seconds).minute * 60 +
        (c.after chip seconds).second := by
    simp only [Calendar.after, Calendar.count, daySeconds]
    omega
  rw [hperiod, Nat.mod_mul, hdays, ← hindex, htime]
  change index 2000 ((nextDay 2000 chip.topYear)^[c.midnights seconds] c.toDate) * daySeconds + _ +
    _ + _ = _
  rw [Nat.mul_comm daySeconds]
  omega

theorem twelveHour_passDays (days : ℕ) (data : Byte → Byte) :
    chip.twelveHour (passDays chip days data) = chip.twelveHour data := by
  unfold passDays
  split_ifs
  · cases chip <;> rfl
  · rfl

theorem passDays_other {address : Byte} (days : ℕ) (data : Byte → Byte)
    (h : address ≠ chip.weekdayIndex) : passDays chip days data address = data address := by
  unfold passDays
  split_ifs
  · rw [Function.update_of_ne h]
  · rfl

theorem passDays_weekday (days : ℕ) (h : chip.isWeekday (data chip.weekdayIndex)) :
    passDays chip days data chip.weekdayIndex =
      chip.nextWeekday^[days] (data chip.weekdayIndex) := by
  unfold passDays
  split_ifs with hdays
  · rw [Function.update_self, advanceWeekday_eq h]
  · rw [not_not.mp hdays]
    rfl

/-- Seconds carried through the registers are added to the count of seconds; the weekday goes on
with every midnight, and the hour mode, the flag in the seconds and all other registers stay. So
seconds carried in two portions are carried at once. -/
theorem advance_calendar (h : chip.decode data = some c) (seconds : ℕ) :
    (∃ c', chip.decode (chip.advance data seconds) = some c' ∧
      c'.count = (c.count + seconds) % chip.period) ∧
    (chip.isWeekday (data chip.weekdayIndex) → chip.advance data seconds chip.weekdayIndex =
      chip.nextWeekday^[crossedMidnights c.count (c.count + seconds)] (data chip.weekdayIndex)) ∧
    chip.twelveHour (chip.advance data seconds) = chip.twelveHour data ∧
    chip.advance data seconds chip.timeBase &&& 0x80 = data chip.timeBase &&& 0x80 ∧
    (∀ address, isCalendar chip address = false → address ≠ chip.weekdayIndex →
      chip.advance data seconds address = data address) ∧
    ∀ more, chip.advance (chip.advance data seconds) more = chip.advance data (seconds + more) := by
  have hvalid := decode_valid h
  have hafter := valid_after hvalid seconds
  have hbase : chip.timeBase ≠ chip.weekdayIndex := by
    cases chip <;> decide
  refine ⟨⟨_, decode_advance h seconds, count_after hvalid seconds⟩, ?_, ?_, ?_, ?_, ?_⟩
  · intro hweekday
    rw [advance_eq h, encode_other weekday_not_calendar, passDays_weekday _ hweekday,
      midnights_eq hvalid]
  · rw [advance_eq h, twelveHour_encode hafter.hour, twelveHour_passDays]
  · rw [advance_eq h, encode_second, (flag_second hafter.second _).2, passDays_other _ _ hbase]
  · intro address hother hne
    rw [advance_eq h, encode_other hother, passDays_other _ _ hne]
  · intro more
    exact advance_add seconds more

/-- The last second of February 28 of a leap year, a Monday. -/
def leapEve (address : Byte) : Byte := [0x59, 0x59, 0x23, 2, 0x28, 2, 0].getD address.toNat 0

theorem advance_calendar_leap :
    (∃ c', Chip.ds3231.decode (Chip.ds3231.advance leapEve 1) = some c' ∧
      c'.count = 59 * daySeconds) ∧
    Chip.ds3231.advance leapEve 1 3 = 3 := by
  have hdecode : Chip.ds3231.decode leapEve = some ⟨⟨2000, 2, 28⟩, 23, 59, 59⟩ := by decide +kernel
  obtain ⟨⟨c', hc', hcount⟩, hweekday, -⟩ := advance_calendar hdecode 1
  refine ⟨⟨c', hc', hcount.trans (by decide +kernel)⟩, ?_⟩
  have hmonday : Chip.ds3231.isWeekday (leapEve Chip.ds3231.weekdayIndex) := by
    constructor <;> decide
  exact (hweekday hmonday).trans (by decide +kernel)

end RooTesting.Rtc
