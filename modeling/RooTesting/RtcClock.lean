import RooTesting.RtcRegisters
import RooTesting.Transition

/-! # Looking at a running clock changes nothing

What the calendar registers encode is read back from them, so that seconds carried in portions
are seconds carried at once, and a clock that is looked at many times ends up where it ends up
when it is looked at once. -/
namespace RooTesting.Rtc
open LeapCalendar Transition

/-- A date and a time of day of the chip's calendar. -/
structure Calendar.Valid (chip : Chip) (c : Calendar) : Prop where
  date : c.toDate.Valid 2000 chip.topYear
  hour : c.hour < 24
  minute : c.minute < 60
  second : c.second < 60

section Bytes

theorem decimal_bcd {value : ℕ} (h : value < 100) : decimal (bcd value) = some value := by
  have hall : ∀ value : Fin 100, decimal (bcd value) = some value.val := by decide
  exact hall ⟨value, h⟩

theorem decimal_lt {value : Byte} {n : ℕ} (h : decimal value = some n) : n < 100 := by
  have hall : ∀ value : Byte, ((decimal value).all fun n => decide (n < 100)) = true := by decide
  have hvalue := hall value
  rw [h] at hvalue
  exact of_decide_eq_true hvalue

/-- The upper bit of the seconds is a flag. -/
theorem flag_second {value : ℕ} (h : value < 60) (flags : Byte) :
    (bcd value ||| flags &&& 0x80) &&& 0x7f = bcd value ∧
      (bcd value ||| flags &&& 0x80) &&& 0x80 = flags &&& 0x80 := by
  have hall : ∀ value : Fin 60, bcd value &&& 0x7f = bcd value ∧ bcd value &&& 0x80 = 0#8 := by
    decide
  obtain ⟨hlow, hhigh⟩ := hall ⟨value, h⟩
  change bcd value &&& 0x7f = bcd value at hlow
  change bcd value &&& 0x80 = 0#8 at hhigh
  have hflags : (flags &&& 0x80) &&& 0x7f = 0#8 := by
    rw [BitVec.and_assoc]
    exact BitVec.and_zero
  constructor
  · rw [BitVec.and_or_distrib_right, hlow, hflags, BitVec.or_zero]
  · rw [BitVec.and_or_distrib_right, hhigh, BitVec.and_assoc, BitVec.and_self, BitVec.zero_or]

/-- The upper bit of the months is the century. -/
theorem flag_month {value : ℕ} (hpos : 1 ≤ value) (hle : value ≤ 12) (century : Bool) :
    decimal ((bcd value ||| if century then 0x80 else 0) &&& 0x1f) = some value ∧
      decide ((bcd value ||| if century then 0x80 else 0) &&& 0x80 ≠ 0) = century := by
  have hall : ∀ value : Fin 13, 1 ≤ value.val → ∀ century : Bool,
      decimal ((bcd value ||| if century then 0x80 else 0) &&& 0x1f) = some value.val ∧
        decide ((bcd value ||| if century then 0x80 else 0) &&& 0x80 ≠ 0) = century := by decide
  exact hall ⟨value, by omega⟩ hpos century

/-- Both hour modes keep the hour, and the mode where it is a bit of the same register. -/
theorem encodeHour_twelve (chip : Chip) {hour : ℕ} (h : hour < 24) :
    (decimal (chip.encodeHour true hour &&& 0x1f) =
        some (if hour % 12 = 0 then 12 else hour % 12)) ∧
      decide (chip.encodeHour true hour &&& 0x20 ≠ 0) = decide (hour ≥ 12) ∧
      decide (chip.encodeHour true hour &&& 0x40 ≠ 0) = (chip.isDs323x || chip = .ds1307) := by
  have hall : ∀ mode : Bool, ∀ hour : Fin 24,
      (decimal ((bcd (if hour.val % 12 = 0 then 12 else hour.val % 12) |||
        (if hour.val ≥ 12 then 0x20 else 0) ||| if mode then 0x40 else 0) &&& 0x1f) =
        some (if hour.val % 12 = 0 then 12 else hour.val % 12)) ∧
      decide ((bcd (if hour.val % 12 = 0 then 12 else hour.val % 12) |||
        (if hour.val ≥ 12 then 0x20 else 0) ||| if mode then 0x40 else 0) &&& 0x20 ≠ 0) =
        decide (hour.val ≥ 12) ∧
      decide ((bcd (if hour.val % 12 = 0 then 12 else hour.val % 12) |||
        (if hour.val ≥ 12 then 0x20 else 0) ||| if mode then 0x40 else 0) &&& 0x40 ≠ 0) = mode := by
    decide
  exact hall (chip.isDs323x || chip = .ds1307) ⟨hour, h⟩

theorem encodeHour_twentyFour (chip : Chip) {hour : ℕ} (h : hour < 24) :
    chip.encodeHour false hour &&& 0x40 = 0 := by
  have hall : ∀ hour : Fin 24, bcd hour &&& 0x40 = 0 := by decide
  exact hall ⟨hour, h⟩

end Bytes

section Encoding

variable {chip : Chip} {data : Byte → Byte} {c : Calendar}

theorem encode_second : chip.encode data c chip.timeBase =
    bcd c.second ||| data chip.timeBase &&& 0x80 := by
  cases chip <;> rfl

theorem encode_minute : chip.encode data c (chip.timeBase + 1) = bcd c.minute := by
  cases chip <;> rfl

theorem encode_hour : chip.encode data c (chip.timeBase + 2) =
    chip.encodeHour (chip.twelveHour data) c.hour := by
  cases chip <;> rfl

theorem encode_day : chip.encode data c chip.dayIndex = bcd c.day := by
  cases chip <;> rfl

theorem encode_month : chip.encode data c (chip.timeBase + 5) =
    bcd c.month ||| if chip.isDs323x && c.year ≥ 2100 then 0x80 else 0 := by
  cases chip <;> rfl

theorem encode_year : chip.encode data c (chip.timeBase + 6) = bcd (c.year % 100) := by
  cases chip <;> rfl

/-- The calendar registers but for the weekday. -/
def isCalendar (chip : Chip) (address : Byte) : Bool :=
  address = chip.timeBase || address = chip.timeBase + 1 || address = chip.timeBase + 2 ||
    address = chip.dayIndex || address = chip.timeBase + 5 || address = chip.timeBase + 6

theorem encode_other {address : Byte} (h : isCalendar chip address = false) :
    chip.encode data c address = data address := by
  simp only [isCalendar, Bool.or_eq_false_iff, decide_eq_false_iff_not] at h
  obtain ⟨⟨⟨⟨⟨hsecond, hminute⟩, hhour⟩, hday⟩, hmonth⟩, hyear⟩ := h
  simp only [Chip.encode, Function.update_of_ne hsecond, Function.update_of_ne hminute,
    Function.update_of_ne hhour, Function.update_of_ne hday, Function.update_of_ne hmonth,
    Function.update_of_ne hyear]

/-- The hour mode stays. -/
theorem twelveHour_encode (h : c.hour < 24) :
    chip.twelveHour (chip.encode data c) = chip.twelveHour data := by
  have hmode : ∀ mode : Bool, (chip.isDs323x || chip = .ds1307) = true →
      decide (chip.encodeHour mode c.hour &&& 0x40 ≠ 0) = mode := by
    rintro (_ | _) hds
    · rw [encodeHour_twentyFour chip h]
      rfl
    · rw [(encodeHour_twelve chip h).2.2, hds]
  cases chip
  case pcf8523 => rfl
  case rv3028 => rfl
  case rv8803 => rfl
  all_goals exact hmode (Chip.twelveHour _ data) rfl

theorem decodeHour_encode (h : c.hour < 24) :
    chip.decodeHour (chip.encode data c) = some c.hour := by
  rw [Chip.decodeHour, encode_hour, twelveHour_encode h]
  cases hmode : chip.twelveHour data with
  | false =>
    rw [if_neg Bool.false_ne_true]
    exact decimal_bcd (by omega)
  | true =>
    obtain ⟨hvalue, hpm, -⟩ := encodeHour_twelve chip h
    rw [if_pos rfl, hvalue]
    have hrange : (decide ((if c.hour % 12 = 0 then 12 else c.hour % 12) < 1) ||
        decide ((if c.hour % 12 = 0 then 12 else c.hour % 12) > 12)) = false := by
      split_ifs <;> simp
      omega
    simp only [hrange, Bool.false_eq_true, if_false]
    by_cases hnoon : c.hour ≥ 12
    · rw [decide_eq_true hnoon] at hpm
      rw [if_pos (of_decide_eq_true hpm)]
      split_ifs <;> simp <;> omega
    · rw [decide_eq_false hnoon] at hpm
      rw [if_neg (of_decide_eq_false hpm)]
      split_ifs <;> simp <;> omega

/-- A calendar is read back as it was written. -/
theorem decode_encode (h : c.Valid chip) : chip.decode (chip.encode data c) = some c := by
  obtain ⟨⟨hfirst, htop, hmonthPos, hmonthLe, hdayPos, hdayLe⟩, hhour, hminute, hsecond⟩ := h
  have hdays : daysInMonth c.year c.month ≤ 31 := daysInMonth_le hmonthPos hmonthLe
  have hsecondValue : decimal (chip.encode data c chip.timeBase &&& 0x7f) = some c.second := by
    rw [encode_second, (flag_second hsecond _).1]
    exact decimal_bcd (by omega)
  have hminuteValue : decimal (chip.encode data c (chip.timeBase + 1)) = some c.minute := by
    rw [encode_minute]
    exact decimal_bcd (by omega)
  have hdayValue : decimal (chip.encode data c chip.dayIndex) = some c.day := by
    rw [encode_day]
    exact decimal_bcd (by omega)
  have hyearValue : decimal (chip.encode data c (chip.timeBase + 6)) = some (c.year % 100) := by
    rw [encode_year]
    exact decimal_bcd (by omega)
  have hmonthValue : decimal (chip.encode data c (chip.timeBase + 5) &&&
      if chip.isDs323x then 0x1f else 0xff) = some c.month := by
    rw [encode_month]
    cases hds : chip.isDs323x with
    | true =>
      rw [Bool.true_and]
      exact (flag_month hmonthPos hmonthLe _).1
    | false =>
      rw [Bool.false_and, if_neg Bool.false_ne_true, if_neg Bool.false_ne_true]
      have hall : (bcd c.month ||| 0) &&& 0xff = bcd c.month := by
        have hplain : ∀ month : Fin 13, (bcd month ||| 0) &&& 0xff = bcd month := by decide
        exact hplain ⟨c.month, by omega⟩
      rw [hall]
      exact decimal_bcd (by omega)
  have hcentury : (chip.isDs323x && decide (chip.encode data c (chip.timeBase + 5) &&& 0x80 ≠ 0)) =
      (chip.isDs323x && c.year ≥ 2100) := by
    rw [encode_month]
    cases hds : chip.isDs323x with
    | true =>
      rw [Bool.true_and, Bool.true_and]
      exact (flag_month hmonthPos hmonthLe _).2
    | false => rfl
  have hyear : 2000 + c.year % 100 + (if (chip.isDs323x && c.year ≥ 2100) = true then 100 else 0) =
      c.year := by
    rw [Chip.topYear] at htop
    cases hds : chip.isDs323x with
    | true =>
      rw [hds, if_pos rfl] at htop
      rw [Bool.true_and]
      split_ifs with h <;> simp only [decide_eq_true_eq] at h <;> omega
    | false =>
      rw [hds, if_neg Bool.false_ne_true] at htop
      rw [Bool.false_and, if_neg Bool.false_ne_true]
      omega
  simp only [Chip.decode, hsecondValue, hminuteValue, hdayValue, hyearValue, hmonthValue,
    hcentury, hyear, decodeHour_encode hhour, Option.bind_eq_bind, Option.bind_some]
  rw [if_pos]
  simp only [Bool.and_eq_true, decide_eq_true_eq]
  exact ⟨⟨⟨⟨⟨⟨hsecond, hminute⟩, hhour⟩, hmonthPos⟩, hmonthLe⟩, hdayPos⟩, hdayLe⟩

/-- What is read is a date and a time of day. -/
theorem decode_valid (h : chip.decode data = some c) : c.Valid chip := by
  simp only [Chip.decode, Option.bind_eq_bind, Option.bind_eq_some_iff] at h
  obtain ⟨second, -, minute, -, hour, -, day, -, month, -, years, hyears, h⟩ := h
  rw [Option.ite_none_right_eq_some] at h
  obtain ⟨hchecks, hc⟩ := h
  rw [Option.some.injEq] at hc
  generalize hyear : (2000 + years + if (chip.isDs323x &&
    decide (data (chip.timeBase + 5) &&& 0x80 ≠ 0)) = true then 100 else 0) = year at hchecks hc
  subst hc
  simp only [Bool.and_eq_true, decide_eq_true_eq] at hchecks
  obtain ⟨⟨⟨⟨⟨⟨hsecond, hminute⟩, hhour⟩, hmonthPos⟩, hmonthLe⟩, hdayPos⟩, hdayLe⟩ := hchecks
  have hlt := decimal_lt hyears
  refine ⟨⟨?_, ?_, hmonthPos, hmonthLe, hdayPos, hdayLe⟩, hhour, hminute, hsecond⟩
  · change 2000 ≤ year
    omega
  · change year < chip.topYear
    rw [Chip.topYear]
    cases hds : chip.isDs323x with
    | true =>
      rw [if_pos rfl]
      split_ifs at hyear <;> omega
    | false =>
      rw [if_neg Bool.false_ne_true]
      rw [hds, Bool.false_and, if_neg Bool.false_ne_true] at hyear
      omega

/-- Two banks that agree on the calendar registers and elsewhere are equal. -/
theorem ext_calendar {bank bank' : Byte → Byte}
    (hsecond : bank chip.timeBase = bank' chip.timeBase)
    (hminute : bank (chip.timeBase + 1) = bank' (chip.timeBase + 1))
    (hhour : bank (chip.timeBase + 2) = bank' (chip.timeBase + 2))
    (hday : bank chip.dayIndex = bank' chip.dayIndex)
    (hmonth : bank (chip.timeBase + 5) = bank' (chip.timeBase + 5))
    (hyear : bank (chip.timeBase + 6) = bank' (chip.timeBase + 6))
    (hother : ∀ address, isCalendar chip address = false → bank address = bank' address) :
    bank = bank' := by
  funext address
  cases hcalendar : isCalendar chip address with
  | false => exact hother address hcalendar
  | true =>
    simp only [isCalendar, Bool.or_eq_true, decide_eq_true_eq] at hcalendar
    rcases hcalendar with ((((rfl | rfl) | rfl) | rfl) | rfl) | rfl
    · exact hsecond
    · exact hminute
    · exact hhour
    · exact hday
    · exact hmonth
    · exact hyear

/-- A calendar is written over an earlier one. -/
theorem encode_encode {c' : Calendar} (h : c.Valid chip) :
    chip.encode (chip.encode data c) c' = chip.encode data c' := by
  apply ext_calendar
  · rw [encode_second, encode_second, encode_second, (flag_second h.second _).2]
  · rw [encode_minute, encode_minute]
  · rw [encode_hour, encode_hour, twelveHour_encode h.hour]
  · rw [encode_day, encode_day]
  · rw [encode_month, encode_month]
  · rw [encode_year, encode_year]
  · intro address hother
    rw [encode_other hother, encode_other hother, encode_other hother]

theorem weekday_not_calendar : isCalendar chip chip.weekdayIndex = false := by
  cases chip <;> rfl

/-- The weekday is a register of its own. -/
theorem encode_update_weekday {value : Byte} :
    chip.encode (Function.update data chip.weekdayIndex value) c =
      Function.update (chip.encode data c) chip.weekdayIndex value := by
  have hne : ∀ {address}, isCalendar chip address = true → address ≠ chip.weekdayIndex := by
    rintro address hcalendar rfl
    rw [weekday_not_calendar] at hcalendar
    cases hcalendar
  have hbase : isCalendar chip chip.timeBase = true := by cases chip <;> rfl
  have hmode : chip.twelveHour (Function.update data chip.weekdayIndex value) =
      chip.twelveHour data := by
    cases chip <;> rfl
  apply ext_calendar
  · rw [encode_second, Function.update_of_ne (hne hbase), Function.update_of_ne (hne hbase),
      encode_second]
  · rw [encode_minute, Function.update_of_ne (hne (by cases chip <;> rfl)), encode_minute]
  · rw [encode_hour, Function.update_of_ne (hne (by cases chip <;> rfl)), encode_hour, hmode]
  · rw [encode_day, Function.update_of_ne (hne (by cases chip <;> rfl)), encode_day]
  · rw [encode_month, Function.update_of_ne (hne (by cases chip <;> rfl)), encode_month]
  · rw [encode_year, Function.update_of_ne (hne (by cases chip <;> rfl)), encode_year]
  · intro address hother
    rw [encode_other hother]
    by_cases haddress : address = chip.weekdayIndex
    · rw [haddress, Function.update_self, Function.update_self]
    · rw [Function.update_of_ne haddress, Function.update_of_ne haddress, encode_other hother]

/-- The halt controls stay. -/
theorem stopped_encode (h : c.second < 60) :
    chip.stopped (chip.encode data c) = chip.stopped data := by
  cases chip
  case ds1307 =>
    have hflag : Chip.encode .ds1307 data c 0 &&& 0x80 = data 0 &&& 0x80 := (flag_second h _).2
    rw [Chip.stopped, hflag]
    rfl
  all_goals rfl

theorem stopped_update_weekday {value : Byte} :
    chip.stopped (Function.update data chip.weekdayIndex value) = chip.stopped data := by
  cases chip <;> rfl

end Encoding

section Weekday

variable {chip : Chip}

/-- One day on. -/
def rotate (value : Byte) : Byte := (value <<< 1 ||| value >>> 6) &&& 0x7f

theorem rotate_masked (value : Byte) : rotate value &&& 0x7f = rotate value := by
  rw [rotate, BitVec.and_assoc, BitVec.and_self]

theorem iterate_rotate_masked (value : Byte) (days : ℕ) :
    rotate^[days] (value &&& 0x7f) &&& 0x7f = rotate^[days] (value &&& 0x7f) := by
  cases days with
  | zero =>
    change value &&& 0x7f &&& 0x7f = value &&& 0x7f
    rw [BitVec.and_assoc, BitVec.and_self]
  | succ days =>
    rw [Function.iterate_succ_apply']
    exact rotate_masked _

theorem rotate_week (value : Byte) : Function.IsPeriodicPt rotate 7 (value &&& 0x7f) := by
  have hall : ∀ value : Byte, rotate^[7] (value &&& 0x7f) = value &&& 0x7f := by decide +kernel
  exact hall value

theorem advanceWeekday_rotate (days : ℕ) (value : Byte) :
    Chip.advanceWeekday .rv8803 days value = rotate^[days] (value &&& 0x7f) := by
  have hall : ∀ shift : Fin 7, ∀ value : Byte,
      ((value &&& 0x7f) <<< shift.val ||| (value &&& 0x7f) >>> (7 - shift.val)) &&& 0x7f =
        rotate^[shift.val] (value &&& 0x7f) := by decide +kernel
  rw [← (rotate_week value).iterate_mod_apply days]
  exact hall ⟨days % 7, Nat.mod_lt _ (by decide)⟩ value

/-- Days passed in two portions. -/
theorem advanceWeekday_add {a b : ℕ} (ha : a ≠ 0) (hb : b ≠ 0) (value : Byte) :
    chip.advanceWeekday b (chip.advanceWeekday a value) = chip.advanceWeekday (a + b) value := by
  by_cases hchip : chip = .rv8803
  · subst hchip
    rw [advanceWeekday_rotate, advanceWeekday_rotate, advanceWeekday_rotate, iterate_rotate_masked,
      ← Function.iterate_add_apply, Nat.add_comm]
  · simp only [Chip.advanceWeekday, if_neg hchip]
    set origin : ℕ := if (chip.isDs323x || chip = .ds1307) then 1 else 0 with horigin
    have hle : origin ≤ 1 := by
      rw [horigin]
      split_ifs <;> omega
    have hnat : (BitVec.ofNat 8 ((value.toNat + a - origin) % 7 + origin)).toNat =
        (value.toNat + a - origin) % 7 + origin := by
      rw [BitVec.toNat_ofNat]
      omega
    rw [hnat]
    congr 1
    omega

/-- The bank after some days, perhaps none. -/
def passDays (chip : Chip) (days : ℕ) (data : Byte → Byte) : Byte → Byte :=
  if days ≠ 0 then
    Function.update data chip.weekdayIndex (chip.advanceWeekday days (data chip.weekdayIndex))
  else data

theorem passDays_add (a b : ℕ) (data : Byte → Byte) :
    passDays chip b (passDays chip a data) = passDays chip (a + b) data := by
  rw [passDays, passDays, passDays]
  by_cases ha : a = 0
  · rw [if_neg (not_not.mpr ha), ha, Nat.zero_add]
  by_cases hb : b = 0
  · rw [if_neg (not_not.mpr hb), hb, Nat.add_zero]
  rw [if_pos ha, if_pos hb, if_pos (by omega), Function.update_self, Function.update_idem,
    advanceWeekday_add ha hb]

theorem encode_passDays (days : ℕ) (data : Byte → Byte) (c : Calendar) :
    chip.encode (passDays chip days data) c = passDays chip days (chip.encode data c) := by
  rw [passDays, passDays]
  split_ifs
  · rw [encode_update_weekday, encode_other weekday_not_calendar]
  · rfl

theorem stopped_passDays (days : ℕ) (data : Byte → Byte) :
    chip.stopped (passDays chip days data) = chip.stopped data := by
  rw [passDays]
  split_ifs
  · exact stopped_update_weekday
  · rfl

end Weekday

section Advance

variable {chip : Chip} {data : Byte → Byte} {c : Calendar}

/-- The loop over the months is the next day taken as often. -/
theorem carryDays_eq {d : Date} (hday : d.day ≤ daysInMonth d.year d.month)
    (h : d.Valid 2000 chip.topYear) {rounds days : ℕ} (hrounds : days ≤ rounds) :
    chip.carryDays rounds d days = (nextDay 2000 chip.topYear)^[days] d := by
  induction rounds generalizing d days with
  | zero =>
    obtain rfl : days = 0 := by omega
    rfl
  | succ rounds ih =>
    rw [Chip.carryDays]
    by_cases hdays : days = 0
    · rw [if_pos hdays, hdays]
      rfl
    simp only [if_neg hdays]
    by_cases hlt : days < daysInMonth d.year d.month - d.day + 1
    · rw [if_pos hlt, iterate_days days (by omega)]
    · rw [if_neg hlt]
      have hnext := valid_nextMonth h
      rw [ih hnext.day_le hnext (by omega), ← iterate_month hday, ← Function.iterate_add_apply]
      congr 2
      omega

/-- The days of all years of the chip's calendar. -/
theorem daysBeforeYear_period (chip : Chip) :
    ∃ years, chip.topYear = 2000 + years ∧
      daysBeforeYear 2000 years = if chip.isDs323x then 73050 else 36525 := by
  rw [Chip.topYear]
  cases chip.isDs323x with
  | true => exact ⟨4 * 50, rfl, daysBeforeYear_four (by decide) 50⟩
  | false => exact ⟨4 * 25, rfl, daysBeforeYear_four (by decide) 25⟩

theorem carryDays_mod {d : Date} (h : d.Valid 2000 chip.topYear) (days : ℕ) :
    chip.carryDays (days % if chip.isDs323x then 73050 else 36525) d
      (days % if chip.isDs323x then 73050 else 36525) = (nextDay 2000 chip.topYear)^[days] d := by
  rw [carryDays_eq h.day_le h (le_refl _)]
  obtain ⟨years, htop, hperiod⟩ := daysBeforeYear_period chip
  rw [← hperiod]
  rw [htop] at h ⊢
  exact iterate_mod h days

/-- The calendar after some seconds. -/
def Calendar.after (chip : Chip) (c : Calendar) (seconds : ℕ) : Calendar :=
  let minutes := c.minute + (c.second + seconds) / 60
  let hours := c.hour + minutes / 60
  ⟨(nextDay 2000 chip.topYear)^[hours / 24] c.toDate, hours % 24, minutes % 60,
    (c.second + seconds) % 60⟩

/-- The midnights among some seconds. -/
def Calendar.midnights (c : Calendar) (seconds : ℕ) : ℕ :=
  (c.hour + (c.minute + (c.second + seconds) / 60) / 60) / 24

theorem advance_eq (h : chip.decode data = some c) (seconds : ℕ) :
    chip.advance data seconds =
      chip.encode (passDays chip (c.midnights seconds) data) (c.after chip seconds) := by
  rw [Chip.advance, h]
  simp only [carryDays_mod (decode_valid h).date]
  rfl

theorem valid_after (h : c.Valid chip) (seconds : ℕ) : (c.after chip seconds).Valid chip :=
  ⟨valid_iterate h.date _, Nat.mod_lt _ (by decide), Nat.mod_lt _ (by decide),
    Nat.mod_lt _ (by decide)⟩

theorem midnights_add (chip : Chip) (c : Calendar) (a b : ℕ) :
    c.midnights (a + b) = c.midnights a + (c.after chip a).midnights b := by
  simp only [Calendar.midnights, Calendar.after]
  omega

theorem after_add (a b : ℕ) : (c.after chip a).after chip b = c.after chip (a + b) := by
  have hdays : c.midnights (a + b) = c.midnights a + (c.after chip a).midnights b :=
    midnights_add chip c a b
  simp only [Calendar.midnights, Calendar.after] at hdays ⊢
  rw [← Function.iterate_add_apply, Nat.add_comm (_ / 24), ← hdays]
  congr 1 <;> omega

theorem decode_advance (h : chip.decode data = some c) (seconds : ℕ) :
    chip.decode (chip.advance data seconds) = some (c.after chip seconds) := by
  rw [advance_eq h]
  exact decode_encode (valid_after (decode_valid h) seconds)

/-- Seconds carried in two portions. -/
theorem advance_add (a b : ℕ) :
    chip.advance (chip.advance data a) b = chip.advance data (a + b) := by
  cases h : chip.decode data with
  | none =>
    have hnone : ∀ seconds, chip.advance data seconds = data := fun seconds => by
      rw [Chip.advance, h]
    rw [hnone, hnone, hnone]
  | some c =>
    rw [advance_eq (decode_advance h a), advance_eq h, advance_eq h, encode_passDays,
      encode_encode (valid_after (decode_valid h) a), ← encode_passDays, passDays_add, after_add,
      midnights_add chip c a b]

theorem stopped_advance (seconds : ℕ) :
    chip.stopped (chip.advance data seconds) = chip.stopped data := by
  cases h : chip.decode data with
  | none => rw [Chip.advance, h]
  | some c =>
    rw [advance_eq h, stopped_encode (valid_after (decode_valid h) seconds).second,
      stopped_passDays]

end Advance

section Sampling

variable {r r' : Registers}

/-- Two clocks that differ at most in what a latched read holds. -/
structure SameClock (r r' : Registers) : Prop where
  chip : r'.chip = r.chip
  data : r'.data = r.data
  sampledAt : r'.sampledAt = r.sampledAt
  fractionUs : r'.fractionUs = r.fractionUs
  sampled : r'.sampled = r.sampled

theorem SameClock.refl (r : Registers) : SameClock r r := ⟨rfl, rfl, rfl, rfl, rfl⟩

theorem SameClock.trans {r'' : Registers} (h : SameClock r r') (h' : SameClock r' r'') :
    SameClock r r'' :=
  ⟨h'.chip.trans h.chip, h'.data.trans h.data, h'.sampledAt.trans h.sampledAt,
    h'.fractionUs.trans h.fractionUs, h'.sampled.trans h.sampled⟩

theorem SameClock.stopped (h : SameClock r r') : r'.stopped = r.stopped := by
  rw [Registers.stopped, Registers.stopped, h.chip, h.data]

/-- The microseconds that a look at the clock takes in. -/
def Registers.elapsed (r : Registers) (now : ℤ) : ℕ :=
  if r.sampled then (now - r.sampledAt).toNat else 0

/-- The bank and the remainder after some microseconds. -/
def Registers.count (r : Registers) (us : ℕ) : (Byte → Byte) × ℕ :=
  let fraction := r.fractionUs + us
  (if fraction / 1000000 ≠ 0 then r.chip.advance r.data (fraction / 1000000) else r.data,
    fraction % 1000000)

/-- What a look at the clock does. -/
structure Synced (r : Registers) (now : ℤ) (r' : Registers) : Prop where
  chip : r'.chip = r.chip
  sampledAt : r'.sampledAt = now
  sampled : r'.sampled = true
  halted : r.stopped = true → r'.data = r.data ∧ r'.fractionUs = r.fractionUs
  running : r.stopped = false → (r'.data, r'.fractionUs) = r.count (r.elapsed now)

theorem synced_sync (r : Registers) (now : ℤ) : Synced r now (r.sync now) := by
  have hstopped : ({ r with sampled := true, sampledAt := now } : Registers).stopped = r.stopped :=
    rfl
  have helapsed : (if now ≥ (if r.sampled = true then r.sampledAt else now) then
      (now - (if r.sampled = true then r.sampledAt else now)).toNat else 0) = r.elapsed now := by
    rw [Registers.elapsed]
    cases r.sampled with
    | true =>
      rw [if_pos rfl, if_pos rfl]
      split_ifs <;> omega
    | false => simp
  constructor
  all_goals simp only [Registers.sync, hstopped, helapsed]
  · split_ifs <;> rfl
  · split_ifs <;> rfl
  · split_ifs <;> rfl
  · intro hr
    rw [if_pos hr]
    exact ⟨rfl, rfl⟩
  · intro hr
    rw [if_neg (by rw [hr]; exact Bool.false_ne_true)]
    rfl

theorem Synced.stopped {now : ℤ} (h : Synced r now r') : r'.stopped = r.stopped := by
  cases hr : r.stopped with
  | true =>
    rw [Registers.stopped, h.chip, (h.halted hr).1]
    exact hr
  | false =>
    have hdata : r'.data = (r.count (r.elapsed now)).1 := congrArg Prod.fst (h.running hr)
    rw [Registers.stopped, h.chip, hdata, Registers.count]
    split_ifs
    · rw [stopped_advance]
      exact hr
    · exact hr

/-- A look at the clock does not depend on what a latched read holds. -/
theorem SameClock.sync (h : SameClock r r') (now : ℤ) : SameClock (r.sync now) (r'.sync now) := by
  have hs := synced_sync r now
  have hs' := synced_sync r' now
  have hboth : ((r'.sync now).data, (r'.sync now).fractionUs) =
      ((r.sync now).data, (r.sync now).fractionUs) := by
    cases hr : r.stopped with
    | true =>
      obtain ⟨hdata, hfraction⟩ := hs.halted hr
      obtain ⟨hdata', hfraction'⟩ := hs'.halted (h.stopped.trans hr)
      rw [hdata, hdata', hfraction, hfraction', h.data, h.fractionUs]
    | false =>
      rw [hs.running hr, hs'.running (h.stopped.trans hr)]
      rw [Registers.count, Registers.count, Registers.elapsed, Registers.elapsed, h.chip, h.data,
        h.fractionUs, h.sampled, h.sampledAt]
  obtain ⟨hdata, hfraction⟩ := Prod.mk.inj hboth
  exact ⟨(hs'.chip.trans h.chip).trans hs.chip.symm, hdata, hs'.sampledAt.trans hs.sampledAt.symm,
    hfraction, hs'.sampled.trans hs.sampled.symm⟩

/-- Time counted in two portions. -/
theorem count_count {a b : ℕ} (hchip : r'.chip = r.chip)
    (hcount : (r'.data, r'.fractionUs) = r.count a) : r'.count b = r.count (a + b) := by
  obtain ⟨hdata, hfraction⟩ := Prod.mk.inj hcount
  have hseconds : (r.fractionUs + (a + b)) / 1000000 =
      (r.fractionUs + a) / 1000000 + ((r.fractionUs + a) % 1000000 + b) / 1000000 := by omega
  have hremainder : ((r.fractionUs + a) % 1000000 + b) % 1000000 =
      (r.fractionUs + (a + b)) % 1000000 := by omega
  rw [Registers.count, Registers.count, hchip, hdata, hfraction]
  simp only [hseconds, hremainder]
  by_cases ha : (r.fractionUs + a) / 1000000 = 0
  · simp only [ha, ne_eq, not_true_eq_false, if_false, Nat.zero_add]
  by_cases hb : ((r.fractionUs + a) % 1000000 + b) / 1000000 = 0
  · simp only [hb, ha, ne_eq, not_true_eq_false, not_false_eq_true, if_true, if_false, Nat.add_zero]
  · rw [if_pos ha, if_pos hb, if_pos (by omega), advance_add]

/-- A look in between changes nothing. -/
theorem sync_sync (hsampled : r.sampled = true) {between now : ℤ} (hfrom : r.sampledAt ≤ between)
    (hto : between ≤ now) : SameClock (r.sync now) ((r.sync between).sync now) := by
  have hs := synced_sync r now
  have hfirst := synced_sync r between
  have hsecond := synced_sync (r.sync between) now
  have hboth : (((r.sync between).sync now).data, ((r.sync between).sync now).fractionUs) =
      ((r.sync now).data, (r.sync now).fractionUs) := by
    cases hr : r.stopped with
    | true =>
      obtain ⟨hdata, hfraction⟩ := hs.halted hr
      obtain ⟨hdata', hfraction'⟩ := hfirst.halted hr
      obtain ⟨hdata'', hfraction''⟩ := hsecond.halted (hfirst.stopped.trans hr)
      rw [hdata'', hfraction'', hdata', hfraction', hdata, hfraction]
    | false =>
      rw [hs.running hr, hsecond.running (hfirst.stopped.trans hr),
        count_count hfirst.chip (hfirst.running hr)]
      have helapsed : r.elapsed between + (r.sync between).elapsed now = r.elapsed now := by
        rw [Registers.elapsed, Registers.elapsed, Registers.elapsed, hsampled, hfirst.sampled,
          hfirst.sampledAt, if_pos rfl, if_pos rfl, if_pos rfl]
        omega
      rw [helapsed]
  obtain ⟨hdata, hfraction⟩ := Prod.mk.inj hboth
  exact ⟨(hsecond.chip.trans hfirst.chip).trans hs.chip.symm, hdata,
    hsecond.sampledAt.trans hs.sampledAt.symm, hfraction, hsecond.sampled.trans hs.sampled.symm⟩

end Sampling

section Accesses

variable {r r' : Registers}

def Registers.observeAll : Registers → List (ℤ × Access) → Registers
  | r, [] => r
  | r, (now, a) :: accesses => (r.observe now a).observeAll accesses

/-- Times that do not go back. -/
def Forward (times : List ℤ) : Prop := times.Pairwise (· ≤ ·)

/-- An access looks at the clock, or ends a latched read. -/
theorem observe_cases (r : Registers) (now : ℤ) (a : Access) :
    SameClock r (r.observe now a) ∨ SameClock (r.sync now) (r.observe now a) := by
  cases a with
  | endRead => exact .inl ⟨rfl, rfl, rfl, rfl, rfl⟩
  | sync => exact .inr (.refl _)
  | beginRead => exact .inr ⟨rfl, rfl, rfl, rfl, rfl⟩
  | read address => exact .inr (.refl _)

theorem observe_stopped (r : Registers) (now : ℤ) (a : Access) :
    (r.observe now a).stopped = r.stopped := by
  rcases observe_cases r now a with h | h
  · exact h.stopped
  · exact h.stopped.trans (synced_sync r now).stopped

/-- However often a clock was looked at, one more look finds it as one look would have. -/
theorem observeAll_sync {accesses : List (ℤ × Access)} {now : ℤ} (hsampled : r.sampled = true)
    (htimes : Forward (r.sampledAt :: accesses.map Prod.fst ++ [now])) :
    SameClock (r.sync now) ((r.observeAll accesses).sync now) := by
  induction accesses generalizing r with
  | nil => exact .refl _
  | cons access accesses ih =>
    obtain ⟨between, a⟩ := access
    simp only [Forward, List.map_cons, List.cons_append, List.pairwise_cons] at htimes
    obtain ⟨hfrom, hbetween, hrest⟩ := htimes
    have hto : between ≤ now := hbetween now (by simp)
    rcases observe_cases r between a with h | h
    · have hlater : Forward ((r.observe between a).sampledAt :: accesses.map Prod.fst ++ [now]) := by
        rw [h.sampledAt]
        exact List.pairwise_cons.mpr ⟨fun t ht => hfrom t (List.mem_cons_of_mem _ ht), hrest⟩
      exact (h.sync now).trans (ih (h.sampled.trans hsampled) hlater)
    · have hs := synced_sync r between
      have hlater : Forward ((r.observe between a).sampledAt :: accesses.map Prod.fst ++ [now]) := by
        rw [h.sampledAt, hs.sampledAt]
        exact List.pairwise_cons.mpr ⟨hbetween, hrest⟩
      have honce := sync_sync hsampled (hfrom between List.mem_cons_self) hto
      exact (honce.trans (h.sync now)).trans (ih (h.sampled.trans hs.sampled) hlater)

/-- A halted clock stays as it is. -/
theorem observeAll_stopped (hr : r.stopped = true) (accesses : List (ℤ × Access)) :
    (r.observeAll accesses).data = r.data ∧ (r.observeAll accesses).fractionUs = r.fractionUs := by
  induction accesses generalizing r with
  | nil => exact ⟨rfl, rfl⟩
  | cons access accesses ih =>
    obtain ⟨now, a⟩ := access
    obtain ⟨hdata, hfraction⟩ := ih ((observe_stopped r now a).trans hr)
    rw [Registers.observeAll, hdata, hfraction]
    rcases observe_cases r now a with h | h
    · exact ⟨h.data, h.fractionUs⟩
    · obtain ⟨hdata', hfraction'⟩ := (synced_sync r now).halted hr
      exact ⟨h.data.trans hdata', h.fractionUs.trans hfraction'⟩

theorem SameClock.count (h : SameClock r r') (us : ℕ) : r'.count us = r.count us := by
  rw [Registers.count, Registers.count, h.chip, h.data, h.fractionUs]

theorem SameClock.pair (h : SameClock r r') :
    (r'.data, r'.fractionUs) = (r.data, r.fractionUs) := by
  rw [h.data, h.fractionUs]

/-- A running clock counts from when it was last looked at, or is first looked at. -/
theorem observeAll_count {accesses : List (ℤ × Access)} {origin now : ℤ} (hr : r.stopped = false)
    (hsampled : r.sampled = true → r.sampledAt = origin)
    (htimes : Forward (origin :: accesses.map Prod.fst ++ [now])) :
    ∃ since, origin ≤ since ∧ since ≤ now ∧ (r.sampled = true → since = origin) ∧
      (((r.observeAll accesses).sync now).data, ((r.observeAll accesses).sync now).fractionUs) =
        r.count (now - since).toNat := by
  have hnow : origin ≤ now := (List.pairwise_cons.mp htimes).1 now (by simp)
  cases hs : r.sampled with
  | true =>
    have hsame := observeAll_sync hs (by rw [hsampled hs]; exact htimes)
    refine ⟨origin, le_refl _, hnow, fun _ => rfl, ?_⟩
    rw [hsame.pair, (synced_sync r now).running hr, Registers.elapsed, if_pos hs, hsampled hs]
  | false =>
    induction accesses generalizing r with
    | nil =>
      refine ⟨now, hnow, le_refl _, fun h => absurd h Bool.false_ne_true, ?_⟩
      rw [Registers.observeAll, (synced_sync r now).running hr, Registers.elapsed, hs,
        if_neg Bool.false_ne_true, Int.sub_self]
      rfl
    | cons access accesses ih =>
      obtain ⟨between, a⟩ := access
      simp only [Forward, List.map_cons, List.cons_append, List.pairwise_cons] at htimes
      obtain ⟨hfrom, hbetween, hrest⟩ := htimes
      have hto : between ≤ now := hbetween now (by simp)
      rcases observe_cases r between a with h | h
      · have hunsampled : (r.observe between a).sampled = false := h.sampled.trans hs
        obtain ⟨since, hge, hle, -, hcount⟩ := ih (h.stopped.trans hr)
          (fun hs' => absurd hs' (by rw [hunsampled]; exact Bool.false_ne_true))
          (List.pairwise_cons.mpr ⟨fun t ht => hfrom t (List.mem_cons_of_mem _ ht), hrest⟩)
          hunsampled
        refine ⟨since, hge, hle, fun h => absurd h Bool.false_ne_true, ?_⟩
        rw [Registers.observeAll, hcount, h.count]
      · have hfirst := synced_sync r between
        have hlater : Forward ((r.observe between a).sampledAt :: accesses.map Prod.fst ++ [now]) := by
          rw [h.sampledAt, hfirst.sampledAt]
          exact List.pairwise_cons.mpr ⟨hbetween, hrest⟩
        have hsame := observeAll_sync (h.sampled.trans hfirst.sampled) hlater
        have hrunning : (r.observe between a).stopped = false :=
          (h.stopped.trans hfirst.stopped).trans hr
        refine ⟨between, hfrom between List.mem_cons_self, hto,
          fun h => absurd h Bool.false_ne_true, ?_⟩
        rw [Registers.observeAll, hsame.pair, (synced_sync _ now).running hrunning, h.count,
          Registers.elapsed, h.sampled, hfirst.sampled, if_pos rfl, h.sampledAt, hfirst.sampledAt,
          count_count hfirst.chip (hfirst.running hr), Registers.elapsed, hs,
          if_neg Bool.false_ne_true, Nat.zero_add]

end Accesses

section Operations

variable {r : Registers}

/-- The registers that halt a clock. -/
def isControl (chip : Chip) (address : Byte) : Bool :=
  if chip = .rv8803 then address = 0x0f else address = 0

theorem stopped_update {chip : Chip} {data : Byte → Byte} {address value : Byte}
    (h : isControl chip address = false) :
    chip.stopped (Function.update data address value) = chip.stopped data := by
  have hsame : ∀ {control : Byte}, address ≠ control →
      Function.update data address value control = data control :=
    fun hne => Function.update_of_ne hne.symm _ _
  cases chip
  case ds1307 =>
    rw [Chip.stopped, Chip.stopped, hsame (of_decide_eq_false h)]
  case pcf8523 =>
    rw [Chip.stopped, Chip.stopped, hsame (of_decide_eq_false h)]
  case rv8803 =>
    rw [Chip.stopped, Chip.stopped, hsame (of_decide_eq_false h)]
  all_goals rfl

theorem stopped_set {address value : Byte} (h : isControl r.chip address = false) :
    (r.set address value).stopped = r.stopped := stopped_update h

@[simp] theorem set_fields (address value : Byte) :
    (r.set address value).chip = r.chip ∧ (r.set address value).fractionUs = r.fractionUs ∧
    (r.set address value).sampledAt = r.sampledAt ∧ (r.set address value).sampled = r.sampled :=
  ⟨rfl, rfl, rfl, rfl⟩

/-- Only a DS1307 is halted by a loss of time. -/
theorem simulateTimeLoss_fields (r : Registers) :
    r.simulateTimeLoss.chip = r.chip ∧ r.simulateTimeLoss.fractionUs = r.fractionUs ∧
    r.simulateTimeLoss.sampled = r.sampled ∧
    (r.chip ≠ .ds1307 → r.simulateTimeLoss.stopped = r.stopped) ∧
    (r.stopped = true → r.simulateTimeLoss.stopped = true) := by
  have hkept : ∀ {r : Registers} {address value : Byte}, isControl r.chip address = false →
      (r.chip ≠ .ds1307 → (r.set address value).stopped = r.stopped) ∧
      (r.stopped = true → (r.set address value).stopped = true) :=
    fun h => ⟨fun _ => stopped_set h, fun hr => (stopped_set h).trans hr⟩
  obtain ⟨chip, data, snapshot, sampledAt, fractionUs, sampled, reading⟩ := r
  cases chip
  case ds1307 =>
    refine ⟨rfl, rfl, rfl, fun h => absurd rfl h, fun _ => ?_⟩
    have hall : ∀ value : Byte, decide ((value ||| 0x80) &&& 0x80 ≠ 0) = true := by decide
    exact hall (data 0)
  all_goals exact ⟨rfl, rfl, rfl, hkept rfl⟩

theorem setTemperature_fields (r : Registers) (celsius : ℚ) :
    (r.setTemperature celsius).chip = r.chip ∧
    (r.setTemperature celsius).fractionUs = r.fractionUs ∧
    (r.setTemperature celsius).sampled = r.sampled ∧
    (r.setTemperature celsius).stopped = r.stopped := by
  refine ⟨rfl, rfl, rfl, ?_⟩
  rw [Registers.setTemperature]
  have hcontrol : ∀ chip, isControl chip 0x11 = false ∧ isControl chip 0x12 = false := by
    rintro (_ | _ | _ | _ | _ | _ | _) <;> exact ⟨rfl, rfl⟩
  rw [stopped_set, stopped_set]
  · exact (hcontrol _).1
  · exact (hcontrol _).2

theorem reset_fields (r : Registers) :
    r.reset.chip = r.chip ∧ r.reset.fractionUs = 0 ∧ r.reset.sampled = false := by
  obtain ⟨chip, data, snapshot, sampledAt, fractionUs, sampled, reading⟩ := r
  cases chip <;> exact ⟨rfl, rfl, rfl⟩

/-- What a write leaves of the remainder: nothing, or what there was, and then the clock is
halted as it was before or has been started by a control of its own. -/
def Leaves (r r' : Registers) : Prop :=
  r'.fractionUs = 0 ∨ r'.fractionUs = r.fractionUs ∧
    (r'.stopped = r.stopped ∨ r'.stopped = false ∧ r.chip ≠ .ds1307)

theorem leaves_set {address value : Byte} (h : isControl r.chip address = false) :
    Leaves r (r.set address value) := .inr ⟨rfl, .inl (stopped_set h)⟩

theorem leaves_writeControl2 (hchip : r.chip = .rv3028) (address value : Byte) :
    Leaves r (r.writeControl2 address value) := by
  have hrunning : ∀ r : Registers, r.chip = .rv3028 → r.stopped = false := by
    intro r hchip
    rw [Registers.stopped, hchip]
    rfl
  have hencoded : ∃ s : Registers, s.chip = r.chip ∧ s.fractionUs = r.fractionUs ∧
      r.writeControl2 address value = if value &&& 1 ≠ 0 then { s with fractionUs := 0 } else s := by
    refine ⟨_, ?_, ?_, rfl⟩
    · cases r.chip.decode r.data with
      | none => rfl
      | some c =>
        simp only
        split_ifs <;> rfl
    · cases r.chip.decode r.data with
      | none => rfl
      | some c =>
        simp only
        split_ifs <;> rfl
  obtain ⟨s, hsame, hfraction, heq⟩ := hencoded
  rw [heq]
  split_ifs
  · exact .inl rfl
  · refine .inr ⟨hfraction, .inl ?_⟩
    rw [hrunning r hchip, hrunning s (hsame.trans hchip)]

theorem leaves_writePlain (address value : Byte) : Leaves r (r.writePlain address value) := by
  rw [Registers.writePlain]
  generalize (if r.chip = .rv8803 && address = 0x0f then value &&& 0x3d else value) = value
  by_cases hclear : (address = (r.set address value).chip.timeBase ||
      (r.set address value).stopped) = true
  · rw [if_pos hclear]
    exact .inl rfl
  · rw [if_neg hclear]
    simp only [Bool.or_eq_true, decide_eq_true_eq, not_or, Bool.not_eq_true] at hclear
    obtain ⟨hbase, hrunning⟩ := hclear
    by_cases hchip : r.chip = .ds1307
    · apply leaves_set
      have hne : address ≠ 0 := by
        intro h
        apply hbase
        rw [h]
        change (0 : Byte) = r.chip.timeBase
        rw [hchip]
        rfl
      rw [hchip]
      exact decide_eq_false hne
    · exact .inr ⟨rfl, .inr ⟨hrunning, hchip⟩⟩

/-- The branches of a write, behind its look at the clock. -/
inductive WriteEffect (s r' : Registers) : Prop
  | control (address value : Byte) (h : isControl s.chip address = false)
      (heq : r' = s.set address value)
  | ignored (heq : r' = s)
  | reset (heq : r' = s.reset)
  | mode (address value : Byte) (hchip : s.chip = .rv3028) (heq : r' = s.writeControl2 address value)
  | plain (address value : Byte) (heq : r' = s.writePlain address value)

theorem write_effect (r : Registers) (now : ℤ) (address value : Byte) :
    WriteEffect (r.sync now) (r.write now address value) := by
  rw [Registers.write]
  generalize r.sync now = r
  generalize r.chip.canonicalAddress address = address
  simp only
  by_cases hstatus : (r.chip.isDs323x && decide (address = 0x0f) ||
      (decide (r.chip = .rv3028) || decide (r.chip = .rv8803)) && decide (address = 0x0e)) = true
  · rw [if_pos hstatus]
    refine .control address _ ?_ rfl
    simp only [Bool.or_eq_true, Bool.and_eq_true, decide_eq_true_eq] at hstatus
    rcases hstatus with ⟨hds, rfl⟩ | ⟨-, rfl⟩
    · cases hchip : r.chip <;> rw [hchip] at hds <;> first | rfl | cases hds
    · cases hchip : r.chip <;> rfl
  rw [if_neg hstatus]
  by_cases hpcf : (decide (r.chip = .pcf8523) && decide (address = 2)) = true
  · rw [if_pos hpcf]
    refine .control address _ ?_ rfl
    simp only [Bool.and_eq_true, decide_eq_true_eq] at hpcf
    obtain ⟨hchip, rfl⟩ := hpcf
    rw [hchip]
    rfl
  rw [if_neg hpcf]
  by_cases htemperature :
      (r.chip.isDs323x && (decide (address = 0x11) || decide (address = 0x12))) = true
  · rw [if_pos htemperature]
    exact .ignored rfl
  rw [if_neg htemperature]
  by_cases hreset :
      (decide (r.chip = .pcf8523) && decide (address = 0) && decide (value = 0x58)) = true
  · rw [if_pos hreset]
    exact .reset rfl
  rw [if_neg hreset]
  by_cases hmode : (decide (r.chip = .rv3028) && decide (address = 0x10)) = true
  · rw [if_pos hmode]
    exact .mode address _ (of_decide_eq_true (Bool.and_eq_true_iff.mp hmode).1) rfl
  · rw [if_neg hmode]
    exact .plain address _ rfl

theorem leaves_write (r : Registers) (now : ℤ) (address value : Byte) :
    Leaves (r.sync now) (r.write now address value) := by
  cases write_effect r now address value with
  | control address value h heq => exact heq ▸ leaves_set h
  | ignored heq => exact .inr ⟨congrArg _ heq, .inl (congrArg _ heq)⟩
  | reset heq => exact .inl (heq ▸ (reset_fields _).2.1)
  | mode address value hchip heq => exact heq ▸ leaves_writeControl2 hchip address value
  | plain address value heq => exact heq ▸ leaves_writePlain address value

theorem writeControl2_fields (address value : Byte) :
    (r.writeControl2 address value).chip = r.chip ∧
      (r.writeControl2 address value).sampledAt = r.sampledAt := by
  rw [Registers.writeControl2]
  cases r.chip.decode r.data with
  | none => cases hvalue : decide (value &&& 1 ≠ 0) <;> simp_all
  | some c =>
    simp only
    split_ifs <;> exact ⟨rfl, rfl⟩

theorem writePlain_fields (address value : Byte) :
    (r.writePlain address value).chip = r.chip ∧
      (r.writePlain address value).sampledAt = r.sampledAt := by
  rw [Registers.writePlain]
  generalize (if r.chip = .rv8803 && address = 0x0f then value &&& 0x3d else value) = value
  split_ifs <;> exact ⟨rfl, rfl⟩

/-- A write looks at the clock, and only a reset forgets that it did. -/
theorem write_sampled (r : Registers) (now : ℤ) (address value : Byte) :
    (r.write now address value).chip = r.chip ∧
      ((r.write now address value).sampled = true →
        (r.write now address value).sampledAt = now) := by
  have hs := synced_sync r now
  have hplain : ∀ s : Registers, s.chip = (r.sync now).chip →
      s.sampledAt = (r.sync now).sampledAt →
      s.chip = r.chip ∧ (s.sampled = true → s.sampledAt = now) :=
    fun s hchip hat => ⟨hchip.trans hs.chip, fun _ => hat.trans hs.sampledAt⟩
  cases write_effect r now address value with
  | control address value h heq => exact heq ▸ hplain _ rfl rfl
  | ignored heq => exact heq ▸ hplain _ rfl rfl
  | reset heq =>
    obtain ⟨hchip, -, hsampled⟩ := reset_fields (r.sync now)
    rw [heq]
    refine ⟨hchip.trans hs.chip, fun h => ?_⟩
    rw [hsampled] at h
    cases h
  | mode address value hchip heq =>
    obtain ⟨hchip', hat⟩ := writeControl2_fields (r := r.sync now) address value
    exact heq ▸ hplain _ hchip' hat
  | plain address value heq =>
    obtain ⟨hchip', hat⟩ := writePlain_fields (r := r.sync now) address value
    exact heq ▸ hplain _ hchip' hat

end Operations

section Runs

variable {r r' : Registers}

/-- An operation at a time. -/
def step (r : Registers) (o : ℤ × Operation) : Option Registers := some (r.apply o.1 o.2)

/-- Fault data is not what halts or starts the clock. -/
def Undisturbed (r : Registers) : ℤ × Operation → Prop
  | (now, .injectRegister address value) =>
    (r.injectRegister now address value).stopped = r.stopped
  | _ => True

/-- A halted clock holds no remainder, or loses it when it is started. -/
def Quiet (r : Registers) : Prop := r.stopped = true → r.chip = .ds1307 ∨ r.fractionUs = 0

theorem Quiet.sync (h : Quiet r) (now : ℤ) : Quiet (r.sync now) := by
  have hs := synced_sync r now
  intro hstopped
  have hr := hs.stopped.symm.trans hstopped
  rw [hs.chip, (hs.halted hr).2]
  exact h hr

theorem Quiet.of_same (h : Quiet r) (hsame : SameClock r r') : Quiet r' := by
  intro hstopped
  rw [hsame.chip, hsame.fractionUs]
  exact h (hsame.stopped.symm.trans hstopped)

theorem quiet_step : PreservesWhen step Undisturbed Quiet := by
  rintro r ⟨now, op⟩ r' hok hstep h
  obtain rfl := Option.some.inj hstep
  cases op with
  | access a =>
    rcases observe_cases r now a with hsame | hsame
    · exact h.of_same hsame
    · exact (h.sync now).of_same hsame
  | reset => exact fun _ => .inr (reset_fields r).2.1
  | simulateTimeLoss =>
    obtain ⟨hchip, hfraction, -, hkept, -⟩ := simulateTimeLoss_fields r
    intro hstopped
    by_cases hds : r.chip = .ds1307
    · exact .inl (hchip.trans hds)
    · have hr : r.stopped = true := (hkept hds).symm.trans hstopped
      exact .inr (hfraction.trans ((h hr).resolve_left hds))
  | write address value =>
    intro hstopped
    rcases leaves_write r now address value with hzero | ⟨hfraction, hsame | ⟨hrunning, -⟩⟩
    · exact .inr hzero
    · have hsync := h.sync now (hsame.symm.trans hstopped)
      rw [(synced_sync r now).chip] at hsync
      exact hsync.imp ((write_sampled r now address value).1.trans ·) (hfraction.trans ·)
    · exact absurd (hstopped.symm.trans hrunning) Bool.noConfusion
  | injectRegister address value =>
    intro hstopped
    have hr : r.stopped = true := Eq.symm hok |>.trans hstopped
    exact h.sync now ((synced_sync r now).stopped.trans hr)
  | setTemperature celsius =>
    obtain ⟨hchip, hfraction, -, hsame⟩ := setTemperature_fields r celsius
    intro hstopped
    exact (h (hsame.symm.trans hstopped)).imp (hchip.trans ·) (hfraction.trans ·)

/-- A halted clock that is started has no remainder. -/
theorem restart_fraction (h : Quiet r) (hr : r.stopped = true) {now : ℤ} {op : Operation}
    (hok : Undisturbed r (now, op)) (hrunning : (r.apply now op).stopped = false) :
    (r.apply now op).fractionUs = 0 := by
  have hnot : ∀ {r' : Registers}, r'.stopped = false → r'.stopped = r.stopped → False :=
    fun hrun hsame => Bool.noConfusion (hrun.symm.trans (hsame.trans hr))
  cases op with
  | access a => exact (hnot hrunning (observe_stopped r now a)).elim
  | reset => exact (reset_fields r).2.1
  | simulateTimeLoss =>
    have hstays := (simulateTimeLoss_fields r).2.2.2.2 hr
    exact (hnot hrunning (hstays.trans hr.symm)).elim
  | write address value =>
    have hs := synced_sync r now
    rcases leaves_write r now address value with hzero | ⟨hfraction, hsame | ⟨-, hchip⟩⟩
    · exact hzero
    · exact (hnot hrunning (hsame.trans hs.stopped)).elim
    · rw [hs.chip] at hchip
      exact (hfraction.trans (hs.halted hr).2).trans ((h hr).resolve_left hchip)
  | injectRegister address value => exact (hnot hrunning hok).elim
  | setTemperature celsius => exact (hnot hrunning (setTemperature_fields r celsius).2.2.2).elim

/-- The clock that was started was looked at then, or has not been looked at yet. -/
theorem restart_sampled (hr : r.stopped = true) {now : ℤ} {op : Operation}
    (hrunning : (r.apply now op).stopped = false) (hsampled : (r.apply now op).sampled = true) :
    (r.apply now op).sampledAt = now := by
  have hnot : ∀ {r' : Registers}, r'.stopped = false → r'.stopped = r.stopped → False :=
    fun hrun hsame => Bool.noConfusion (hrun.symm.trans (hsame.trans hr))
  cases op with
  | access a => exact (hnot hrunning (observe_stopped r now a)).elim
  | reset =>
    change r.reset.sampled = true at hsampled
    rw [(reset_fields r).2.2] at hsampled
    cases hsampled
  | simulateTimeLoss =>
    have hstays := (simulateTimeLoss_fields r).2.2.2.2 hr
    exact (hnot hrunning (hstays.trans hr.symm)).elim
  | write address value => exact (write_sampled r now address value).2 hsampled
  | injectRegister address value => exact (synced_sync r now).sampledAt
  | setTemperature celsius => exact (hnot hrunning (setTemperature_fields r celsius).2.2.2).elim

theorem powerOn_quiet (chip : Chip) : Quiet (powerOn chip) := fun _ => .inr (reset_fields _).2.1

end Runs

/-- A running clock that was looked at once ends with the same registers and the same remainder
however often it is looked at on the way. A halted clock keeps both. A halted clock that is
started counts the microseconds from then on (or, after a reset, from when it is first looked
at), and in every run in which no fault data halts or starts the clock it counts them from a
remainder of zero. -/
theorem observation_invariant (r : Registers) :
    (r.sampled = true → ∀ accesses now,
      Forward (r.sampledAt :: accesses.map Prod.fst ++ [now]) →
      ((r.observeAll accesses).sync now).data = (r.sync now).data ∧
      ((r.observeAll accesses).sync now).fractionUs = (r.sync now).fractionUs) ∧
    (r.stopped = true → ∀ accesses,
      (r.observeAll accesses).data = r.data ∧
      (r.observeAll accesses).fractionUs = r.fractionUs) ∧
    ∀ restart op, r.stopped = true → (r.apply restart op).stopped = false →
      (∀ accesses now, Forward (restart :: accesses.map Prod.fst ++ [now]) →
        ∃ since, restart ≤ since ∧ since ≤ now ∧
          ((r.apply restart op).sampled = true → since = restart) ∧
          ((((r.apply restart op).observeAll accesses).sync now).data,
            (((r.apply restart op).observeAll accesses).sync now).fractionUs) =
            (r.apply restart op).count (now - since).toNat) ∧
      ∀ chip ops, run step (powerOn chip) ops = some r →
        Meets step Undisturbed (powerOn chip) ops → Undisturbed r (restart, op) →
        (r.apply restart op).fractionUs = 0 := by
  refine ⟨?_, ?_, ?_⟩
  · intro hsampled accesses now htimes
    have hsame := observeAll_sync hsampled htimes
    exact ⟨hsame.data, hsame.fractionUs⟩
  · intro hr accesses
    exact observeAll_stopped hr accesses
  · intro restart op hr hrunning
    refine ⟨fun accesses now htimes => ?_, ?_⟩
    · exact observeAll_count hrunning (fun hs => restart_sampled hr hrunning hs) htimes
    · intro chip ops hrun hmeets hok
      exact restart_fraction (quiet_step.run hmeets hrun (powerOn_quiet chip)) hr hok hrunning

/-- A new DS1307 is halted. Started at second 5, it shows second 2 at second 7.5. -/
theorem observation_invariant_ds1307 :
    (((powerOn .ds1307).apply 5000000 (.write 0 0)).sync 7500000).data 0 = 2 ∧
      (((powerOn .ds1307).apply 5000000 (.write 0 0)).sync 7500000).fractionUs = 500000 := by
  have hstopped : (powerOn .ds1307).stopped = true := by decide +kernel
  have hrunning : ((powerOn .ds1307).apply 5000000 (.write 0 0)).stopped = false := by
    decide +kernel
  have hsampled : ((powerOn .ds1307).apply 5000000 (.write 0 0)).sampled = true := by
    decide +kernel
  have hcount : (((powerOn .ds1307).apply 5000000 (.write 0 0)).count 2500000).1 0 = 2 ∧
      (((powerOn .ds1307).apply 5000000 (.write 0 0)).count 2500000).2 = 500000 := by
    decide +kernel
  obtain ⟨-, -, hrestart⟩ := observation_invariant (powerOn .ds1307)
  obtain ⟨hcounted, -⟩ := hrestart 5000000 (.write 0 0) hstopped hrunning
  obtain ⟨since, -, -, hsince, hpair⟩ := hcounted [] 7500000 (by simp [Forward])
  have helapsed : (7500000 - since).toNat = 2500000 := by rw [hsince hsampled]; rfl
  rw [helapsed] at hpair
  rw [Registers.observeAll] at hpair
  rw [← hpair] at hcount
  exact hcount

end RooTesting.Rtc
