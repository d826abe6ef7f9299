import RooTesting.RtcClock

/-! # Bursts of reads

The I2C adapter and the SPI chip read one register after the other while the clock runs. What they
return of the calendar is what was captured at the last snapshot. -/
namespace RooTesting.Rtc
open LeapCalendar

/-- When a register is read, and when the calendar is captured behind it. -/
structure Moment where
  now : ℤ
  wrap : ℤ
  deriving DecidableEq

structure I2cRtc where
  registers : Registers
  address : Byte

namespace I2cRtc

/-- The first byte selects a register; `none` is a missing acknowledgement. -/
def write (rtc : I2cRtc) : List (ℤ × Byte) → Option I2cRtc
  | [] => none
  | (_, address) :: data =>
    if address.toNat ≥ rtc.registers.chip.size then none
    else some (data.foldl (fun rtc byte =>
      { registers := rtc.registers.write byte.1 rtc.address byte.2
        address := rtc.registers.chip.nextAddress rtc.address }) { rtc with address })

def readLoop : List Moment → I2cRtc → List Byte × I2cRtc
  | [], rtc => ([], rtc)
  | m :: ms, rtc =>
    let (registers, byte) := rtc.registers.read m.now rtc.address
    let address := registers.chip.nextAddress rtc.address
    let registers := if address = 0 then registers.beginRead m.wrap else registers
    let (bytes, rtc) := readLoop ms { registers, address }
    (byte :: bytes, rtc)

/-- A read transaction that starts at a time and reads a byte at every moment. -/
def read (rtc : I2cRtc) (start : ℤ) (ms : List Moment) : Option (List Byte × I2cRtc) :=
  if ms = [] then none
  else
    let (bytes, rtc) := readLoop ms { rtc with registers := rtc.registers.beginRead start }
    some (bytes, { rtc with registers := rtc.registers.endRead })

end I2cRtc

inductive SpiDataMode where
  | mode0 | mode1 | mode2 | mode3
  deriving DecidableEq

structure SpiInterface where
  clkHz : ℕ
  dataMode : SpiDataMode
  msbFirst : Bool

structure Ds3234 where
  registers : Registers
  needCommand : Bool
  writing : Bool
  frameValid : Bool
  protocolError : Bool
  address : Byte
  selected : Bool

namespace Ds3234

def onChipSelect (rtc : Ds3234) (now : ℤ) (selected : Bool) : Ds3234 :=
  { rtc with
    registers := if selected then rtc.registers.beginRead now else rtc.registers.endRead
    needCommand := true
    frameValid := true }

/-- The level of the chip select, low where the chip is selected. -/
def updateChipSelect (rtc : Ds3234) (now : ℤ) (low : Bool) : Ds3234 :=
  if low = rtc.selected then rtc else { rtc with selected := low }.onChipSelect now low

def takeCommand (rtc : Ds3234) (incoming : Byte) : Ds3234 × Byte :=
  let rtc := { rtc with
    writing := incoming &&& 0x80 ≠ 0
    address := incoming &&& 0x7f
    needCommand := false }
  if rtc.address.toNat ≥ rtc.registers.chip.size then
    ({ rtc with protocolError := true, frameValid := false }, 0xff)
  else (rtc, 0)

def exchange (rtc : Ds3234) (incoming : Byte) (m : Moment) : Ds3234 × Byte :=
  let (registers, byte) :=
    if rtc.writing then (rtc.registers.write m.now rtc.address incoming, 0)
    else rtc.registers.read m.now rtc.address
  let address := registers.chip.nextAddress rtc.address
  let registers := if address = 0 && !rtc.writing then registers.beginRead m.wrap else registers
  ({ rtc with registers, address }, byte)

/-- One turn of the loop over the bytes of a transfer. -/
def turn (rtc : Ds3234) (incoming : Byte) (m : Moment) : Ds3234 × Byte :=
  if !rtc.frameValid then (rtc, 0xff)
  else if rtc.needCommand then rtc.takeCommand incoming
  else rtc.exchange incoming m

def turns : List (Byte × Moment) → Ds3234 → List Byte × Ds3234
  | [], rtc => ([], rtc)
  | (incoming, m) :: rest, rtc =>
    let (rtc, byte) := rtc.turn incoming m
    let (bytes, rtc) := turns rest rtc
    (byte :: bytes, rtc)

def accepts (spi : SpiInterface) (bits : ℕ) : Bool :=
  bits % 8 = 0 && spi.msbFirst && (spi.dataMode = .mode1 || spi.dataMode = .mode3) &&
    spi.clkHz ≠ 0 && spi.clkHz ≤ 4000000

/-- A transfer of some bits over as many bytes as they take. -/
def transfer (rtc : Ds3234) (spi : SpiInterface) (bits : ℕ) (data : List (Byte × Moment)) :
    List Byte × Ds3234 :=
  if bits = 0 then (data.map Prod.fst, rtc)
  else
    let data := data.take ((bits + 7) / 8)
    if !rtc.selected then (data.map fun _ => 0xff, rtc)
    else if accepts spi bits then turns data rtc
    else turns data { rtc with protocolError := true, frameValid := false }

/-- The transfers of a frame, each of whole bytes. -/
def transfers : List (SpiInterface × List (Byte × Moment)) → Ds3234 → List Byte × Ds3234
  | [], rtc => ([], rtc)
  | (spi, data) :: rest, rtc =>
    let (bytes, rtc) := rtc.transfer spi (8 * data.length) data
    let (more, rtc) := transfers rest rtc
    (bytes ++ more, rtc)

end Ds3234

theorem nextAddress_lt (chip : Chip) (address : Byte) :
    (chip.nextAddress address).toNat < chip.size := by
  have hsize : 0 < chip.size ∧ chip.size ≤ 2 ^ 8 := by cases chip <;> decide
  have hmod := Nat.mod_lt (address.toNat + 1) hsize.1
  rw [Chip.nextAddress, BitVec.toNat_ofNat, Nat.mod_eq_of_lt (hmod.trans_le hsize.2)]
  exact hmod

namespace I2cRtc

/-- The bytes of a write move the address within the registers of the chip. -/
theorem foldl_address (data : List (ℤ × Byte)) {rtc : I2cRtc}
    (h : rtc.address.toNat < rtc.registers.chip.size) :
    let rtc' := data.foldl (fun (rtc : I2cRtc) byte =>
      { registers := rtc.registers.write byte.1 rtc.address byte.2
        address := rtc.registers.chip.nextAddress rtc.address }) rtc
    rtc'.registers.chip = rtc.registers.chip ∧ rtc'.address.toNat < rtc.registers.chip.size := by
  induction data generalizing rtc with
  | nil => exact ⟨rfl, h⟩
  | cons byte data ih =>
    have hchip := (write_sampled rtc.registers byte.1 rtc.address byte.2).1
    have hrest := @ih ⟨rtc.registers.write byte.1 rtc.address byte.2,
      rtc.registers.chip.nextAddress rtc.address⟩ (by rw [hchip]; exact nextAddress_lt _ _)
    rwa [hchip] at hrest

theorem write_address {rtc rtc' : I2cRtc} {bytes : List (ℤ × Byte)}
    (h : rtc.write bytes = some rtc') :
    rtc'.registers.chip = rtc.registers.chip ∧ rtc'.address.toNat < rtc.registers.chip.size := by
  cases bytes with
  | nil => cases h
  | cons first data =>
    rw [write] at h
    split at h
    · cases h
    rename_i hlt
    obtain rfl := Option.some.inj h
    exact @foldl_address data { rtc with address := first.2 } (not_le.mp hlt)

/-- A write goes on where another one has ended, as if the two had been one. -/
theorem write_append {rtc rtc' : I2cRtc} {bytes : List (ℤ × Byte)}
    (h : rtc.write bytes = some rtc') (time : ℤ) (later : List (ℤ × Byte)) :
    rtc'.write ((time, rtc'.address) :: later) = rtc.write (bytes ++ later) := by
  obtain ⟨hchip, haddress⟩ := write_address h
  have hlater : ¬rtc'.address.toNat ≥ rtc'.registers.chip.size := by
    rw [hchip]
    exact not_le.mpr haddress
  cases bytes with
  | nil => cases h
  | cons first data =>
    rw [List.cons_append, write, if_neg hlater]
    rw [write] at h ⊢
    split at h
    · cases h
    rename_i hlt
    obtain rfl := Option.some.inj h
    rw [if_neg hlt, List.foldl_append]

end I2cRtc

/-- The registers are read from an address on, and captured again at register 0. -/
def Registers.burst : List Moment → Registers → Byte → List Byte × Registers × Byte
  | [], r, address => ([], r, address)
  | m :: ms, r, address =>
    let (r, byte) := r.read m.now address
    let address := r.chip.nextAddress address
    let (bytes, r, address) := Registers.burst ms (if address = 0 then r.beginRead m.wrap else r) address
    (byte :: bytes, r, address)

theorem readLoop_burst (ms : List Moment) (rtc : I2cRtc) :
    I2cRtc.readLoop ms rtc = ((Registers.burst ms rtc.registers rtc.address).1,
      ⟨(Registers.burst ms rtc.registers rtc.address).2.1,
        (Registers.burst ms rtc.registers rtc.address).2.2⟩) := by
  induction ms generalizing rtc with
  | nil => rfl
  | cons m ms ih => simp only [I2cRtc.readLoop, Registers.burst, ih]

/-- The address space that a snapshot covers. -/
def Chip.inCalendar (chip : Chip) (address : Byte) : Bool :=
  address ≥ chip.timeBase && (address - chip.timeBase).toNat < 7

/-- The time of the snapshot behind which the byte of a number is read. -/
def snapshotTime (chip : Chip) (address : Byte) (start : ℤ) (ms : List Moment) : ℕ → ℤ
  | 0 => start
  | i + 1 =>
    if chip.nextAddress^[i + 1] address = 0 then (ms.map Moment.wrap).getD i 0
    else snapshotTime chip address start ms i

section Latches

variable {r r₀ : Registers} {latched now : ℤ}

theorem sync_latch (r : Registers) (now : ℤ) :
    (r.sync now).reading = r.reading ∧ (r.sync now).snapshot = r.snapshot := by
  unfold Registers.sync
  dsimp only
  split_ifs <;> exact ⟨rfl, rfl⟩

/-- Outside of the calendar a look at the clock changes nothing. -/
theorem advance_other {chip : Chip} {data : Byte → Byte} {address : Byte} (seconds : ℕ)
    (h : chip.inCalendar address = false) : chip.advance data seconds address = data address := by
  have hcalendar : isCalendar chip address = false := by
    by_contra hcontra
    rw [Bool.not_eq_false] at hcontra
    simp only [isCalendar, Bool.or_eq_true, decide_eq_true_eq] at hcontra
    rcases hcontra with ((((rfl | rfl) | rfl) | rfl) | rfl) | rfl <;> cases chip <;> cases h
  have hweekday : address ≠ chip.weekdayIndex := by
    rintro rfl
    cases chip <;> cases h
  cases hdecode : chip.decode data with
  | none => rw [Chip.advance, hdecode]
  | some c =>
    rw [advance_eq hdecode, encode_other hcalendar, passDays]
    split_ifs
    · rw [Function.update_of_ne hweekday]
    · rfl

theorem sync_other {address : Byte} (h : r.chip.inCalendar address = false) (now : ℤ) :
    (r.sync now).data address = r.data address := by
  have hs := synced_sync r now
  cases hr : r.stopped with
  | true => rw [(hs.halted hr).1]
  | false =>
    have hdata : (r.sync now).data = (r.count (r.elapsed now)).1 := congrArg Prod.fst (hs.running hr)
    rw [hdata, Registers.count]
    split_ifs
    · exact advance_other _ h
    · rfl

/-- The registers `r` are those of `r₀` at a later time, with a snapshot taken at `latched`. -/
structure Latched (r₀ : Registers) (latched : ℤ) (r : Registers) : Prop where
  same : SameClock (r₀.sync r.sampledAt) r
  since : r₀.sampledAt ≤ r.sampledAt
  reading : r.reading = true
  snapshot : ∀ i : Fin 7,
    r.snapshot i = (r₀.sync latched).data (r₀.chip.timeBase + BitVec.ofNat 8 i)

theorem Latched.chip (h : Latched r₀ latched r) : r.chip = r₀.chip :=
  h.same.chip.trans (synced_sync r₀ _).chip

/-- A look at the clock is the one look that would have been taken from the start. -/
theorem Latched.sync_same (h : Latched r₀ latched r) (hsampled : r₀.sampled = true)
    (hnow : r.sampledAt ≤ now) : SameClock (r₀.sync now) (r.sync now) :=
  (sync_sync hsampled h.since hnow).trans (h.same.sync now)

theorem Latched.sync (h : Latched r₀ latched r) (hsampled : r₀.sampled = true)
    (hnow : r.sampledAt ≤ now) : Latched r₀ latched (r.sync now) := by
  obtain ⟨hreading, hsnapshot⟩ := sync_latch r now
  have hat := (synced_sync r now).sampledAt
  constructor
  · rw [hat]
    exact h.sync_same hsampled hnow
  · rw [hat]
    exact h.since.trans hnow
  · rw [hreading]
    exact h.reading
  · rw [hsnapshot]
    exact h.snapshot

theorem Latched.beginRead (h : Latched r₀ latched r) (hsampled : r₀.sampled = true)
    (hnow : r.sampledAt ≤ now) : Latched r₀ now (r.beginRead now) := by
  have hsync := h.sync hsampled hnow
  have hat := (synced_sync r now).sampledAt
  have hsame := h.sync_same hsampled hnow
  refine ⟨?_, ?_, rfl, ?_⟩
  · exact ⟨hsync.same.chip, hsync.same.data, hsync.same.sampledAt, hsync.same.fractionUs,
      hsync.same.sampled⟩
  · exact hsync.since
  · intro i
    rw [← hsame.data, ← h.chip, ← (synced_sync r now).chip]
    rfl

theorem sync_again (r : Registers) (now : ℤ) : SameClock (r.sync now) ((r.sync now).sync now) := by
  have hs := synced_sync r now
  have hs' := synced_sync (r.sync now) now
  have hboth : (((r.sync now).sync now).data, ((r.sync now).sync now).fractionUs) =
      ((r.sync now).data, (r.sync now).fractionUs) := by
    cases hr : r.stopped with
    | true =>
      obtain ⟨hdata, hfraction⟩ := hs'.halted (hs.stopped.trans hr)
      rw [hdata, hfraction]
    | false =>
      have helapsed : (r.sync now).elapsed now = 0 := by
        rw [Registers.elapsed, hs.sampled, hs.sampledAt, if_pos rfl]
        omega
      rw [hs'.running (hs.stopped.trans hr), helapsed, count_count hs.chip (hs.running hr),
        Nat.add_zero, hs.running hr]
  obtain ⟨hdata, hfraction⟩ := Prod.mk.inj hboth
  exact ⟨hs'.chip, hdata, hs'.sampledAt.trans hs.sampledAt.symm, hfraction,
    hs'.sampled.trans hs.sampled.symm⟩

/-- The first snapshot. -/
theorem latched_start (r : Registers) (start : ℤ) :
    Latched (r.sync start) start (r.beginRead start) := by
  have hat : (r.beginRead start).sampledAt = start := (synced_sync r start).sampledAt
  have hagain := sync_again r start
  constructor
  · rw [hat]
    have hback : SameClock ((r.sync start).sync start) (r.sync start) :=
      ⟨hagain.chip.symm, hagain.data.symm, hagain.sampledAt.symm, hagain.fractionUs.symm,
        hagain.sampled.symm⟩
    exact hback.trans ⟨rfl, rfl, rfl, rfl, rfl⟩
  · exact le_rfl
  · rfl
  · intro i
    rw [hagain.data]
    rfl

/-- The byte that a read at `now` returns of the register at an address. -/
def Registers.shown (r₀ : Registers) (latched now : ℤ) (address : Byte) : Byte :=
  let address := r₀.chip.canonicalAddress address
  if r₀.chip = .rv8803 ∧ address = 0x10 then bcd ((r₀.sync now).fractionUs / 10000)
  else (r₀.sync (if r₀.chip = .rv8803 then now else latched)).data address

theorem base_add_offset (base address : Byte) :
    base + BitVec.ofNat 8 (address - base).toNat = address := by
  rw [BitVec.ofNat_toNat, BitVec.setWidth_eq, BitVec.add_comm, BitVec.sub_add_cancel]

theorem Latched.read_byte (h : Latched r₀ latched r) (hsampled : r₀.sampled = true)
    (hnow : r.sampledAt ≤ now) (address : Byte) :
    (r.read now address).2 = r₀.shown latched now address := by
  have hsync := h.sync hsampled hnow
  have hsame := h.sync_same hsampled hnow
  have hchip := hsync.chip
  simp only [Registers.read, Registers.shown, hchip]
  by_cases hlive : r₀.chip = .rv8803
  · rw [dif_neg (fun hcontra => hcontra.2.1 hlive), hsame.data, hsame.fractionUs]
    simp only [hlive, true_and, if_true]
  · simp only [hlive, false_and, if_false]
    by_cases hwindow : r₀.chip.inCalendar (r₀.chip.canonicalAddress address) = true
    · have hoffset := hwindow
      simp only [Chip.inCalendar, Bool.and_eq_true, decide_eq_true_eq] at hoffset
      rw [dif_pos ⟨hsync.reading, fun hcontra => hlive hcontra, hoffset⟩, hsync.snapshot]
      congr 1
      exact base_add_offset _ _
    · rw [Bool.not_eq_true] at hwindow
      rw [dif_neg, hsame.data, sync_other hwindow, sync_other hwindow]
      rintro ⟨-, -, hoffset⟩
      rw [Chip.inCalendar, decide_eq_true hoffset.1, decide_eq_true hoffset.2] at hwindow
      cases hwindow

theorem snapshotTime_cons (chip : Chip) (address : Byte) (start : ℤ) (m : Moment)
    (ms : List Moment) (i : ℕ) :
    snapshotTime chip address start (m :: ms) (i + 1) = snapshotTime chip (chip.nextAddress address)
      (if chip.nextAddress address = 0 then m.wrap else start) ms i := by
  induction i with
  | zero => rfl
  | succ i ih =>
    rw [snapshotTime, ih, snapshotTime, Function.iterate_succ_apply]
    rfl

/-- Every byte of a burst, by induction on the moments. -/
theorem Latched.burst {ms : List Moment} (address : Byte) (h : Latched r₀ latched r)
    (hsampled : r₀.sampled = true)
    (htimes : Forward (r.sampledAt :: ms.flatMap fun m => [m.now, m.wrap])) :
    (Registers.burst ms r address).2.2 = r₀.chip.nextAddress^[ms.length] address ∧
    (Registers.burst ms r address).1.length = ms.length ∧
    ∀ i m, ms[i]? = some m → (Registers.burst ms r address).1[i]? =
      some (r₀.shown (snapshotTime r₀.chip address latched ms i) m.now
        (r₀.chip.nextAddress^[i] address)) := by
  induction ms generalizing r latched address with
  | nil =>
    refine ⟨rfl, rfl, ?_⟩
    intro i m hm
    simp at hm
  | cons m ms ih =>
    simp only [Forward, List.flatMap_cons, List.cons_append, List.nil_append,
      List.pairwise_cons] at htimes
    obtain ⟨hfrom, hnow, hwrap, hrest⟩ := htimes
    have hread := h.read_byte hsampled (hfrom m.now (by simp)) address
    have hsync := h.sync hsampled (hfrom m.now (by simp))
    have hat := (synced_sync r m.now).sampledAt
    have hchip := hsync.chip
    have hnext : ∃ r' latched', Latched r₀ latched' r' ∧
        latched' = (if r₀.chip.nextAddress address = 0 then m.wrap else latched) ∧
        Forward (r'.sampledAt :: ms.flatMap fun m => [m.now, m.wrap]) ∧
        r' = (if r₀.chip.nextAddress address = 0 then (r.sync m.now).beginRead m.wrap
          else r.sync m.now) := by
      by_cases hzero : r₀.chip.nextAddress address = 0
      · have hlater : (r.sync m.now).sampledAt ≤ m.wrap := by
          rw [hat]
          exact hnow m.wrap (by simp)
        refine ⟨_, _, hsync.beginRead hsampled hlater, by rw [if_pos hzero], ?_,
          by rw [if_pos hzero]⟩
        · have hatWrap : ((r.sync m.now).beginRead m.wrap).sampledAt = m.wrap :=
            (synced_sync _ m.wrap).sampledAt
          rw [hatWrap]
          exact List.pairwise_cons.mpr ⟨hwrap, hrest⟩
      · refine ⟨_, _, hsync, by rw [if_neg hzero], ?_, by rw [if_neg hzero]⟩
        rw [hat]
        exact List.pairwise_cons.mpr ⟨fun t ht => hnow t (List.mem_cons_of_mem _ ht), hrest⟩
    obtain ⟨r', latched', hlatched, hlatchedEq, htimes', hr'⟩ := hnext
    obtain ⟨haddress, hlength, hbytes⟩ := ih (r₀.chip.nextAddress address) hlatched htimes'
    have hburst : Registers.burst (m :: ms) r address =
        (r₀.shown latched m.now address ::
          (Registers.burst ms r' (r₀.chip.nextAddress address)).1,
          (Registers.burst ms r' (r₀.chip.nextAddress address)).2) := by
      rw [← hread, hr', ← hchip]
      rfl
    rw [hburst]
    refine ⟨?_, ?_, ?_⟩
    · rw [haddress, List.length_cons, Function.iterate_succ_apply]
    · rw [List.length_cons, List.length_cons, hlength]
    · intro i m' hm'
      cases i with
      | zero =>
        obtain rfl : m = m' := by simpa using hm'
        rfl
      | succ i =>
        rw [List.getElem?_cons_succ] at hm' ⊢
        rw [hbytes i m' hm', snapshotTime_cons, hlatchedEq, Function.iterate_succ_apply]

end Latches

/-- What a burst returns that starts at an address and a time: a calendar register of the one
instant of the last snapshot (on the RV-8803 of the instant of its own read), any other one as it
was written last. -/
structure Coherent (r : Registers) (address : Byte) (start : ℤ) (ms : List Moment)
    (bytes : List Byte) : Prop where
  length : bytes.length = ms.length
  calendar : ∀ (i : ℕ) (m : Moment) (a : Byte), ms[i]? = some m →
    a = r.chip.canonicalAddress (r.chip.nextAddress^[i] address) → r.chip.inCalendar a = true →
    bytes[i]? = some (((r.sync start).sync
      (if r.chip = .rv8803 then m.now else snapshotTime r.chip address start ms i)).data a)
  other : ∀ (i : ℕ) (a : Byte), i < ms.length →
    a = r.chip.canonicalAddress (r.chip.nextAddress^[i] address) → r.chip.inCalendar a = false →
    ¬ (r.chip = .rv8803 ∧ a = 0x10) → bytes[i]? = some (r.data a)

theorem burst_coherent (r : Registers) (address : Byte) {start : ℤ} {ms : List Moment}
    (htimes : Forward (start :: ms.flatMap fun m => [m.now, m.wrap])) :
    Coherent r address start ms (Registers.burst ms (r.beginRead start) address).1 ∧
    (Registers.burst ms (r.beginRead start) address).2.2 =
      r.chip.nextAddress^[ms.length] address := by
  have hs := synced_sync r start
  have hat : (r.beginRead start).sampledAt = start := hs.sampledAt
  obtain ⟨haddress, hlength, hbytes⟩ :=
    (latched_start r start).burst address hs.sampled (by rw [hat]; exact htimes)
  rw [hs.chip] at haddress hbytes
  refine ⟨⟨hlength, ?_, ?_⟩, haddress⟩
  · rintro i m a hm rfl hcalendar
    rw [hbytes i m hm, Registers.shown, hs.chip]
    have hnot : ¬ (r.chip = .rv8803 ∧
        r.chip.canonicalAddress (r.chip.nextAddress^[i] address) = 0x10) := by
      rintro ⟨hchip, hten⟩
      rw [hten, hchip] at hcalendar
      cases hcalendar
    rw [if_neg hnot]
  · rintro i a hi rfl hother hnot
    obtain ⟨m, hm⟩ : ∃ m, ms[i]? = some m := ⟨ms[i], List.getElem?_eq_getElem hi⟩
    rw [hbytes i m hm, Registers.shown, hs.chip]
    rw [if_neg hnot, sync_other (by rw [hs.chip]; exact hother), sync_other hother]

theorem I2cRtc.read_eq (r : Registers) (address : Byte) (start : ℤ) {ms : List Moment}
    (hne : ms ≠ []) : ∃ rtc, I2cRtc.read ⟨r, address⟩ start ms =
      some ((Registers.burst ms (r.beginRead start) address).1, rtc) ∧
      rtc.address = (Registers.burst ms (r.beginRead start) address).2.2 := by
  rw [I2cRtc.read, if_neg hne, readLoop_burst]
  exact ⟨_, rfl, rfl⟩

namespace Ds3234

theorem turn_selected (rtc : Ds3234) (incoming : Byte) (m : Moment) :
    (rtc.turn incoming m).1.selected = rtc.selected := by
  unfold turn
  split_ifs
  · rfl
  · unfold takeCommand
    dsimp only
    split_ifs <;> rfl
  · rfl

theorem turns_selected (data : List (Byte × Moment)) (rtc : Ds3234) :
    (turns data rtc).2.selected = rtc.selected := by
  induction data generalizing rtc with
  | nil => rfl
  | cons byte data ih =>
    simp only [turns]
    rw [ih, turn_selected]

theorem turns_append (data more : List (Byte × Moment)) (rtc : Ds3234) :
    turns (data ++ more) rtc = ((turns data rtc).1 ++ (turns more (turns data rtc).2).1,
      (turns more (turns data rtc).2).2) := by
  induction data generalizing rtc with
  | nil => rfl
  | cons byte data ih =>
    simp only [List.cons_append, turns, ih]

/-- However a frame is split, its bytes take their turns one after the other. -/
theorem transfers_eq {ts : List (SpiInterface × List (Byte × Moment))} {rtc : Ds3234}
    (hselected : rtc.selected = true)
    (haccepts : ∀ t ∈ ts, accepts t.1 (8 * t.2.length) = true) :
    rtc.transfers ts = turns (ts.flatMap Prod.snd) rtc := by
  induction ts generalizing rtc with
  | nil => rfl
  | cons t ts ih =>
    obtain ⟨spi, data⟩ := t
    have htransfer : rtc.transfer spi (8 * data.length) data = turns data rtc := by
      unfold transfer
      by_cases hempty : 8 * data.length = 0
      · have hnil : data = [] := List.eq_nil_of_length_eq_zero (by omega)
        rw [if_pos hempty, hnil]
        rfl
      · have htake : data.take ((8 * data.length + 7) / 8) = data :=
          List.take_of_length_le (by omega)
        have haccept := haccepts _ List.mem_cons_self
        dsimp only at haccept ⊢
        rw [if_neg hempty, htake, hselected, haccept, if_neg (by decide), if_pos rfl]
    simp only [transfers, htransfer, List.flatMap_cons, turns_append]
    rw [ih (by rw [turns_selected, hselected]) fun t ht => haccepts t (List.mem_cons_of_mem _ ht)]

theorem exchange_read {rtc : Ds3234} (h : rtc.writing = false) (incoming : Byte) (m : Moment) :
    rtc.exchange incoming m =
      ({ rtc with
        registers :=
          if (rtc.registers.read m.now rtc.address).1.chip.nextAddress rtc.address = 0 then
            (rtc.registers.read m.now rtc.address).1.beginRead m.wrap
          else (rtc.registers.read m.now rtc.address).1
        address := (rtc.registers.read m.now rtc.address).1.chip.nextAddress rtc.address },
        (rtc.registers.read m.now rtc.address).2) := by
  rw [exchange, h]
  simp

/-- Behind its command a frame of reads is a burst. -/
theorem turns_burst {data : List (Byte × Moment)} {rtc : Ds3234} (hvalid : rtc.frameValid = true)
    (hcommand : rtc.needCommand = false) (hwriting : rtc.writing = false) :
    turns data rtc = ((Registers.burst (data.map Prod.snd) rtc.registers rtc.address).1,
      { rtc with
        registers := (Registers.burst (data.map Prod.snd) rtc.registers rtc.address).2.1
        address := (Registers.burst (data.map Prod.snd) rtc.registers rtc.address).2.2 }) := by
  induction data generalizing rtc with
  | nil => rfl
  | cons byte data ih =>
    have hturn : rtc.turn byte.1 byte.2 = rtc.exchange byte.1 byte.2 := by
      rw [turn, hvalid, hcommand]
      rfl
    simp only [turns, hturn, exchange_read hwriting, List.map_cons, Registers.burst]
    rw [ih (by exact hvalid) (by exact hcommand) (by exact hwriting)]

theorem frame_eq {rtc : Ds3234} (start : ℤ) {ts : List (SpiInterface × List (Byte × Moment))}
    {command : Byte} {m : Moment} {data : List (Byte × Moment)} (hselected : rtc.selected = false)
    (haccepts : ∀ t ∈ ts, accepts t.1 (8 * t.2.length) = true)
    (hframe : ts.flatMap Prod.snd = (command, m) :: data) (hread : command &&& 0x80 = 0)
    (hsize : (command &&& 0x7f).toNat < rtc.registers.chip.size) :
    ∃ rtc', (rtc.updateChipSelect start true).transfers ts =
      (0 :: (Registers.burst (data.map Prod.snd) (rtc.registers.beginRead start)
        (command &&& 0x7f)).1, rtc') ∧
      rtc'.address = (Registers.burst (data.map Prod.snd) (rtc.registers.beginRead start)
        (command &&& 0x7f)).2.2 := by
  have hedge : rtc.updateChipSelect start true =
      { rtc with
        selected := true
        registers := rtc.registers.beginRead start
        needCommand := true
        frameValid := true } := by
    rw [updateChipSelect, hselected]
    rfl
  have hchip : (rtc.registers.beginRead start).chip = rtc.registers.chip :=
    (synced_sync rtc.registers start).chip
  rw [hedge, transfers_eq rfl haccepts, hframe]
  have hturn : ({ rtc with
        selected := true
        registers := rtc.registers.beginRead start
        needCommand := true
        frameValid := true } : Ds3234).turn command m =
      ({ rtc with
        selected := true
        registers := rtc.registers.beginRead start
        needCommand := false
        frameValid := true
        writing := false
        address := command &&& 0x7f }, 0) := by
    simp only [turn, takeCommand, hread, hchip, not_le.mpr hsize]
    simp
  simp only [turns, hturn]
  rw [turns_burst rfl rfl rfl]
  exact ⟨_, rfl, rfl⟩

end Ds3234

/-- A read transaction, and a frame of the SPI chip however it is split, return a coherent burst. -/
theorem reads_coherent (r : Registers) (address : Byte) (start : ℤ) (ms : List Moment)
    (htimes : Forward (start :: ms.flatMap fun m => [m.now, m.wrap])) :
    (ms ≠ [] → ∃ bytes rtc, I2cRtc.read ⟨r, address⟩ start ms = some (bytes, rtc) ∧
      Coherent r address start ms bytes ∧
      rtc.address = r.chip.nextAddress^[ms.length] address) ∧
    ∀ (rtc : Ds3234) (ts : List (SpiInterface × List (Byte × Moment))) (command : Byte)
      (m : Moment) (data : List (Byte × Moment)), rtc.registers = r → rtc.selected = false →
      (∀ t ∈ ts, Ds3234.accepts t.1 (8 * t.2.length) = true) →
      ts.flatMap Prod.snd = (command, m) :: data → data.map Prod.snd = ms →
      command &&& 0x80 = 0 → command &&& 0x7f = address → address.toNat < r.chip.size →
      ∃ bytes rtc', (rtc.updateChipSelect start true).transfers ts = (0 :: bytes, rtc') ∧
        Coherent r address start ms bytes ∧
        rtc'.address = r.chip.nextAddress^[ms.length] address := by
  obtain ⟨hcoherent, hnext⟩ := burst_coherent r address htimes
  constructor
  · intro hne
    obtain ⟨rtc, hread, haddress⟩ := I2cRtc.read_eq r address start hne
    exact ⟨_, rtc, hread, hcoherent, haddress.trans hnext⟩
  · rintro rtc ts command m data rfl hselected haccepts hframe rfl hread rfl hsize
    obtain ⟨rtc', htransfers, haddress⟩ :=
      Ds3234.frame_eq start hselected haccepts hframe hread hsize
    exact ⟨_, rtc', htransfers, hcoherent, haddress.trans hnext⟩

/-- A DS3231 at 01:59:59 that is read across the hour, and captured again at its register 0. -/
def secondsBefore : Registers :=
  (((powerOn .ds3231).write 0 0 0x59).write 0 1 0x59).write 0 2 0x01

theorem reads_coherent_hour : ∃ bytes rtc,
    I2cRtc.read ⟨secondsBefore, 0x12⟩ 0 [⟨0, 1500000⟩, ⟨1500000, 1500000⟩] = some (bytes, rtc) ∧
      Coherent secondsBefore 0x12 0 [⟨0, 1500000⟩, ⟨1500000, 1500000⟩] bytes ∧
      rtc.address = 1 := by
  have htimes : Forward (0 :: ([⟨0, 1500000⟩, ⟨1500000, 1500000⟩] : List Moment).flatMap
      fun m => [m.now, m.wrap]) := by
    simp [Forward]
  obtain ⟨hread, -⟩ := reads_coherent secondsBefore 0x12 0 _ htimes
  obtain ⟨bytes, rtc, hbytes, hcoherent, haddress⟩ := hread (by simp)
  exact ⟨bytes, rtc, hbytes, hcoherent, haddress.trans (by decide +kernel)⟩

/-- An RV-8803 at the last second of a minute. -/
def minuteEnd : Registers := ((powerOn .rv8803).write 0 0 0x59).write 0 1 0x59

/-- The seconds of one instant and the minutes of another. -/
theorem rv8803_torn :
    (I2cRtc.read ⟨minuteEnd, 0⟩ 0 [⟨0, 0⟩, ⟨1000000, 1000000⟩]).map Prod.fst = some [0x59, 0x00] ∧
    ∀ now : ℤ, 0 ≤ now → now ≤ 1000000 →
      [(minuteEnd.sync now).data 0, (minuteEnd.sync now).data 1] ≠ [0x59, 0x00] := by
  refine ⟨by decide +kernel, ?_⟩
  intro now hfrom hto
  have hrunning : minuteEnd.stopped = false := by decide +kernel
  have hfields : minuteEnd.sampled = true ∧ minuteEnd.sampledAt = 0 ∧ minuteEnd.fractionUs = 0 := by
    decide +kernel
  obtain ⟨hsampled, hat, hfraction⟩ := hfields
  have hdata : (minuteEnd.sync now).data = (minuteEnd.count now.toNat).1 := by
    have hcount := congrArg Prod.fst ((synced_sync minuteEnd now).running hrunning)
    rw [Registers.elapsed, hsampled, if_pos rfl, hat, Int.sub_zero] at hcount
    exact hcount
  rw [hdata, Registers.count, hfraction, Nat.zero_add]
  by_cases hsecond : now.toNat / 1000000 = 0
  · rw [hsecond]
    dsimp only
    decide +kernel
  · have hone : now.toNat / 1000000 = 1 := by omega
    rw [hone]
    dsimp only
    decide +kernel

end RooTesting.Rtc
