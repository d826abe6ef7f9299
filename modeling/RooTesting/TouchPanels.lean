import RooTesting.FlexViewport

/-! # The touch controllers

Both controllers scale a place of the viewport to 4096 steps on each axis, flip and exchange the
axes, and rescale to the calibrated range. They do it anew whenever a byte of a command, or a block
of registers, is asked for. -/
namespace RooTesting.Touch

open GridOrientations FlexViewports

abbrev Byte := BitVec 8
abbrev Word := BitVec 16

/-- The two controllers have the same `Calibration`. -/
structure Calibration where
  xMin : ℤ
  yMin : ℤ
  xMax : ℤ
  yMax : ℤ
  rightToLeft : Bool
  bottomToTop : Bool
  swapXY : Bool

def rescale (min max i : ℤ) : ℤ := int16 (min + (i * (max - min + 1) + 4095).tdiv 4096)

namespace Calibration

variable (k : Calibration)

def calibrate (x y : ℤ) : ℤ × ℤ :=
  let y := if k.bottomToTop then int16 (4095 - y) else y
  let x := if k.rightToLeft then int16 (4095 - x) else x
  let p := if k.swapXY then (y, x) else (x, y)
  (rescale k.xMin k.xMax p.1, rescale k.yMin k.yMax p.2)

end Calibration

/-- The viewport of a controller. What `isMouseClicked` says is `none` when nothing is clicked. -/
structure Viewport where
  width : ℤ
  height : ℤ

def scaled (size i : ℤ) : ℤ := int16 ((4096 * i).tdiv size)

def touched (v : Viewport) (k : Calibration) (p : ℤ × ℤ) : ℤ × ℤ :=
  k.calibrate (scaled v.width p.1) (scaled v.height p.2)

structure FakeXpt2046Spi where
  conversionRequested : Bool
  conversionBytesReturned : ℕ
  conversion : Word

namespace FakeXpt2046Spi

/-- What the constructor leaves uninitialised has any value. -/
def new (conversion : Word) : FakeXpt2046Spi := ⟨false, 0, conversion⟩

variable (v : Viewport) (k : Calibration) (clicked : Option (ℤ × ℤ)) (s : FakeXpt2046Spi)

/-- The coordinates of a click, after the final reversal. -/
def reversed : Option (ℤ × ℤ) :=
  clicked.map fun p => (int16 (4095 - (touched v k p).1), int16 (4095 - (touched v k p).2))

/-- The commands of the switch, and what they convert. -/
def conversionOf (val : Byte) : Option Word :=
  if val &&& 0xF0 = 0xD0 then
    some (match reversed v k clicked with | some p => .ofInt 16 (p.1 * 8) | none => 0)
  else if val &&& 0xF0 = 0x90 then
    some (match reversed v k clicked with | some p => .ofInt 16 (p.2 * 8) | none => 0)
  else if val &&& 0xF0 = 0xB0 then some (if clicked.isSome then 1250 <<< 3 else 0)
  else if val &&& 0xF0 = 0xC0 then some (0xFFF <<< 3)
  else none

def highByte (w : Word) : Byte := (w >>> 8).setWidth 8
def lowByte (w : Word) : Byte := (w &&& 0xFF).setWidth 8

/-- The first byte after a command is not a command. -/
def Awaiting : Prop := s.conversionRequested = true ∧ s.conversionBytesReturned = 0

instance decidableAwaiting : Decidable s.Awaiting :=
  inferInstanceAs (Decidable (s.conversionRequested = true ∧ s.conversionBytesReturned = 0))

def transferByte (val : Byte) : FakeXpt2046Spi × Byte :=
  if s.Awaiting then
    ({ s with conversionBytesReturned := s.conversionBytesReturned + 1 }, highByte s.conversion)
  else
    let result := if s.conversionRequested ∧ s.conversionBytesReturned = 1 then
      lowByte s.conversion else 0
    let s := if s.conversionRequested ∧ s.conversionBytesReturned = 1 then
      { s with conversionRequested := false, conversionBytesReturned := 0 } else s
    match conversionOf v k clicked val with
    | some w => ({ s with conversionRequested := true, conversion := w }, result)
    | none => (s, result)

end FakeXpt2046Spi

inductive Kind
  | pressDown
  | liftUp
  | contact
  | noEvent
  deriving DecidableEq

def Kind.value : Kind → Byte
  | .pressDown => 0x00
  | .liftUp => 0x40
  | .contact => 0x80
  | .noEvent => 0xC0

inductive Result
  | errorOk
  | errorDev
  deriving DecidableEq

structure FakeFt6x36 where
  x : ℤ
  y : ℤ
  pressed : Bool

namespace FakeFt6x36

def new (x y : ℤ) : FakeFt6x36 := ⟨x, y, false⟩

/-- The registers of a touch, from the second one on. -/
def registers (kind : Kind) (x y : Word) (buff : ℕ → Byte) : ℕ → Byte
  | 2 => 1
  | 3 => ((x.sshiftRight 8 &&& 0x3F).setWidth 8) + kind.value
  | 4 => (x &&& 0xFF).setWidth 8
  | 5 => (y.sshiftRight 8 &&& 0x0F).setWidth 8
  | 6 => (y &&& 0xFF).setWidth 8
  | 7 => 0xC0
  | i => buff i

variable (v : Viewport) (k : Calibration) (clicked : Option (ℤ × ℤ)) (s : FakeFt6x36)

/-- `pressed_` is not among what a read stores. -/
def read (buff : ℕ → Byte) (size : ℕ) (sendStop : Bool) : Result × (ℕ → Byte) × FakeFt6x36 :=
  if size ≠ 16 ∨ sendStop = false then (.errorDev, buff, s)
  else
    let buff := Function.update (Function.update buff 0 0) 1 0
    let newTouch := clicked.map (touched v k)
    if s.pressed = false ∧ newTouch.isNone then (.errorOk, Function.update buff 2 0, s)
    else
      let kind := if s.pressed = false then Kind.pressDown
        else if newTouch.isSome then Kind.contact else Kind.liftUp
      let s := match newTouch with
        | some t => { s with x := t.1, y := t.2 }
        | none => s
      (.errorOk, registers kind (.ofInt 16 s.x) (.ofInt 16 s.y) buff, s)

end FakeFt6x36

structure Calibration.Valid (k : Calibration) : Prop where
  x : 0 ≤ k.xMin ∧ k.xMin ≤ k.xMax ∧ k.xMax ≤ 4095
  y : 0 ≤ k.yMin ∧ k.yMin ≤ k.yMax ∧ k.yMax ≤ 4095

/-- A viewport with pixels. Its size is given as `int16_t`. -/
structure Viewport.Sized (v : Viewport) : Prop where
  width : 0 < v.width ∧ v.width < 2 ^ 15
  height : 0 < v.height ∧ v.height < 2 ^ 15

def Viewport.pixels (v : Viewport) : Set (ℤ × ℤ) := box (v.width, v.height)

section Properties

variable (v : Viewport) (k : Calibration)

def InRange : Prop :=
  ∀ p ∈ v.pixels, (k.xMin ≤ (touched v k p).1 ∧ (touched v k p).1 ≤ k.xMax) ∧
    k.yMin ≤ (touched v k p).2 ∧ (touched v k p).2 ≤ k.yMax

/-- The touched coordinates, exchanged back: one for each axis of the viewport. -/
def alongAxes (p : ℤ × ℤ) : ℤ × ℤ := if k.swapXY then (touched v k p).swap else touched v k p

/-- A coordinate goes up with its axis of the viewport, or down when the axis is flipped, and does
not depend on the other axis. -/
def Monotonic : Prop :=
  ∀ p ∈ v.pixels, ∀ q ∈ v.pixels,
    (p.1 ≤ q.1 → if k.rightToLeft then (alongAxes v k q).1 ≤ (alongAxes v k p).1
      else (alongAxes v k p).1 ≤ (alongAxes v k q).1) ∧
    (p.2 ≤ q.2 → if k.bottomToTop then (alongAxes v k q).2 ≤ (alongAxes v k p).2
      else (alongAxes v k p).2 ≤ (alongAxes v k q).2)

/-- A controller after any bytes, each with what was clicked when it came. -/
def Reached (s : FakeXpt2046Spi) : Prop :=
  ∃ (conversion : Word) (bytes : List (Option (ℤ × ℤ) × Byte)),
    bytes.foldl (fun s b => (s.transferByte v k b.1 b.2).1) (.new conversion) = s

/-- The two bytes after a command that is taken at a click are the reversed coordinate, shifted by
three bits. -/
def XptEncodes : Prop :=
  ∀ (s : FakeXpt2046Spi), Reached v k s → ¬s.Awaiting →
    ∀ p ∈ v.pixels, ∀ (cmd val val' : Byte) (clicked clicked' : Option (ℤ × ℤ)),
      let first := s.transferByte v k (some p) cmd
      let second := first.1.transferByte v k clicked val
      let third := second.1.transferByte v k clicked' val'
      let word : ℤ := second.2.toNat * 256 + third.2.toNat
      (cmd &&& 0xF0 = 0xD0 → word = (4095 - (touched v k p).1) * 8) ∧
        (cmd &&& 0xF0 = 0x90 → word = (4095 - (touched v k p).2) * 8)

/-- Twelve bits of two registers. -/
def twelveBits (high low : Byte) : ℤ := high.toNat % 16 * 256 + low.toNat

/-- The registers of a touch hold its coordinates. -/
def FtEncodes : Prop :=
  ∀ (s : FakeFt6x36) (buff : ℕ → Byte), ∀ p ∈ v.pixels,
    let out := s.read v k (some p) buff 16 true
    out.1 = .errorOk ∧ twelveBits (out.2.1 3) (out.2.1 4) = (touched v k p).1 ∧
      twelveBits (out.2.1 5) (out.2.1 6) = (touched v k p).2

/-- The last step of an axis stays in its range: the range is whole when the axis is flipped, and
else its width times the steps of a pixel is at least 4096. -/
def AxisFits (flipped : Bool) (size min max : ℤ) : Prop :=
  if flipped then max - min = 4095 else 4096 ≤ (4096 + size - 1) / size * (max - min + 1)

/-- Each range fits the axis of the viewport that it gets. -/
def RangesFit : Prop :=
  if k.swapXY then
    AxisFits k.bottomToTop v.height k.xMin k.xMax ∧ AxisFits k.rightToLeft v.width k.yMin k.yMax
  else
    AxisFits k.rightToLeft v.width k.xMin k.xMax ∧ AxisFits k.bottomToTop v.height k.yMin k.yMax

end Properties

/-- A scaled coordinate, flipped or not. -/
def placed (flipped : Bool) (size i : ℤ) : ℤ :=
  if flipped then 4095 - 4096 * i / size else 4096 * i / size

section Axes

variable {size i j : ℤ} {flipped : Bool} {min max : ℤ}

theorem scaled_bounds (hi : 0 ≤ i) (hsize : i < size) :
    0 ≤ 4096 * i / size ∧ 4096 * i / size ≤ 4095 := by
  refine ⟨Int.ediv_nonneg (by omega) (by omega), ?_⟩
  rw [← Int.lt_add_one_iff]
  exact Int.ediv_lt_of_lt_mul (by omega) (by omega)

theorem scaled_eq (hi : 0 ≤ i) (hsize : i < size) : scaled size i = 4096 * i / size := by
  obtain ⟨hlow, hhigh⟩ := scaled_bounds hi hsize
  rw [scaled, Int.tdiv_eq_ediv_of_nonneg (by omega), int16_eq (by omega) (by omega)]

variable (flipped) in
theorem placed_bounds (hi : 0 ≤ i) (hsize : i < size) :
    0 ≤ placed flipped size i ∧ placed flipped size i ≤ 4095 := by
  obtain ⟨hlow, hhigh⟩ := scaled_bounds hi hsize
  unfold placed
  split
  · omega
  · omega

theorem placed_eq (hi : 0 ≤ i) (hsize : i < size) :
    (if flipped then int16 (4095 - scaled size i) else scaled size i) = placed flipped size i := by
  obtain ⟨hlow, hhigh⟩ := scaled_bounds hi hsize
  rw [scaled_eq hi hsize, int16_eq (by omega) (by omega)]
  rfl

variable (flipped) in
theorem placed_mono (hsize : 0 < size) (h : i ≤ j) :
    if flipped then placed flipped size j ≤ placed flipped size i
    else placed flipped size i ≤ placed flipped size j := by
  have hdiv : 4096 * i / size ≤ 4096 * j / size := Int.ediv_le_ediv hsize (by omega)
  cases flipped with
  | false => exact hdiv
  | true => exact Int.sub_le_sub_left hdiv 4095

/-- A range rescales what it is given within its bounds, and one more at the end. -/
structure Range (min max : ℤ) : Prop where
  low : 0 ≤ min
  ordered : min ≤ max
  high : max ≤ 4095

theorem rescale_eq (h : Range min max) {c : ℤ} (hc : 0 ≤ c) (hc' : c ≤ 4095) :
    rescale min max c = min + (c * (max - min + 1) + 4095) / 4096 ∧
      min ≤ rescale min max c ∧ rescale min max c ≤ max + 1 := by
  obtain ⟨hlow, hordered, hhigh⟩ := h
  have hproduct : 0 ≤ c * (max - min + 1) := Int.mul_nonneg hc (by omega)
  have hless : c * (max - min + 1) ≤ 4095 * (max - min + 1) :=
    Int.mul_le_mul_of_nonneg_right hc' (by omega)
  unfold rescale
  rw [Int.tdiv_eq_ediv_of_nonneg (by omega)]
  generalize c * (max - min + 1) = product at *
  have hquotient : 0 ≤ (product + 4095) / 4096 ∧ (product + 4095) / 4096 ≤ max - min + 1 := by omega
  rw [int16_eq (by omega) (by omega)]
  omega

theorem rescale_mono (h : Range min max) {c c' : ℤ} (hc : 0 ≤ c) (hle : c ≤ c') (hc' : c' ≤ 4095) :
    rescale min max c ≤ rescale min max c' := by
  have hordered := h.ordered
  rw [(rescale_eq h hc (by omega)).1, (rescale_eq h (by omega) hc').1]
  have hproduct := Int.mul_le_mul_of_nonneg_right hle (by omega : 0 ≤ max - min + 1)
  omega

theorem rescale_le_iff (h : Range min max) {c : ℤ} (hc : 0 ≤ c) (hc' : c ≤ 4095) :
    rescale min max c ≤ max ↔ 4096 ≤ (4096 - c) * (max - min + 1) := by
  rw [(rescale_eq h hc hc').1, Int.sub_mul]
  omega

/-- The last step of an axis. -/
def lastStep (flipped : Bool) (size : ℤ) : ℤ :=
  if flipped then 4095 else 4096 - (4096 + size - 1) / size

theorem last_quotient (hsize : 0 < size) :
    4096 * (size - 1) / size = 4096 - (4096 + size - 1) / size := by
  have hlow := Int.ediv_mul_le (4096 + size - 1) (by omega : size ≠ 0)
  have hhigh := Int.lt_ediv_add_one_mul_self (4096 + size - 1) hsize
  generalize (4096 + size - 1) / size = q at *
  rw [Int.ediv_eq_iff_of_pos hsize, Int.sub_mul]
  rw [Int.add_mul] at hhigh
  constructor
  · omega
  · omega

theorem placed_le (hi : 0 ≤ i) (hsize : i < size) : placed flipped size i ≤ lastStep flipped size := by
  cases flipped with
  | true => exact (placed_bounds _ hi hsize).2
  | false =>
    change 4096 * i / size ≤ 4096 - (4096 + size - 1) / size
    rw [← last_quotient (by omega)]
    exact Int.ediv_le_ediv (by omega) (by omega)

variable (flipped) in
theorem placed_last (hsize : 0 < size) :
    ∃ i, 0 ≤ i ∧ i < size ∧ placed flipped size i = lastStep flipped size := by
  cases flipped with
  | true => exact ⟨0, le_refl 0, hsize, by simp [placed, lastStep]⟩
  | false => exact ⟨size - 1, by omega, by omega, last_quotient hsize⟩

theorem axisFits_iff (h : Range min max) :
    AxisFits flipped size min max ↔ 4096 ≤ (4096 - lastStep flipped size) * (max - min + 1) := by
  have hordered := h.ordered
  have hlow := h.low
  have hhigh := h.high
  cases flipped with
  | true =>
    simp only [AxisFits, lastStep, if_true]
    omega
  | false =>
    simp only [AxisFits, lastStep, Bool.false_eq_true, if_false, sub_sub_cancel]

/-- An axis stays in its range when its last step does. -/
theorem axis_iff (h : Range min max) (hsize : 0 < size) :
    (∀ i, 0 ≤ i → i < size → rescale min max (placed flipped size i) ≤ max) ↔
      AxisFits flipped size min max := by
  obtain ⟨last, hlast, hlast', hstep⟩ := placed_last flipped hsize
  obtain ⟨hlow, hhigh⟩ := placed_bounds flipped hlast hlast'
  rw [hstep] at hlow hhigh
  rw [axisFits_iff h, ← rescale_le_iff h hlow hhigh]
  constructor
  · intro hall
    rw [← hstep]
    exact hall last hlast hlast'
  · intro hfits i hi hi'
    exact (rescale_mono h (placed_bounds _ hi hi').1 (placed_le hi hi') hhigh).trans hfits

/-- A coordinate goes up or down with its axis. -/
theorem axis_mono (h : Range min max) (hi : 0 ≤ i) (hj : j < size) (hij : i ≤ j) :
    if flipped then rescale min max (placed flipped size j) ≤ rescale min max (placed flipped size i)
    else rescale min max (placed flipped size i) ≤ rescale min max (placed flipped size j) := by
  have hplaced := placed_mono flipped (hi.trans_lt (hij.trans_lt hj)) hij
  have hlow := placed_bounds flipped hi (hij.trans_lt hj)
  have hhigh := placed_bounds flipped (hi.trans hij) hj
  cases flipped with
  | false => exact rescale_mono h hlow.1 hplaced hhigh.2
  | true => exact rescale_mono h hhigh.1 hplaced hlow.2

end Axes

section Touches

variable {v : Viewport} {k : Calibration} {p : ℤ × ℤ}

theorem Calibration.Valid.rangeX (h : k.Valid) : Range k.xMin k.xMax := ⟨h.x.1, h.x.2.1, h.x.2.2⟩
theorem Calibration.Valid.rangeY (h : k.Valid) : Range k.yMin k.yMax := ⟨h.y.1, h.y.2.1, h.y.2.2⟩

/-- Each coordinate is rescaled from the axis that it gets. -/
theorem touched_eq (hp : p ∈ v.pixels) :
    touched v k p =
      if k.swapXY then
        (rescale k.xMin k.xMax (placed k.bottomToTop v.height p.2),
          rescale k.yMin k.yMax (placed k.rightToLeft v.width p.1))
      else
        (rescale k.xMin k.xMax (placed k.rightToLeft v.width p.1),
          rescale k.yMin k.yMax (placed k.bottomToTop v.height p.2)) := by
  obtain ⟨⟨hx, hx'⟩, hy, hy'⟩ := mem_box.mp hp
  unfold touched Calibration.calibrate
  dsimp only
  rw [placed_eq hx hx', placed_eq hy hy']
  split
  · rfl
  · rfl

theorem alongAxes_eq (hp : p ∈ v.pixels) :
    alongAxes v k p =
      if k.swapXY then
        (rescale k.yMin k.yMax (placed k.rightToLeft v.width p.1),
          rescale k.xMin k.xMax (placed k.bottomToTop v.height p.2))
      else
        (rescale k.xMin k.xMax (placed k.rightToLeft v.width p.1),
          rescale k.yMin k.yMax (placed k.bottomToTop v.height p.2)) := by
  rw [alongAxes, touched_eq hp]
  split
  · rfl
  · rfl

theorem monotonic (hk : k.Valid) : Monotonic v k := by
  intro p hp q hq
  obtain ⟨⟨hpx, -⟩, hpy, -⟩ := mem_box.mp hp
  obtain ⟨⟨-, hqx⟩, -, hqy⟩ := mem_box.mp hq
  rw [alongAxes_eq hp, alongAxes_eq hq]
  cases k.swapXY with
  | false =>
    exact ⟨fun h => axis_mono hk.rangeX hpx hqx h, fun h => axis_mono hk.rangeY hpy hqy h⟩
  | true =>
    exact ⟨fun h => axis_mono hk.rangeY hpx hqx h, fun h => axis_mono hk.rangeX hpy hqy h⟩

/-- No coordinate is below its range, and an axis fits its range when no pixel is above it. -/
theorem inRange_iff (hv : v.Sized) (hk : k.Valid) : InRange v k ↔ RangesFit v k := by
  have hlow : ∀ {min max : ℤ} {flipped : Bool} {size i : ℤ}, Range min max → 0 ≤ i → i < size →
      min ≤ rescale min max (placed flipped size i) := fun h hi hi' =>
    (rescale_eq h (placed_bounds _ hi hi').1 (placed_bounds _ hi hi').2).2.1
  have hsplit : ∀ {A B : ℤ → Prop}, (∀ p ∈ v.pixels, A p.1 ∧ B p.2) ↔
      (∀ i, 0 ≤ i → i < v.width → A i) ∧ ∀ j, 0 ≤ j → j < v.height → B j := by
    intro A B
    constructor
    · intro h
      exact ⟨fun i hi hi' => (h (i, 0) (mem_box.mpr ⟨⟨hi, hi'⟩, le_refl 0, hv.height.1⟩)).1,
        fun j hj hj' => (h (0, j) (mem_box.mpr ⟨⟨le_refl 0, hv.width.1⟩, hj, hj'⟩)).2⟩
    · rintro ⟨hA, hB⟩ p hp
      exact ⟨hA p.1 hp.1.1 hp.1.2, hB p.2 hp.2.1 hp.2.2⟩
  unfold InRange RangesFit
  cases hswap : k.swapXY with
  | false =>
    rw [if_neg Bool.false_ne_true, ← axis_iff hk.rangeX hv.width.1, ← axis_iff hk.rangeY hv.height.1,
      ← hsplit]
    refine forall₂_congr fun p hp => ?_
    rw [touched_eq hp, hswap, if_neg Bool.false_ne_true]
    exact and_congr (and_iff_right (hlow hk.rangeX hp.1.1 hp.1.2))
      (and_iff_right (hlow hk.rangeY hp.2.1 hp.2.2))
  | true =>
    rw [if_pos rfl, ← axis_iff hk.rangeX hv.height.1, ← axis_iff hk.rangeY hv.width.1,
      and_comm, ← hsplit]
    refine forall₂_congr fun p hp => ?_
    rw [touched_eq hp, hswap, if_pos rfl, and_comm]
    exact and_congr (and_iff_right (hlow hk.rangeY hp.1.1 hp.1.2))
      (and_iff_right (hlow hk.rangeX hp.2.1 hp.2.2))

end Touches

section Bus

variable {v : Viewport} {k : Calibration} {s : FakeXpt2046Spi}

/-- At most one byte has been returned of a conversion that is requested. -/
def FakeXpt2046Spi.Counted (s : FakeXpt2046Spi) : Prop :=
  s.conversionBytesReturned ≤ if s.conversionRequested then 1 else 0

/-- A command starts its conversion, whatever was left of the one before. -/
theorem command_taken (h : s.Counted) (hs : ¬s.Awaiting) {clicked : Option (ℤ × ℤ)} {cmd : Byte}
    {w : Word} (hw : FakeXpt2046Spi.conversionOf v k clicked cmd = some w) :
    (s.transferByte v k clicked cmd).1 = ⟨true, 0, w⟩ := by
  unfold FakeXpt2046Spi.transferByte
  rw [if_neg hs]
  dsimp only
  rw [hw]
  obtain ⟨requested, returned, conversion⟩ := s
  cases requested with
  | false =>
    obtain rfl : returned = 0 := Nat.le_zero.mp h
    rfl
  | true =>
    have hone : returned = 1 := by
      have hle : returned ≤ 1 := h
      have hne : returned ≠ 0 := fun hzero => hs ⟨rfl, hzero⟩
      omega
    subst hone
    rfl

theorem counted_step (h : s.Counted) (clicked : Option (ℤ × ℤ)) (val : Byte) :
    (s.transferByte v k clicked val).1.Counted := by
  by_cases hs : s.Awaiting
  · rw [FakeXpt2046Spi.transferByte, if_pos hs, FakeXpt2046Spi.Counted, hs.1, hs.2]
    exact Nat.le_refl 1
  · cases hw : FakeXpt2046Spi.conversionOf v k clicked val with
    | some w =>
      rw [command_taken h hs hw]
      exact Nat.zero_le _
    | none =>
      unfold FakeXpt2046Spi.transferByte
      rw [if_neg hs]
      dsimp only
      rw [hw]
      dsimp only
      split
      · exact Nat.le_refl 0
      · exact h

theorem Reached.counted (h : Reached v k s) : s.Counted := by
  obtain ⟨conversion, bytes, rfl⟩ := h
  have hrun : ∀ (bytes : List (Option (ℤ × ℤ) × Byte)) (s : FakeXpt2046Spi), s.Counted →
      (bytes.foldl (fun s b => (s.transferByte v k b.1 b.2).1) s).Counted := by
    intro bytes
    induction bytes with
    | nil => exact fun s h => h
    | cons b bytes ih => exact fun s h => ih _ (counted_step h b.1 b.2)
  exact hrun bytes _ (Nat.le_refl 0)

/-- The two bytes after a command are those of its conversion. -/
theorem conversion_returned (w : Word) (clicked clicked' : Option (ℤ × ℤ)) (val val' : Byte) :
    let second := FakeXpt2046Spi.transferByte v k clicked ⟨true, 0, w⟩ val
    let third := second.1.transferByte v k clicked' val'
    second.2.toNat * 256 + third.2.toNat = w.toNat := by
  have hsecond : FakeXpt2046Spi.transferByte v k clicked ⟨true, 0, w⟩ val =
      (⟨true, 1, w⟩, FakeXpt2046Spi.highByte w) := rfl
  have hthird : (FakeXpt2046Spi.transferByte v k clicked' ⟨true, 1, w⟩ val').2 =
      FakeXpt2046Spi.lowByte w := by
    unfold FakeXpt2046Spi.transferByte
    rw [if_neg fun h => absurd h.2 Nat.one_ne_zero]
    dsimp only
    split
    · rfl
    · rfl
  dsimp only
  rw [hsecond, hthird]
  have hw := w.isLt
  simp only [FakeXpt2046Spi.highByte, FakeXpt2046Spi.lowByte, BitVec.toNat_setWidth,
    BitVec.toNat_ushiftRight, BitVec.toNat_and, Nat.shiftRight_eq_div_pow]
  change _ + (w.toNat &&& (2 ^ 8 - 1)) % _ = _
  rw [Nat.and_two_pow_sub_one_eq_mod]
  omega

theorem ofInt_shifted {t : ℤ} (h : 0 ≤ t) (h' : t ≤ 4095) :
    ((BitVec.ofInt 16 (t * 8)).toNat : ℤ) = t * 8 := by
  rw [BitVec.toNat_ofInt]
  omega

/-- Twelve bits of a coordinate survive the reversal and the shift. -/
theorem xptEncodes (hk : k.Valid) (h : InRange v k) : XptEncodes v k := by
  intro s hs hidle p hp cmd val val' clicked clicked'
  obtain ⟨⟨hx, hx'⟩, hy, hy'⟩ := h p hp
  obtain ⟨hxMin, -, hxMax⟩ := hk.x
  obtain ⟨hyMin, -, hyMax⟩ := hk.y
  have hreversed : FakeXpt2046Spi.reversed v k (some p) =
      some (4095 - (touched v k p).1, 4095 - (touched v k p).2) := by
    rw [FakeXpt2046Spi.reversed, Option.map_some, int16_eq (by omega) (by omega),
      int16_eq (by omega) (by omega)]
  have hword : ∀ {t : ℤ}, 0 ≤ t → t ≤ 4095 →
      FakeXpt2046Spi.conversionOf v k (some p) cmd = some (.ofInt 16 (t * 8)) →
      let first := s.transferByte v k (some p) cmd
      let second := first.1.transferByte v k clicked val
      let third := second.1.transferByte v k clicked' val'
      ((second.2.toNat * 256 + third.2.toNat : ℕ) : ℤ) = t * 8 := by
    intro t ht ht' hconversion
    dsimp only
    rw [command_taken hs.counted hidle hconversion]
    rw [conversion_returned (v := v) (k := k) _ clicked clicked' val val']
    exact ofInt_shifted ht ht'
  constructor
  · intro hcmd
    refine hword (by omega) (by omega) ?_
    rw [FakeXpt2046Spi.conversionOf, if_pos hcmd, hreversed]
  · intro hcmd
    refine hword (by omega) (by omega) ?_
    rw [FakeXpt2046Spi.conversionOf, if_neg (by rw [hcmd]; decide), if_pos hcmd, hreversed]

theorem toNat_coordinate {t : ℤ} (h : 0 ≤ t) (h' : t ≤ 4095) :
    ((BitVec.ofInt 16 t).toNat : ℤ) = t ∧ ((BitVec.ofInt 16 t).sshiftRight 8).toNat =
      (BitVec.ofInt 16 t).toNat / 256 := by
  have hnat : ((BitVec.ofInt 16 t).toNat : ℤ) = t := by
    rw [BitVec.toNat_ofInt]
    omega
  refine ⟨hnat, ?_⟩
  have hmsb : (BitVec.ofInt 16 t).msb = false := by
    rw [BitVec.msb_eq_false_iff_two_mul_lt]
    omega
  rw [BitVec.sshiftRight_eq_of_msb_false hmsb, BitVec.toNat_ushiftRight, Nat.shiftRight_eq_div_pow]

theorem registers_x (kind : Kind) {t : ℤ} (h : 0 ≤ t) (h' : t ≤ 4095) (y : Word) (buff : ℕ → Byte) :
    twelveBits (FakeFt6x36.registers kind (.ofInt 16 t) y buff 3)
      (FakeFt6x36.registers kind (.ofInt 16 t) y buff 4) = t := by
  obtain ⟨hnat, hshift⟩ := toNat_coordinate h h'
  have hkind : kind.value.toNat % 64 = 0 := by
    cases kind with
    | pressDown => rfl
    | liftUp => rfl
    | contact => rfl
    | noEvent => rfl
  have hmask : (0x3F : Word).toNat = 2 ^ 6 - 1 := rfl
  have hmask' : (0xFF : Word).toNat = 2 ^ 8 - 1 := rfl
  simp only [twelveBits, FakeFt6x36.registers, BitVec.toNat_add, BitVec.toNat_setWidth,
    BitVec.toNat_and, hshift, hmask, hmask', Nat.and_two_pow_sub_one_eq_mod]
  omega

theorem registers_y (kind : Kind) {t : ℤ} (h : 0 ≤ t) (h' : t ≤ 4095) (x : Word) (buff : ℕ → Byte) :
    twelveBits (FakeFt6x36.registers kind x (.ofInt 16 t) buff 5)
      (FakeFt6x36.registers kind x (.ofInt 16 t) buff 6) = t := by
  obtain ⟨hnat, hshift⟩ := toNat_coordinate h h'
  have hmask : (0x0F : Word).toNat = 2 ^ 4 - 1 := rfl
  have hmask' : (0xFF : Word).toNat = 2 ^ 8 - 1 := rfl
  simp only [twelveBits, FakeFt6x36.registers, BitVec.toNat_setWidth, BitVec.toNat_and, hshift,
    hmask, hmask', Nat.and_two_pow_sub_one_eq_mod]
  omega

/-- A poll with a touch reports it. -/
theorem read_touch (s : FakeFt6x36) (p : ℤ × ℤ) (buff : ℕ → Byte) :
    s.read v k (some p) buff 16 true =
      (.errorOk, FakeFt6x36.registers (if s.pressed = false then .pressDown else .contact)
        (.ofInt 16 (touched v k p).1) (.ofInt 16 (touched v k p).2)
        (Function.update (Function.update buff 0 0) 1 0),
        { s with x := (touched v k p).1, y := (touched v k p).2 }) := by
  have hpressed : ¬(s.pressed = false ∧ ((some p).map (touched v k)).isNone) := fun hno => by
    cases hno.2
  unfold FakeFt6x36.read
  rw [if_neg (by decide)]
  dsimp only
  rw [if_neg hpressed]
  rfl

/-- Twelve bits of a coordinate survive the split into bytes, beside the kind of the event. -/
theorem ftEncodes (hk : k.Valid) (h : InRange v k) : FtEncodes v k := by
  intro s buff p hp
  obtain ⟨⟨hx, hx'⟩, hy, hy'⟩ := h p hp
  obtain ⟨hxMin, -, hxMax⟩ := hk.x
  obtain ⟨hyMin, -, hyMax⟩ := hk.y
  rw [read_touch]
  refine ⟨rfl, ?_, ?_⟩
  · rw [registers_x _ (hxMin.trans hx) (hx'.trans hxMax)]
  · rw [registers_y _ (hyMin.trans hy) (hy'.trans hyMax)]

end Bus

/-- Every pixel is mapped into the calibrated ranges, in order and with its coordinates on the bus,
exactly when each range fits its axis. -/
theorem calibrated_iff {v : Viewport} {k : Calibration} (hv : v.Sized) (hk : k.Valid) :
    (InRange v k ∧ Monotonic v k ∧ XptEncodes v k ↔ RangesFit v k) ∧
      (InRange v k ∧ Monotonic v k ∧ FtEncodes v k ↔ RangesFit v k) := by
  rw [← inRange_iff hv hk]
  exact ⟨⟨fun h => h.1, fun h => ⟨h, monotonic hk, xptEncodes hk h⟩⟩,
    fun h => h.1, fun h => ⟨h, monotonic hk, ftEncodes hk h⟩⟩

/-- A range of 3500 steps on an axis of 320 pixels, and a whole one on a flipped axis. -/
theorem calibrated_iff_whole :
    let v : Viewport := ⟨320, 240⟩
    let k : Calibration := ⟨300, 0, 3800, 4095, false, true, false⟩
    (v.Sized ∧ k.Valid) ∧ InRange v k := by
  have hv : Viewport.Sized ⟨320, 240⟩ := ⟨by decide, by decide⟩
  have hk : Calibration.Valid ⟨300, 0, 3800, 4095, false, true, false⟩ := ⟨by decide, by decide⟩
  have hfits : RangesFit ⟨320, 240⟩ ⟨300, 0, 3800, 4095, false, true, false⟩ := by
    change AxisFits false 320 300 3800 ∧ AxisFits true 240 0 4095
    exact ⟨show (4096 : ℤ) ≤ _ by decide, show (4095 : ℤ) - 0 = 4095 by decide⟩
  exact ⟨⟨hv, hk⟩, ((calibrated_iff hv hk).2.mpr hfits).1⟩

/-- The first pixel of a flipped axis whose range begins at 1. -/
theorem range_exceeded :
    ¬∀ (v : Viewport) (k : Calibration), v.Sized → k.Valid →
      (InRange v k ∧ Monotonic v k ∧ XptEncodes v k) ∧
        InRange v k ∧ Monotonic v k ∧ FtEncodes v k := by
  intro h
  obtain ⟨-, hrange, -⟩ := h ⟨320, 240⟩ ⟨1, 0, 4095, 4095, true, false, false⟩
    ⟨by decide, by decide⟩ ⟨by decide, by decide⟩
  have hpixel : ((0, 0) : ℤ × ℤ) ∈ box (320, 240) := by decide
  exact absurd (hrange (0, 0) hpixel).1.2 (by decide)

end RooTesting.Touch
