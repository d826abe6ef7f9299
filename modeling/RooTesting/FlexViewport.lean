import RooTesting.GridOrientations
import Mathlib.Tactic.Ring

/-! # The viewport that rotates and magnifies

`fillRect` and `drawRect` turn a logical rectangle into one of the delegate, and `isMouseClicked`
turns a place of the delegate into a logical cell. Coordinates are kept as `int16_t`. -/
namespace RooTesting.FlexViewports

open GridOrientations

abbrev Color := BitVec 32

/-- The value that an `int16_t` keeps. -/
def int16 (i : ℤ) : ℤ := i.bmod (2 ^ 16)

inductive Rotation
  | none
  | right
  | upsideDown
  | left
  deriving DecidableEq

structure Rect where
  x0 : ℤ
  y0 : ℤ
  x1 : ℤ
  y1 : ℤ

/-- A call on the delegate. A pixel of a `drawRect` may be uninitialised. -/
inductive Call
  | fillRect (r : Rect) (colorArgb : Color)
  | drawRect (r : Rect) (colorArgb : ℤ → Option Color)

structure FlexViewport where
  width : ℤ
  height : ℤ
  magnification : ℤ
  xySwapped : Bool
  bottomToTop : Bool
  rightToLeft : Bool

def flexViewport (magnification : ℤ) (rotation : Rotation) : FlexViewport where
  width := -1
  height := -1
  magnification := magnification
  xySwapped := rotation = .right ∨ rotation = .left
  bottomToTop := rotation = .upsideDown ∨ rotation = .right
  rightToLeft := rotation = .left ∨ rotation = .upsideDown

/-- One store into the buffer of `size` pixels. -/
def store (size : ℤ) (dest : ℤ → Option Color) (entry : ℤ × Color) : Option (ℤ → Option Color) :=
  if 0 ≤ entry.1 ∧ entry.1 < size then some (Function.update dest entry.1 (some entry.2)) else none

namespace FlexViewport

variable (v : FlexViewport)

/-- With the width and the height that the delegate is given. -/
def init (width height : ℤ) : FlexViewport × Cell :=
  ({ v with width := width, height := height },
    let size := if v.xySwapped then (height, width) else (width, height)
    (int16 (size.1 * v.magnification), int16 (size.2 * v.magnification)))

/-- The corners of the transformed rectangle, by the statements that `fillRect` and `drawRect` have
in common. -/
def corners (r : Rect) : Rect :=
  let r := if v.bottomToTop then
    { r with y0 := int16 (v.height - r.y1 - 1), y1 := int16 (v.height - r.y0 - 1) } else r
  let r := if v.rightToLeft then
    { r with x0 := int16 (v.width - r.x1 - 1), x1 := int16 (v.width - r.x0 - 1) } else r
  if v.xySwapped then ⟨r.y0, r.x0, r.y1, r.x1⟩ else r

def fillRect (r : Rect) (colorArgb : Color) : Call :=
  let d := v.corners r
  .fillRect ⟨int16 (d.x0 * v.magnification), int16 (d.y0 * v.magnification),
    int16 ((d.x1 + 1) * v.magnification - 1), int16 ((d.y1 + 1) * v.magnification - 1)⟩ colorArgb

/-- The place of one logical pixel in `drawRect`. -/
def target (tx ty : ℤ) : ℤ × ℤ :=
  let ty := if v.bottomToTop then int16 (v.height - 1 - ty) else ty
  let tx := if v.rightToLeft then int16 (v.width - 1 - tx) else tx
  if v.xySwapped then (ty, tx) else (tx, ty)

/-- The stores of the four loops of `drawRect`, in their order. -/
def stores (r d : Rect) (w h dw : ℤ) (colorArgb : ℤ → Color) : List (ℤ × Color) :=
  (List.range h.toNat).flatMap fun (sy : ℕ) => (List.range w.toNat).flatMap fun (sx : ℕ) =>
    let t := v.target (int16 (r.x0 + sx)) (int16 (r.y0 + sy))
    (List.range v.magnification.toNat).flatMap fun (my : ℕ) =>
      (List.range v.magnification.toNat).map fun (mx : ℕ) =>
        (((t.2 - d.y0) * v.magnification + my) * dw + (t.1 - d.x0) * v.magnification + mx,
          colorArgb (sy * w + sx))

def drawRect (r : Rect) (colorArgb : ℤ → Color) : Option Call :=
  if !v.bottomToTop && !v.rightToLeft && !v.xySwapped && v.magnification = 1 then
    some (.drawRect r fun i => some (colorArgb i))
  else
    let d := v.corners r
    let w := int16 (r.x1 - r.x0 + 1)
    let h := int16 (r.y1 - r.y0 + 1)
    let dw := (d.x1 - d.x0 + 1) * v.magnification
    let dh := (d.y1 - d.y0 + 1) * v.magnification
    ((v.stores r d w h dw colorArgb).foldlM (store (dw * dh)) fun _ => none).map fun dest =>
      .drawRect ⟨int16 (d.x0 * v.magnification), int16 (d.y0 * v.magnification),
        int16 (d.x0 * v.magnification + dw - 1), int16 (d.y0 * v.magnification + dh - 1)⟩ dest

/-- What the delegate says is `none` when nothing is clicked. -/
def isMouseClicked (delegate : Option (ℤ × ℤ)) : Option (ℤ × ℤ) :=
  delegate.map fun at' =>
    let dx := int16 (at'.1.tdiv v.magnification)
    let dy := int16 (at'.2.tdiv v.magnification)
    let d := if v.xySwapped then (dy, dx) else (dx, dy)
    let dy := if v.bottomToTop then int16 (v.height - d.2 - 1) else d.2
    let dx := if v.rightToLeft then int16 (v.width - d.1 - 1) else d.1
    (dx, dy)

end FlexViewport

/-- What a rectangle covers. -/
def Rect.cells (r : Rect) : Set Cell := Set.Icc r.x0 r.x1 ×ˢ Set.Icc r.y0 r.y1

instance decidableMemCells (r : Rect) (c : Cell) : Decidable (c ∈ r.cells) :=
  inferInstanceAs (Decidable ((r.x0 ≤ c.1 ∧ c.1 ≤ r.x1) ∧ r.y0 ≤ c.2 ∧ c.2 ≤ r.y1))

/-- The pixel that a rectangle of the given place has for a cell. -/
def Rect.index (r : Rect) (c : Cell) : ℤ := (c.2 - r.y0) * (r.x1 - r.x0 + 1) + (c.1 - r.x0)

/-- A rectangle with cells, all of them in a viewport of the given size. -/
structure Rect.Inside (r : Rect) (size : Cell) : Prop where
  columns : 0 ≤ r.x0 ∧ r.x0 ≤ r.x1 ∧ r.x1 < size.1
  rows : 0 ≤ r.y0 ∧ r.y0 ≤ r.y1 ∧ r.y1 < size.2

/-- What a call paints, as the delegate is meant to. -/
def Call.paint : Call → Cell → Option Color
  | .fillRect r colorArgb, p => if p ∈ r.cells then some colorArgb else none
  | .drawRect r colorArgb, p => if p ∈ r.cells then colorArgb (r.index p) else none

namespace FlexViewport

variable (v : FlexViewport)

def size : Cell := (v.width, v.height)

def orientation : Orientation := ⟨v.xySwapped, v.rightToLeft, v.bottomToTop⟩

/-- The delegate pixels of a logical cell. -/
def pixels (c : Cell) : Set Cell :=
  magnified v.magnification (v.orientation.unplace v.size c)

/-- The logical cell of a delegate pixel. -/
def cellAt (p : Cell) : Cell := v.orientation.place v.size (shrink v.magnification p)

/-- The call paints the delegate pixels of the rectangle in the colours of their cells, and no
others. -/
def Paints (call : Call) (r : Rect) (color : Cell → Color) : Prop :=
  (∀ c ∈ r.cells, ∀ p ∈ v.pixels c, call.paint p = some (color c)) ∧
    ∀ p, (∀ c ∈ r.cells, p ∉ v.pixels c) → call.paint p = none

/-- An `int16_t` holds the coordinates of each delegate pixel of the rectangle. -/
def Fits (r : Rect) : Prop := ∀ c ∈ r.cells, v.pixels c ⊆ box (2 ^ 15, 2 ^ 15)

/-- A viewport that draws a rectangle inside it. -/
structure Draws (r : Rect) : Prop where
  magnification : 1 ≤ v.magnification
  width : v.width < 2 ^ 15
  height : v.height < 2 ^ 15
  inside : r.Inside v.size
  fits : v.Fits r

end FlexViewport

theorem int16_eq {i : ℤ} (h : -2 ^ 15 ≤ i) (h' : i < 2 ^ 15) : int16 i = i :=
  Int.bmod_eq_of_le (by omega) (by omega)

section Cells

variable {v : FlexViewport}

theorem mem_pixels (hm : 1 ≤ v.magnification) {c p : Cell} : p ∈ v.pixels c ↔ v.cellAt p = c := by
  rw [FlexViewport.pixels, mem_magnified (by omega), FlexViewport.cellAt]
  constructor
  · intro h
    rw [h, place_unplace]
  · intro h
    rw [← h, unplace_place]

theorem paints_iff (hm : 1 ≤ v.magnification) {call : Call} {r : Rect} {color : Cell → Color} :
    v.Paints call r color ↔ ∀ p, call.paint p =
      if v.cellAt p ∈ r.cells then some (color (v.cellAt p)) else none := by
  simp only [FlexViewport.Paints, mem_pixels hm]
  constructor
  · rintro ⟨hin, hout⟩ p
    split
    · rename_i h
      exact hin _ h p rfl
    · rename_i h
      exact hout p fun c hc heq => h (heq ▸ hc)
  · intro h
    refine ⟨fun c hc p hp => ?_, fun p hp => ?_⟩
    · rw [h p, hp, if_pos hc]
    · rw [h p, if_neg fun hc => hp _ hc rfl]

theorem mem_cells {r : Rect} {c : Cell} :
    c ∈ r.cells ↔ (r.x0 ≤ c.1 ∧ c.1 ≤ r.x1) ∧ r.y0 ≤ c.2 ∧ c.2 ≤ r.y1 :=
  Iff.rfl

def Rect.swap (r : Rect) : Rect := ⟨r.y0, r.x0, r.y1, r.x1⟩

/-- The corners of a mirrored rectangle, without the narrowing. -/
def FlexViewport.mirrored (v : FlexViewport) (r : Rect) : Rect where
  x0 := if v.rightToLeft then v.width - r.x1 - 1 else r.x0
  y0 := if v.bottomToTop then v.height - r.y1 - 1 else r.y0
  x1 := if v.rightToLeft then v.width - r.x0 - 1 else r.x1
  y1 := if v.bottomToTop then v.height - r.y0 - 1 else r.y1

variable {r : Rect}

theorem corners_eq (h : v.Draws r) :
    v.corners r = if v.xySwapped then (v.mirrored r).swap else v.mirrored r := by
  obtain ⟨⟨hx0, hx, hx1⟩, hy0, hy, hy1⟩ := h.inside
  have hw := h.width
  have hh := h.height
  simp only [FlexViewport.size] at hx1 hy1
  have hbottom := int16_eq (i := v.height - r.y1 - 1) (by omega) (by omega)
  have htop := int16_eq (i := v.height - r.y0 - 1) (by omega) (by omega)
  have hright := int16_eq (i := v.width - r.x1 - 1) (by omega) (by omega)
  have hleft := int16_eq (i := v.width - r.x0 - 1) (by omega) (by omega)
  unfold FlexViewport.corners FlexViewport.mirrored
  cases v.bottomToTop with
  | false =>
    cases v.rightToLeft with
    | false => rfl
    | true =>
      simp only [Bool.false_eq_true, if_false, if_true, hright, hleft]
      rfl
  | true =>
    cases v.rightToLeft with
    | false =>
      simp only [Bool.false_eq_true, if_false, if_true, hbottom, htop]
      rfl
    | true =>
      simp only [if_true, hbottom, htop, hright, hleft]
      rfl

theorem mirror_between (flag : Bool) {n a b i : ℤ} :
    ((if flag then n - b - 1 else a) ≤ i ∧ i ≤ if flag then n - a - 1 else b) ↔
      a ≤ mirror flag n i ∧ mirror flag n i ≤ b := by
  cases flag with
  | false => exact Iff.rfl
  | true =>
    simp only [mirror, if_true]
    omega

theorem mem_swap {c : Cell} : c ∈ r.swap.cells ↔ c.swap ∈ r.cells := and_comm

/-- The transformed rectangle has the transformed cells. -/
theorem mem_corners (h : v.Draws r) {q : Cell} :
    q ∈ (v.corners r).cells ↔ v.orientation.place v.size q ∈ r.cells := by
  have hmirror : ∀ c : Cell, c ∈ (v.mirrored r).cells ↔
      (mirror v.rightToLeft v.width c.1, mirror v.bottomToTop v.height c.2) ∈ r.cells :=
    fun c => and_congr (mirror_between _) (mirror_between _)
  have hturn : q ∈ (v.corners r).cells ↔ v.orientation.turn q ∈ (v.mirrored r).cells := by
    rw [corners_eq h]
    unfold Orientation.turn FlexViewport.orientation
    dsimp only
    split
    · exact mem_swap
    · exact Iff.rfl
  exact hturn.trans (hmirror _)

/-- The transformed rectangle has cells, and they are those of a transformed viewport. -/
theorem corners_ordered (h : v.Draws r) :
    (0 ≤ (v.corners r).x0 ∧ (v.corners r).x0 ≤ (v.corners r).x1) ∧
      0 ≤ (v.corners r).y0 ∧ (v.corners r).y0 ≤ (v.corners r).y1 := by
  obtain ⟨⟨hx0, hx, hx1⟩, hy0, hy, hy1⟩ := h.inside
  simp only [FlexViewport.size] at hx1 hy1
  have hmirrored : (0 ≤ (v.mirrored r).x0 ∧ (v.mirrored r).x0 ≤ (v.mirrored r).x1) ∧
      0 ≤ (v.mirrored r).y0 ∧ (v.mirrored r).y0 ≤ (v.mirrored r).y1 := by
    unfold FlexViewport.mirrored
    dsimp only
    constructor
    · split
      · omega
      · omega
    · split
      · omega
      · omega
  rw [corners_eq h]
  split
  · exact hmirrored.symm
  · exact hmirrored

/-- The rectangle of the magnified cells. -/
def Rect.magnify (m : ℤ) (d : Rect) : Rect :=
  ⟨d.x0 * m, d.y0 * m, (d.x1 + 1) * m - 1, (d.y1 + 1) * m - 1⟩

theorem mem_magnify {m : ℤ} (hm : 1 ≤ m) {d : Rect} {p : Cell} :
    p ∈ (d.magnify m).cells ↔ shrink m p ∈ d.cells := by
  have hone : ∀ a b i : ℤ, (a * m ≤ i ∧ i ≤ (b + 1) * m - 1) ↔ a ≤ i / m ∧ i / m ≤ b := by
    intro a b i
    rw [Int.le_ediv_iff_mul_le (by omega), ← Int.lt_add_one_iff (a := i / m),
      Int.ediv_lt_iff_lt_mul (by omega), Int.le_sub_one_iff]
  exact and_congr (hone _ _ _) (hone _ _ _)

theorem mem_drawn (h : v.Draws r) {p : Cell} :
    p ∈ ((v.corners r).magnify v.magnification).cells ↔ v.cellAt p ∈ r.cells := by
  rw [mem_magnify h.magnification, mem_corners h, FlexViewport.cellAt]

/-- An `int16_t` holds the magnified corners. -/
theorem corners_fit (h : v.Draws r) {p : Cell}
    (hp : p ∈ ((v.corners r).magnify v.magnification).cells) :
    int16 p.1 = p.1 ∧ int16 p.2 = p.2 := by
  have hcell := (mem_drawn h).mp hp
  obtain ⟨⟨hx, hx'⟩, hy, hy'⟩ := h.fits _ hcell ((mem_pixels h.magnification).mpr rfl)
  exact ⟨int16_eq (by omega) hx', int16_eq (by omega) hy'⟩

/-- The two corners are pixels of the rectangle. -/
theorem magnify_narrowed (h : v.Draws r) :
    (⟨int16 ((v.corners r).x0 * v.magnification), int16 ((v.corners r).y0 * v.magnification),
      int16 (((v.corners r).x1 + 1) * v.magnification - 1),
      int16 (((v.corners r).y1 + 1) * v.magnification - 1)⟩ : Rect) =
      (v.corners r).magnify v.magnification := by
  have hm := h.magnification
  obtain ⟨⟨hx0, hx⟩, hy0, hy⟩ := corners_ordered h
  have hwide : ∀ a b : ℤ, a ≤ b → a * v.magnification ≤ (b + 1) * v.magnification - 1 := by
    intro a b hab
    have := Int.mul_le_mul_of_nonneg_right hab (by omega : 0 ≤ v.magnification)
    rw [Int.add_mul]
    omega
  have hfirst : (((v.corners r).x0 * v.magnification, (v.corners r).y0 * v.magnification) : Cell) ∈
      ((v.corners r).magnify v.magnification).cells :=
    ⟨⟨le_refl _, hwide _ _ hx⟩, le_refl _, hwide _ _ hy⟩
  have hlast : ((((v.corners r).x1 + 1) * v.magnification - 1,
      ((v.corners r).y1 + 1) * v.magnification - 1) : Cell) ∈
      ((v.corners r).magnify v.magnification).cells :=
    ⟨⟨hwide _ _ hx, le_refl _⟩, hwide _ _ hy, le_refl _⟩
  obtain ⟨hfirst1, hfirst2⟩ := corners_fit h hfirst
  obtain ⟨hlast1, hlast2⟩ := corners_fit h hlast
  rw [hfirst1, hfirst2, hlast1, hlast2]
  rfl

theorem fillRect_paints (h : v.Draws r) (colorArgb : Color) :
    v.Paints (v.fillRect r colorArgb) r fun _ => colorArgb := by
  rw [paints_iff h.magnification]
  intro p
  have hcall : v.fillRect r colorArgb =
      .fillRect ((v.corners r).magnify v.magnification) colorArgb :=
    congrArg (Call.fillRect · colorArgb) (magnify_narrowed h)
  rw [hcall]
  exact if_congr (mem_drawn h) rfl rfl

end Cells

/-- Stores that agree at every place. -/
theorem stores_run {size : ℤ} {entries : List (ℤ × Color)}
    (hrange : ∀ e ∈ entries, 0 ≤ e.1 ∧ e.1 < size) (dest : ℤ → Option Color) :
    ∃ dest', entries.foldlM (store size) dest = some dest' ∧
      ∀ i color, (∀ e ∈ entries, e.1 = i → e.2 = color) →
        ((∃ e ∈ entries, e.1 = i) ∨ dest i = some color) → dest' i = some color := by
  induction entries generalizing dest with
  | nil =>
    refine ⟨dest, rfl, fun i color _ h => ?_⟩
    rcases h with ⟨e, he, -⟩ | h
    · cases he
    · exact h
  | cons e entries ih =>
    obtain ⟨dest', hrun, hstored⟩ := ih (fun f hf => hrange f (List.mem_cons_of_mem _ hf))
      (Function.update dest e.1 (some e.2))
    refine ⟨dest', ?_, fun i color hagree h => ?_⟩
    · rw [List.foldlM_cons, store, if_pos (hrange e List.mem_cons_self)]
      exact hrun
    · refine hstored i color (fun f hf => hagree f (List.mem_cons_of_mem _ hf)) ?_
      by_cases hi : e.1 = i
      · right
        rw [← hi, Function.update_self, hagree e List.mem_cons_self hi]
      · rw [Function.update_of_ne (Ne.symm hi)]
        refine h.imp (fun hsome => ?_) id
        obtain ⟨f, hf, hfi⟩ := hsome
        rcases List.mem_cons.mp hf with rfl | hf
        · exact absurd hfi hi
        · exact ⟨f, hf, hfi⟩

/-- The pixels of a rectangle are numbered within its area, each with a number of its own. -/
theorem index_lt {r : Rect} {p : Cell} (hp : p ∈ r.cells) :
    0 ≤ r.index p ∧ r.index p < (r.x1 - r.x0 + 1) * (r.y1 - r.y0 + 1) := by
  obtain ⟨⟨hx, hx'⟩, hy, hy'⟩ := mem_cells.mp hp
  have hbelow : (p.2 - r.y0) * (r.x1 - r.x0 + 1) ≤ (r.y1 - r.y0) * (r.x1 - r.x0 + 1) :=
    Int.mul_le_mul_of_nonneg_right (by omega) (by omega)
  have hfirst : 0 ≤ (p.2 - r.y0) * (r.x1 - r.x0 + 1) := Int.mul_nonneg (by omega) (by omega)
  rw [Rect.index, mul_comm (r.x1 - r.x0 + 1) (r.y1 - r.y0 + 1), Int.add_mul (r.y1 - r.y0)]
  constructor
  · omega
  · omega

theorem index_inj {r : Rect} {p p' : Cell} (hp : p ∈ r.cells) (hp' : p' ∈ r.cells)
    (h : r.index p = r.index p') : p = p' := by
  obtain ⟨⟨hx, hx'⟩, hy, hy'⟩ := mem_cells.mp hp
  obtain ⟨⟨kx, kx'⟩, ky, ky'⟩ := mem_cells.mp hp'
  have hrow : ∀ q : Cell, r.x0 ≤ q.1 → q.1 ≤ r.x1 →
      r.index q / (r.x1 - r.x0 + 1) = q.2 - r.y0 := by
    intro q hq hq'
    rw [Rect.index, Int.add_comm, Int.add_mul_ediv_right _ _ (by omega),
      Int.ediv_eq_zero_of_lt (by omega) (by omega), Int.zero_add]
  have hsame := congrArg (· / (r.x1 - r.x0 + 1)) h
  rw [hrow p hx hx', hrow p' kx kx'] at hsame
  rw [Rect.index, Rect.index, hsame] at h
  exact Prod.ext (by omega) (by omega)

section Draws

variable {v : FlexViewport} {r : Rect}

theorem target_eq (h : v.Draws r) {c : Cell} (hc : c ∈ r.cells) :
    v.target (int16 c.1) (int16 c.2) = v.orientation.unplace v.size c := by
  obtain ⟨⟨hx0, hx, hx1⟩, hy0, hy, hy1⟩ := h.inside
  obtain ⟨⟨hcx, hcx'⟩, hcy, hcy'⟩ := mem_cells.mp hc
  have hw := h.width
  have hh := h.height
  simp only [FlexViewport.size] at hx1 hy1
  unfold FlexViewport.target
  rw [int16_eq (i := c.1) (by omega) (by omega), int16_eq (i := c.2) (by omega) (by omega),
    int16_eq (i := v.height - 1 - c.2) (by omega) (by omega),
    int16_eq (i := v.width - 1 - c.1) (by omega) (by omega)]
  rfl

theorem mem_stores {d : Rect} {w h dw : ℤ} {colorArgb : ℤ → Color} {e : ℤ × Color} :
    e ∈ v.stores r d w h dw colorArgb ↔
      ∃ sy < h.toNat, ∃ sx < w.toNat, ∃ my < v.magnification.toNat, ∃ mx < v.magnification.toNat,
        ((((v.target (int16 (r.x0 + sx)) (int16 (r.y0 + sy))).2 - d.y0) * v.magnification + my) *
            dw + ((v.target (int16 (r.x0 + sx)) (int16 (r.y0 + sy))).1 - d.x0) * v.magnification + mx,
          colorArgb (sy * w + sx)) = e := by
  simp only [FlexViewport.stores, List.mem_flatMap, List.mem_map, List.mem_range]

/-- The area of the rectangle that `drawRect` fills. -/
theorem magnify_area (m : ℤ) (d : Rect) :
    (d.magnify m).x1 - (d.magnify m).x0 + 1 = (d.x1 - d.x0 + 1) * m ∧
      (d.magnify m).y1 - (d.magnify m).y0 + 1 = (d.y1 - d.y0 + 1) * m := by
  dsimp only [Rect.magnify]
  constructor
  · ring
  · ring

/-- The pixel that one turn of the loops stores. -/
def FlexViewport.pixel (v : FlexViewport) (c : Cell) (mx my : ℤ) : Cell :=
  ((v.orientation.unplace v.size c).1 * v.magnification + mx,
    (v.orientation.unplace v.size c).2 * v.magnification + my)

theorem pixel_index (c : Cell) (mx my : ℤ) (d : Rect) :
    (((v.orientation.unplace v.size c).2 - d.y0) * v.magnification + my) *
        ((d.x1 - d.x0 + 1) * v.magnification) +
      ((v.orientation.unplace v.size c).1 - d.x0) * v.magnification + mx =
    (d.magnify v.magnification).index (v.pixel c mx my) := by
  rw [Rect.index, (magnify_area _ _).1]
  dsimp only [FlexViewport.pixel, Rect.magnify]
  ring

theorem cellAt_pixel (hm : 1 ≤ v.magnification) (c : Cell) {mx my : ℤ} (hmx : 0 ≤ mx)
    (hmx' : mx < v.magnification) (hmy : 0 ≤ my) (hmy' : my < v.magnification) :
    v.cellAt (v.pixel c mx my) = c := by
  have hone : ∀ a b : ℤ, 0 ≤ b → b < v.magnification → (a * v.magnification + b) / v.magnification = a := by
    intro a b hb hb'
    rw [Int.add_comm, Int.add_mul_ediv_right _ _ (by omega), Int.ediv_eq_zero_of_lt hb hb',
      Int.zero_add]
  have hshrink : shrink v.magnification (v.pixel c mx my) = v.orientation.unplace v.size c :=
    Prod.ext (hone _ _ hmx hmx') (hone _ _ hmy hmy')
  rw [FlexViewport.cellAt, hshrink, place_unplace]

/-- Each pixel of a cell is the one of some turn of the loops. -/
theorem pixel_cellAt (p : Cell) :
    v.pixel (v.cellAt p) (p.1 % v.magnification) (p.2 % v.magnification) = p := by
  rw [FlexViewport.pixel, FlexViewport.cellAt, unplace_place]
  exact Prod.ext (Int.ediv_mul_add_emod _ _) (Int.ediv_mul_add_emod _ _)

/-- The colour of a cell in the buffer of a rectangle. -/
def Rect.colorOf (r : Rect) (colorArgb : ℤ → Color) (c : Cell) : Color := colorArgb (r.index c)

/-- A turn of the four loops stores the colour of a pixel at its number. -/
theorem turn_eq (h : v.Draws r) (colorArgb : ℤ → Color) {sx sy mx my : ℤ}
    (hsx : 0 ≤ sx ∧ sx ≤ r.x1 - r.x0) (hsy : 0 ≤ sy ∧ sy ≤ r.y1 - r.y0)
    (hmx : 0 ≤ mx ∧ mx < v.magnification) (hmy : 0 ≤ my ∧ my < v.magnification) :
    ((((v.target (int16 (r.x0 + sx)) (int16 (r.y0 + sy))).2 - (v.corners r).y0) *
          v.magnification + my) * (((v.corners r).x1 - (v.corners r).x0 + 1) * v.magnification) +
        ((v.target (int16 (r.x0 + sx)) (int16 (r.y0 + sy))).1 - (v.corners r).x0) *
          v.magnification + mx,
      colorArgb (sy * (r.x1 - r.x0 + 1) + sx)) =
    (((v.corners r).magnify v.magnification).index (v.pixel (r.x0 + sx, r.y0 + sy) mx my),
      r.colorOf colorArgb (v.cellAt (v.pixel (r.x0 + sx, r.y0 + sy) mx my))) := by
  have hcell : ((r.x0 + sx, r.y0 + sy) : Cell) ∈ r.cells :=
    mem_cells.mpr ⟨⟨by omega, by omega⟩, by omega, by omega⟩
  have hindex : r.index (r.x0 + sx, r.y0 + sy) = sy * (r.x1 - r.x0 + 1) + sx := by
    dsimp only [Rect.index]
    ring
  rw [target_eq h hcell, pixel_index, cellAt_pixel h.magnification _ hmx.1 hmx.2 hmy.1 hmy.2,
    Rect.colorOf, hindex]

/-- The turns of the four loops store the colour of each pixel at its number. -/
theorem stores_iff (h : v.Draws r) {colorArgb : ℤ → Color} {e : ℤ × Color} :
    e ∈ v.stores r (v.corners r) (int16 (r.x1 - r.x0 + 1)) (int16 (r.y1 - r.y0 + 1))
        (((v.corners r).x1 - (v.corners r).x0 + 1) * v.magnification) colorArgb ↔
      ∃ p ∈ ((v.corners r).magnify v.magnification).cells,
        e = (((v.corners r).magnify v.magnification).index p, r.colorOf colorArgb (v.cellAt p)) := by
  obtain ⟨⟨hx0, hx, hx1⟩, hy0, hy, hy1⟩ := h.inside
  have hm := h.magnification
  have hw := h.width
  have hh := h.height
  simp only [FlexViewport.size] at hx1 hy1
  rw [mem_stores, int16_eq (i := r.x1 - r.x0 + 1) (by omega) (by omega),
    int16_eq (i := r.y1 - r.y0 + 1) (by omega) (by omega)]
  constructor
  · rintro ⟨sy, hsy, sx, hsx, my, hmy, mx, hmx, rfl⟩
    refine ⟨v.pixel (r.x0 + sx, r.y0 + sy) mx my, ?_, ?_⟩
    · rw [mem_drawn h, cellAt_pixel hm _ (by omega) (by omega) (by omega) (by omega)]
      exact mem_cells.mpr ⟨⟨by omega, by omega⟩, by omega, by omega⟩
    · exact turn_eq h colorArgb (by omega) (by omega) (by omega) (by omega)
  · rintro ⟨p, hp, rfl⟩
    obtain ⟨⟨hcx, hcx'⟩, hcy, hcy'⟩ := mem_cells.mp ((mem_drawn h).mp hp)
    have hmx := Int.emod_nonneg p.1 (by omega : v.magnification ≠ 0)
    have hmx' := Int.emod_lt_of_pos p.1 (by omega : 0 < v.magnification)
    have hmy := Int.emod_nonneg p.2 (by omega : v.magnification ≠ 0)
    have hmy' := Int.emod_lt_of_pos p.2 (by omega : 0 < v.magnification)
    refine ⟨((v.cellAt p).2 - r.y0).toNat, by omega, ((v.cellAt p).1 - r.x0).toNat, by omega,
      (p.2 % v.magnification).toNat, by omega, (p.1 % v.magnification).toNat, by omega, ?_⟩
    rw [Int.toNat_of_nonneg (by omega), Int.toNat_of_nonneg (by omega), Int.toNat_of_nonneg hmx,
      Int.toNat_of_nonneg hmy, turn_eq h colorArgb (by omega) (by omega) ⟨hmx, hmx'⟩ ⟨hmy, hmy'⟩,
      add_sub_cancel, add_sub_cancel, Prod.mk.eta, pixel_cellAt]

/-- The buffer of `drawRect`, with the colour of each pixel of the transformed rectangle. -/
theorem stores_drawn (h : v.Draws r) (colorArgb : ℤ → Color) :
    ∃ dest, (v.stores r (v.corners r) (int16 (r.x1 - r.x0 + 1)) (int16 (r.y1 - r.y0 + 1))
        (((v.corners r).x1 - (v.corners r).x0 + 1) * v.magnification) colorArgb).foldlM
        (store (((v.corners r).x1 - (v.corners r).x0 + 1) * v.magnification *
          (((v.corners r).y1 - (v.corners r).y0 + 1) * v.magnification))) (fun _ => none) =
        some dest ∧
      ∀ p ∈ ((v.corners r).magnify v.magnification).cells,
        dest (((v.corners r).magnify v.magnification).index p) =
          some (r.colorOf colorArgb (v.cellAt p)) := by
  obtain ⟨hdw, hdh⟩ := magnify_area v.magnification (v.corners r)
  have hrange : ∀ e ∈ v.stores r (v.corners r) (int16 (r.x1 - r.x0 + 1)) (int16 (r.y1 - r.y0 + 1))
      (((v.corners r).x1 - (v.corners r).x0 + 1) * v.magnification) colorArgb,
      0 ≤ e.1 ∧ e.1 < ((v.corners r).x1 - (v.corners r).x0 + 1) * v.magnification *
        (((v.corners r).y1 - (v.corners r).y0 + 1) * v.magnification) := by
    intro e he
    obtain ⟨p, hp, rfl⟩ := (stores_iff h).mp he
    rw [← hdw, ← hdh]
    exact index_lt hp
  obtain ⟨dest, hrun, hstored⟩ := stores_run hrange fun _ => none
  refine ⟨dest, hrun, fun p hp => hstored _ _ (fun e he hindex => ?_) (Or.inl ?_)⟩
  · obtain ⟨q, hq, rfl⟩ := (stores_iff h).mp he
    rw [index_inj hq hp hindex]
  · exact ⟨_, (stores_iff h).mpr ⟨p, hp, rfl⟩, rfl⟩

theorem drawRect_paints (h : v.Draws r) (colorArgb : ℤ → Color) :
    ∃ call, v.drawRect r colorArgb = some call ∧ v.Paints call r (r.colorOf colorArgb) := by
  have hm := h.magnification
  by_cases hfast : (!v.bottomToTop && !v.rightToLeft && !v.xySwapped && v.magnification = 1) = true
  · refine ⟨_, if_pos hfast, (paints_iff hm).mpr fun p => ?_⟩
    simp only [Bool.and_eq_true, Bool.not_eq_true', decide_eq_true_eq] at hfast
    obtain ⟨⟨⟨hbottom, hright⟩, hswapped⟩, hone⟩ := hfast
    have hcell : v.cellAt p = p := by
      unfold FlexViewport.cellAt Orientation.place Orientation.turn FlexViewport.orientation shrink
      rw [hbottom, hright, hswapped, hone, Int.ediv_one, Int.ediv_one]
      rfl
    rw [hcell]
    rfl
  · obtain ⟨dest, hrun, hdest⟩ := stores_drawn h colorArgb
    have hend : ∀ a b : ℤ, a * v.magnification + (b - a + 1) * v.magnification - 1 =
        (b + 1) * v.magnification - 1 := by
      intro a b
      ring
    have hcall : v.drawRect r colorArgb =
        some (.drawRect ((v.corners r).magnify v.magnification) dest) := by
      rw [FlexViewport.drawRect, if_neg hfast]
      dsimp only
      rw [hrun, hend, hend, ← magnify_narrowed h]
      rfl
    refine ⟨_, hcall, (paints_iff hm).mpr fun p => ?_⟩
    by_cases hp : p ∈ ((v.corners r).magnify v.magnification).cells
    · rw [if_pos ((mem_drawn h).mp hp), ← hdest p hp]
      exact if_pos hp
    · rw [if_neg fun hc => hp ((mem_drawn h).mpr hc)]
      exact if_neg hp

/-- A coordinate that is mirrored into the viewport is not narrowed. -/
theorem mirrored_back (flag : Bool) {n i c : ℤ} (h : mirror flag n i = c) (hc : 0 ≤ c) (hcn : c < n)
    (hn : n < 2 ^ 15) : (if flag then int16 (n - i - 1) else i) = c := by
  cases flag with
  | false => exact h
  | true =>
    simp only [mirror, if_true] at h ⊢
    rw [int16_eq (by omega) (by omega)]
    omega

/-- A click on any delegate pixel of a cell is one on the cell. -/
theorem click_cell (h : v.Draws r) {c p : Cell} (hc : c ∈ r.cells) (hp : p ∈ v.pixels c) :
    v.isMouseClicked (some p) = some c := by
  have hm := h.magnification
  obtain ⟨⟨hx0, hx, hx1⟩, hy0, hy, hy1⟩ := h.inside
  obtain ⟨⟨hcx, hcx'⟩, hcy, hcy'⟩ := mem_cells.mp hc
  obtain ⟨⟨hpx, hpx'⟩, hpy, hpy'⟩ := h.fits c hc hp
  simp only [FlexViewport.size] at hx1 hy1
  have hshrunk : ∀ i : ℤ, 0 ≤ i → i < 2 ^ 15 → int16 (i.tdiv v.magnification) = i / v.magnification := by
    intro i hi hi'
    have hle : i / v.magnification ≤ i := Int.ediv_le_self _ hi
    have hpos : 0 ≤ i / v.magnification := Int.ediv_nonneg hi (by omega)
    rw [Int.tdiv_eq_ediv_of_nonneg hi, int16_eq (by omega) (by omega)]
  have hplace := (mem_pixels hm).mp hp
  have hturn : (if v.xySwapped then (p.2 / v.magnification, p.1 / v.magnification)
      else (p.1 / v.magnification, p.2 / v.magnification)) =
      v.orientation.turn (shrink v.magnification p) := rfl
  obtain ⟨hplace1, hplace2⟩ := Prod.ext_iff.mp hplace
  rw [FlexViewport.isMouseClicked, Option.map_some, hshrunk _ hpx hpx', hshrunk _ hpy hpy']
  dsimp only
  rw [hturn, mirrored_back v.bottomToTop (n := v.height) hplace2 (by omega) (by omega) h.height,
    mirrored_back v.rightToLeft (n := v.width) hplace1 (by omega) (by omega) h.width]

end Draws

theorem pixels_disjoint {v : FlexViewport} (hm : 1 ≤ v.magnification) {c c' : Cell} (h : c ≠ c') :
    Disjoint (v.pixels c) (v.pixels c') := by
  refine magnified_disjoint (by omega) fun heq => h ?_
  rw [← place_unplace v.orientation v.size c, heq, place_unplace]

/-- The cells of a viewport have their pixels in the area that its delegate is given. -/
theorem pixels_within {v : FlexViewport} (hm : 1 ≤ v.magnification) (width height : ℤ)
    (hsized : width * v.magnification < 2 ^ 15 ∧ height * v.magnification < 2 ^ 15) {c : Cell}
    (hc : c ∈ box (width, height)) :
    (v.init width height).1.pixels c ⊆ box (v.init width height).2 := by
  obtain ⟨⟨hcx, hcx'⟩, hcy, hcy'⟩ := mem_box.mp hc
  have hnonneg : ∀ i : ℤ, 0 ≤ i → 0 ≤ i * v.magnification := fun i hi => Int.mul_nonneg hi (by omega)
  have hw := int16_eq (i := width * v.magnification) (by have := hnonneg width; omega) hsized.1
  have hh := int16_eq (i := height * v.magnification) (by have := hnonneg height; omega) hsized.2
  have harea : (v.init width height).2 =
      (v.magnification * (v.orientation.turn (width, height)).1,
        v.magnification * (v.orientation.turn (width, height)).2) := by
    unfold FlexViewport.init Orientation.turn FlexViewport.orientation
    dsimp only
    split
    · rw [hh, hw, mul_comm, mul_comm width]
      rfl
    · rw [hh, hw, mul_comm, mul_comm height]
  intro p hp
  have hcell : shrink v.magnification p = v.orientation.unplace (width, height) c :=
    (mem_magnified (by omega)).mp hp
  rw [harea, ← shrink_mem (by omega), hcell]
  exact (unplace_mem v.orientation).mpr hc

/-- A rectangle of a viewport whose magnified coordinates an `int16_t` holds. -/
theorem draws_of_size {v : FlexViewport} {r : Rect} (hm : 1 ≤ v.magnification)
    (hw : v.width < 2 ^ 15) (hh : v.height < 2 ^ 15) (hr : r.Inside v.size)
    (hsize : v.magnification * v.width ≤ 2 ^ 15 ∧ v.magnification * v.height ≤ 2 ^ 15) :
    v.Draws r := by
  refine ⟨hm, hw, hh, hr, fun c hc p hp => ?_⟩
  obtain ⟨⟨hx0, hx, hx1⟩, hy0, hy, hy1⟩ := hr
  obtain ⟨⟨hcx, hcx'⟩, hcy, hcy'⟩ := mem_cells.mp hc
  have hcell : c ∈ box v.size :=
    mem_box.mpr ⟨⟨hx0.trans hcx, hcx'.trans_lt hx1⟩, hy0.trans hcy, hcy'.trans_lt hy1⟩
  have hshrunk := (mem_magnified (by omega)).mp hp ▸ (unplace_mem v.orientation).mpr hcell
  obtain ⟨⟨hpx, hpx'⟩, hpy, hpy'⟩ := mem_box.mp ((shrink_mem (by omega)).mp hshrunk)
  have hturned : v.magnification * (v.orientation.turn v.size).1 ≤ 2 ^ 15 ∧
      v.magnification * (v.orientation.turn v.size).2 ≤ 2 ^ 15 := by
    unfold Orientation.turn
    split
    · exact hsize.symm
    · exact hsize
  exact mem_box.mpr ⟨⟨hpx, hpx'.trans_le hturned.1⟩, hpy, hpy'.trans_le hturned.2⟩

/-- A viewport as it is after `init`. -/
def started (magnification : ℤ) (rotation : Rotation) (width height : ℤ) : FlexViewport × Cell :=
  (flexViewport magnification rotation).init width height

section Agreement

variable {magnification width height : ℤ} {rotation : Rotation} {r : Rect}

/-- The three copies of the rotation agree about a rectangle that the viewport draws: on the cells
they fill, on the colours of their pixels and on the clicks they report. The pixels are in the
delegate's area when an `int16_t` holds the area's own size. -/
theorem transforms_agree (h : (started magnification rotation width height).1.Draws r)
    (colorArgb : Color) (pixels : ℤ → Color) :
    let v := (started magnification rotation width height).1
    v.Paints (v.fillRect r colorArgb) r (fun _ => colorArgb) ∧
      (∃ call, v.drawRect r pixels = some call ∧ v.Paints call r (r.colorOf pixels)) ∧
      (∀ c ∈ r.cells, ∀ p ∈ v.pixels c, v.isMouseClicked (some p) = some c) ∧
      (∀ c c', c ≠ c' → Disjoint (v.pixels c) (v.pixels c')) ∧
      (width * magnification < 2 ^ 15 ∧ height * magnification < 2 ^ 15 →
        ∀ c ∈ r.cells, v.pixels c ⊆ box (started magnification rotation width height).2) := by
  refine ⟨fillRect_paints h colorArgb, drawRect_paints h pixels, fun c hc p hp => click_cell h hc hp,
    fun c c' hne => pixels_disjoint h.magnification hne, fun hsized c hc => ?_⟩
  refine pixels_within h.magnification width height hsized ?_
  obtain ⟨⟨hx0, hx, hx1⟩, hy0, hy, hy1⟩ := h.inside
  obtain ⟨⟨hcx, hcx'⟩, hcy, hcy'⟩ := mem_cells.mp hc
  exact mem_box.mpr ⟨⟨hx0.trans hcx, hcx'.trans_lt hx1⟩, hy0.trans hcy, hcy'.trans_lt hy1⟩

end Agreement

theorem transforms_agree_right :
    let v := (started 2 .right 3 2).1
    v.Draws ⟨0, 0, 2, 1⟩ ∧ v.isMouseClicked (some (3, 5)) = some (2, 0) := by
  have hdraws : (started 2 .right 3 2).1.Draws ⟨0, 0, 2, 1⟩ :=
    draws_of_size (by decide) (by decide) (by decide) ⟨by decide, by decide⟩ (by decide)
  obtain ⟨-, -, hclick, -⟩ := transforms_agree hdraws 0 fun _ => 0
  exact ⟨hdraws, hclick (2, 0) (by decide) (3, 5) ((mem_pixels (by decide)).mpr (by decide))⟩

/-- The area of 16384 columns magnified by 2 is given as -32768 columns. -/
theorem area_wraps :
    ¬∀ (magnification width height : ℤ) (rotation : Rotation) (r : Rect),
      (started magnification rotation width height).1.Draws r →
      ∀ c ∈ r.cells, (started magnification rotation width height).1.pixels c ⊆
        box (started magnification rotation width height).2 := by
  intro h
  have hdraws : (started 2 .none 16384 1).1.Draws ⟨0, 0, 16383, 0⟩ :=
    draws_of_size (by decide) (by decide) (by decide) ⟨by decide, by decide⟩ (by decide)
  have hpixel : ((0, 0) : Cell) ∈ (started 2 .none 16384 1).1.pixels (0, 0) :=
    (mem_pixels (by decide)).mpr (by decide)
  exact absurd (h 2 16384 1 .none _ hdraws (0, 0) (by decide) hpixel) (by decide)

end RooTesting.FlexViewports
