import Mathlib.Data.Int.Interval
import Mathlib.Data.Set.Function
import Mathlib.Data.Set.Prod
import Mathlib.Tactic.Common
import Mathlib.Tactic.Cases
import Mathlib.Data.Int.ConditionallyCompleteOrder
import Mathlib.Order.ConditionallyCompleteLattice.Basic
import Mathlib.Order.CompletePartialOrder

/-! # Orientations of a rectangular grid

An orientation may exchange the axes and mirror each of them. It places a cell of the turned grid
in the grid, and unplaces it again. A cell can also be magnified to a square of finer cells, and
the cells of a window are counted in row-major order. -/
namespace RooTesting.GridOrientations

abbrev Cell := ℤ × ℤ

/-- The cells of a grid of the given size. -/
def box (size : Cell) : Set Cell := Set.Ico 0 size.1 ×ˢ Set.Ico 0 size.2

structure Orientation where
  exchange : Bool
  mirrorX : Bool
  mirrorY : Bool
  deriving DecidableEq

def mirror (flag : Bool) (size i : ℤ) : ℤ := if flag then size - 1 - i else i

namespace Orientation

variable (o : Orientation) (size c : Cell)

def turn : Cell := if o.exchange then c.swap else c

/-- First the axes are exchanged, then they are mirrored. -/
def place : Cell :=
  (mirror o.mirrorX size.1 (o.turn c).1, mirror o.mirrorY size.2 (o.turn c).2)

/-- First the axes are mirrored, then they are exchanged. -/
def unplace : Cell := o.turn (mirror o.mirrorX size.1 c.1, mirror o.mirrorY size.2 c.2)

end Orientation

theorem mem_box {size c : Cell} : c ∈ box size ↔ (0 ≤ c.1 ∧ c.1 < size.1) ∧ 0 ≤ c.2 ∧ c.2 < size.2 :=
  Iff.rfl

instance decidableMemBox (size c : Cell) : Decidable (c ∈ box size) :=
  inferInstanceAs (Decidable ((0 ≤ c.1 ∧ c.1 < size.1) ∧ 0 ≤ c.2 ∧ c.2 < size.2))

@[simp] theorem mirror_mirror (flag : Bool) (size i : ℤ) :
    mirror flag size (mirror flag size i) = i := by
  cases flag with
  | false => rfl
  | true => exact sub_sub_cancel _ _

/-- A mirror keeps an axis within its bounds. -/
theorem mirror_mem {flag : Bool} {size i : ℤ} :
    (0 ≤ mirror flag size i ∧ mirror flag size i < size) ↔ 0 ≤ i ∧ i < size := by
  cases flag with
  | false => exact Iff.rfl
  | true =>
    simp only [mirror, if_true]
    omega

section Turns

variable (o : Orientation)

@[simp] theorem turn_turn (c : Cell) : o.turn (o.turn c) = c := by
  unfold Orientation.turn
  split
  · exact Prod.swap_swap c
  · rfl

theorem turn_mem {size c : Cell} : o.turn c ∈ box size ↔ c ∈ box (o.turn size) := by
  unfold Orientation.turn
  split
  · exact and_comm
  · exact Iff.rfl

@[simp] theorem place_unplace (size c : Cell) : o.place size (o.unplace size c) = c := by
  simp [Orientation.place, Orientation.unplace]

@[simp] theorem unplace_place (size c : Cell) : o.unplace size (o.place size c) = c := by
  simp [Orientation.place, Orientation.unplace]

theorem place_mem {size c : Cell} : o.place size c ∈ box size ↔ c ∈ box (o.turn size) := by
  rw [← turn_mem o, mem_box, mem_box]
  exact and_congr mirror_mem mirror_mem

theorem unplace_mem {size c : Cell} : o.unplace size c ∈ box (o.turn size) ↔ c ∈ box size := by
  rw [← place_mem o, place_unplace]

/-- The turned grid is placed cell by cell on the whole grid. -/
theorem place_bijOn (size : Cell) : Set.BijOn (o.place size) (box (o.turn size)) (box size) := by
  refine ⟨fun c hc => (place_mem o).mpr hc, fun c _ c' _ h => ?_, fun c hc => ?_⟩
  · rw [← unplace_place o size c, h, unplace_place]
  · exact ⟨o.unplace size c, (unplace_mem o).mpr hc, place_unplace o size c⟩

end Turns

/-- The square of finer cells that a cell becomes. -/
def magnified (m : ℤ) (c : Cell) : Set Cell :=
  Set.Ico (m * c.1) (m * (c.1 + 1)) ×ˢ Set.Ico (m * c.2) (m * (c.2 + 1))

def shrink (m : ℤ) (d : Cell) : Cell := (d.1 / m, d.2 / m)

theorem mem_magnified {m : ℤ} (hm : 0 < m) {c d : Cell} : d ∈ magnified m c ↔ shrink m d = c := by
  have hone : ∀ i j : ℤ, (m * i ≤ j ∧ j < m * (i + 1)) ↔ j / m = i := by
    intro i j
    rw [mul_comm m i, mul_comm m (i + 1), ← Int.le_ediv_iff_mul_le hm, ← Int.ediv_lt_iff_lt_mul hm]
    omega
  rw [Prod.ext_iff]
  exact and_congr (hone c.1 d.1) (hone c.2 d.2)

/-- Distinct cells become disjoint squares. -/
theorem magnified_disjoint {m : ℤ} (hm : 0 < m) {c c' : Cell} (h : c ≠ c') :
    Disjoint (magnified m c) (magnified m c') := by
  rw [Set.disjoint_left]
  intro d hd hd'
  exact h (((mem_magnified hm).mp hd).symm.trans ((mem_magnified hm).mp hd'))

theorem shrink_mem {m : ℤ} (hm : 0 < m) {size d : Cell} :
    shrink m d ∈ box size ↔ d ∈ box (m * size.1, m * size.2) := by
  have hone : ∀ i n : ℤ, (0 ≤ i / m ∧ i / m < n) ↔ 0 ≤ i ∧ i < m * n := by
    intro i n
    rw [Int.ediv_nonneg_iff_of_pos hm, Int.ediv_lt_iff_lt_mul hm, mul_comm]
  exact and_congr (hone d.1 size.1) (hone d.2 size.2)

/-- The `k`-th cell in row-major order of a window that is `w` cells wide. -/
def rowMajor (w k : ℕ) : ℕ × ℕ := (k % w, k / w)

/-- The next cell is on the right, or at the beginning of the next row. -/
theorem rowMajor_succ {w : ℕ} (hw : 0 < w) (k : ℕ) :
    rowMajor w (k + 1) =
      if (rowMajor w k).1 + 1 < w then ((rowMajor w k).1 + 1, (rowMajor w k).2)
      else (0, (rowMajor w k).2 + 1) := by
  unfold rowMajor
  have hdiv := Nat.div_add_mod k w
  have hlt := Nat.mod_lt k hw
  split
  · rename_i hin
    have hk : k + 1 = w * (k / w) + (k % w + 1) := by omega
    rw [hk, Nat.mul_add_mod, Nat.mul_add_div hw, Nat.mod_eq_of_lt hin, Nat.div_eq_of_lt hin]
    rfl
  · have hk : k + 1 = w * (k / w + 1) := by
      rw [Nat.mul_add]
      omega
    rw [hk, Nat.mul_mod_right, Nat.mul_div_cancel_left _ hw]

/-- Counting through a window of `h` rows meets each of its cells once. -/
theorem rowMajor_bijOn {w : ℕ} (hw : 0 < w) (h : ℕ) :
    Set.BijOn (rowMajor w) (Set.Iio (w * h)) (Set.Iio w ×ˢ Set.Iio h) := by
  refine ⟨fun k hk => ⟨Nat.mod_lt k hw, Nat.div_lt_of_lt_mul hk⟩, fun k _ k' _ heq => ?_, ?_⟩
  · obtain ⟨hmod, hdiv⟩ := Prod.ext_iff.mp heq
    rw [← Nat.div_add_mod k w, ← Nat.div_add_mod k' w]
    exact congrArg₂ (w * · + ·) hdiv hmod
  · rintro ⟨i, j⟩ ⟨hi, hj⟩
    refine ⟨w * j + i, ?_, ?_⟩
    · calc w * j + i < w * (j + 1) := by rw [Nat.mul_add, Nat.mul_one]; exact Nat.add_lt_add_left hi _
        _ ≤ w * h := Nat.mul_le_mul_left w hj
    · rw [rowMajor, Nat.mul_add_mod, Nat.mul_add_div hw, Nat.mod_eq_of_lt hi, Nat.div_eq_of_lt hi]
      rfl

end RooTesting.GridOrientations
