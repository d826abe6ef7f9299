import Mathlib.Algebra.Order.BigOperators.Group.List
import Mathlib.Algebra.Ring.Nat
import Mathlib.Tactic.Common
import Mathlib.Tactic.Cases
import Mathlib.Tactic.Ring

/-! # A stopwatch and a counter of whole ticks

A stopwatch keeps the laps it has run. A counter that runs `num` ticks in `den` units of time, and
that keeps only whole ticks when it is stopped, loses less than a tick with every lap. -/
namespace RooTesting.Stopwatches

structure Stopwatch where
  laps : List ℕ
  since : Option ℤ

namespace Stopwatch

variable (w : Stopwatch) (now : ℤ)

/-- The time since the last start. -/
def lap : ℕ := match w.since with
  | none => 0
  | some since => (now - since).toNat

def total : ℕ := w.laps.sum + w.lap now

def start : Stopwatch := if w.since.isSome then w else { w with since := some now }

def stop : Stopwatch :=
  if w.since.isSome then { laps := w.laps ++ [w.lap now], since := none } else w

end Stopwatch

section Counters

variable (num den : ℕ)

/-- The whole ticks of each lap. -/
def counted (laps : List ℕ) : ℕ := (laps.map fun lap => lap * num / den).sum

/-- The parts of a tick that each lap leaves over, in parts of `den`. -/
def leftOver (laps : List ℕ) : List ℕ := laps.map fun lap => lap * num % den

theorem counted_append (laps : List ℕ) (lap : ℕ) :
    counted num den (laps ++ [lap]) = counted num den laps + lap * num / den := by
  simp [counted]

theorem counted_leftOver (laps : List ℕ) :
    den * counted num den laps + (leftOver num den laps).sum = laps.sum * num := by
  induction laps with
  | nil => simp [counted, leftOver]
  | cons lap laps ih =>
    have hlap := Nat.div_add_mod (lap * num) den
    simp only [counted, leftOver, List.map_cons, List.sum_cons] at ih ⊢
    rw [Nat.add_mul, ← ih, ← hlap, Nat.mul_add, hlap]
    omega

/-- Stopping loses what the laps leave over, and nothing else. -/
theorem counted_eq {den : ℕ} (hden : 0 < den) (laps : List ℕ) (lap : ℕ) :
    counted num den laps + lap * num / den =
      ((laps.sum + lap) * num - (leftOver num den laps).sum) / den := by
  have hexact : (laps.sum + lap) * num - (leftOver num den laps).sum =
      den * counted num den laps + lap * num := by
    rw [Nat.add_mul, ← counted_leftOver num den laps]
    omega
  rw [hexact, Nat.mul_add_div hden]

theorem leftOver_lt {den : ℕ} (hden : 0 < den) {laps : List ℕ} {part : ℕ}
    (h : part ∈ leftOver num den laps) : part < den := by
  obtain ⟨lap, -, rfl⟩ := List.mem_map.mp h
  exact Nat.mod_lt _ hden

theorem leftOver_length (laps : List ℕ) : (leftOver num den laps).length = laps.length :=
  List.length_map _

end Counters

/-- What is lost in parts is at most a tick for each part. -/
theorem floor_lost {den : ℕ} (hden : 0 < den) {exact' : ℕ} {parts : List ℕ}
    (hparts : ∀ part ∈ parts, part < den) :
    exact' / den ≤ (exact' - parts.sum) / den + parts.length := by
  have hsum : parts.sum ≤ parts.length * den := by
    induction parts with
    | nil => exact Nat.zero_le _
    | cons part parts ih =>
      have hpart := hparts part List.mem_cons_self
      have hrest := ih fun p hp => hparts p (List.mem_cons_of_mem _ hp)
      rw [List.sum_cons, List.length_cons, Nat.add_mul]
      omega
  rw [← Nat.add_mul_div_right _ _ hden]
  exact Nat.div_le_div_right (by omega)

section Time

variable {w : Stopwatch} {now later : ℤ}

theorem lap_mono (h : now ≤ later) : w.lap now ≤ w.lap later := by
  unfold Stopwatch.lap
  split
  · exact Nat.le_refl 0
  · exact Int.toNat_le_toNat (Int.sub_le_sub_right h _)

end Time

end RooTesting.Stopwatches
