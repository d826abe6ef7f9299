import Mathlib.Data.Nat.Notation
import Mathlib.Tactic.Common
import Mathlib.Algebra.Group.Nat.Defs

/-! # The state word of an interrupt slot

Three flags in the low bits and a generation in the high half of 64 bits. The masks of the
source are read and written bit by bit. -/
namespace RooTesting.InterruptController

abbrev Word := BitVec 64
abbrev Generation := BitVec 32

def kAllocated : Word := 1#64 <<< 0
def kEnabled : Word := 1#64 <<< 1
def kPending : Word := 1#64 <<< 2
def kGenerationShift : ℕ := 32
def kMaxGeneration : Generation := BitVec.allOnes 32

def generation (state : Word) : Generation := (state >>> kGenerationShift).setWidth 32

def stateWithGeneration (generation : Generation) (flags : Word) : Word :=
  (generation.setWidth 64 <<< kGenerationShift) ||| flags

/-- The word of a new registration. -/
def registered (generation : Generation) (initiallyEnabled : Bool) : Word :=
  stateWithGeneration generation (kAllocated ||| if initiallyEnabled then kEnabled else 0)

/-- Allocating the slot can produce a handle that was never used before. -/
def hasUnusedGeneration (state : Word) : Bool := generation state < kMaxGeneration

/-- The slot is registered, enabled and pending. -/
def due (state : Word) : Bool :=
  state &&& (kAllocated ||| kEnabled ||| kPending) = kAllocated ||| kEnabled ||| kPending

def claimed (state : Word) : Word := state &&& ~~~kPending

def allocated (state : Word) : Bool := state &&& kAllocated ≠ 0
def enabled (state : Word) : Bool := state &&& kEnabled ≠ 0
def pending (state : Word) : Bool := state &&& kPending ≠ 0

section Flags

theorem getLsbD_mask {i : ℕ} (hi : i < 64) (j : ℕ) : (1#64 <<< i).getLsbD j = decide (j = i) := by
  rw [BitVec.getLsbD_shiftLeft, BitVec.getLsbD_one]
  by_cases h : j = i
  · subst h
    simp [hi]
  · have : ¬(j - i = 0 ∧ ¬j < i) := by omega
    simp only [h, decide_false]
    by_cases hj : j < i <;> simp_all

theorem and_mask_ne_zero {i : ℕ} (hi : i < 64) (state : Word) :
    (state &&& (1#64 <<< i) ≠ 0) ↔ state.getLsbD i = true := by
  constructor
  · intro h
    by_contra hbit
    refine h (BitVec.eq_of_getLsbD_eq fun j hj => ?_)
    rw [BitVec.getLsbD_and, getLsbD_mask hi]
    by_cases hji : j = i
    · subst hji
      simp_all
    · simp [hji]
  · intro hbit h
    have hat := congrArg (·.getLsbD i) h
    simp [BitVec.getLsbD_and, getLsbD_mask hi, hbit] at hat

theorem allocated_eq (state : Word) : allocated state = state.getLsbD 0 := by
  rw [Bool.eq_iff_iff, allocated, decide_eq_true_iff]
  exact and_mask_ne_zero (by omega) state

theorem enabled_eq (state : Word) : enabled state = state.getLsbD 1 := by
  rw [Bool.eq_iff_iff, enabled, decide_eq_true_iff]
  exact and_mask_ne_zero (by omega) state

theorem pending_eq (state : Word) : pending state = state.getLsbD 2 := by
  rw [Bool.eq_iff_iff, pending, decide_eq_true_iff]
  exact and_mask_ne_zero (by omega) state

theorem getLsbD_or_mask {i : ℕ} (hi : i < 64) (state : Word) (j : ℕ) :
    (state ||| (1#64 <<< i)).getLsbD j = (state.getLsbD j || decide (j = i)) := by
  rw [BitVec.getLsbD_or, getLsbD_mask hi]

theorem getLsbD_and_not_mask {i : ℕ} (hi : i < 64) (state : Word) (j : ℕ) :
    (state &&& ~~~(1#64 <<< i)).getLsbD j = (state.getLsbD j && decide (j ≠ i)) := by
  rw [BitVec.getLsbD_and, BitVec.getLsbD_not, getLsbD_mask hi]
  by_cases hj : j < 64
  · simp [hj]
  · simp [BitVec.getLsbD_of_ge state j (by omega)]

theorem due_eq (state : Word) :
    due state = (allocated state && enabled state && pending state) := by
  have hmask : ∀ j, (kAllocated ||| kEnabled ||| kPending).getLsbD j =
      (decide (j = 0) || decide (j = 1) || decide (j = 2)) := by
    intro j
    rw [kPending, kEnabled, kAllocated, getLsbD_or_mask (by omega), getLsbD_or_mask (by omega),
      getLsbD_mask (by omega)]
  rw [Bool.eq_iff_iff, due, decide_eq_true_iff, allocated_eq, enabled_eq, pending_eq]
  simp only [Bool.and_eq_true]
  constructor
  · intro h
    have hbit : ∀ j, j < 3 → state.getLsbD j = true := by
      intro j hj
      have hat := congrArg (·.getLsbD j) h
      simp only [BitVec.getLsbD_and, hmask] at hat
      have hlow : (decide (j = 0) || decide (j = 1) || decide (j = 2)) = true := by
        obtain rfl | rfl | rfl : j = 0 ∨ j = 1 ∨ j = 2 := by omega
        all_goals rfl
      rwa [hlow, Bool.and_true] at hat
    exact ⟨⟨hbit 0 (by omega), hbit 1 (by omega)⟩, hbit 2 (by omega)⟩
  · rintro ⟨⟨h0, h1⟩, h2⟩
    refine BitVec.eq_of_getLsbD_eq fun j _ => ?_
    rw [BitVec.getLsbD_and, hmask]
    by_cases hj : j = 0 ∨ j = 1 ∨ j = 2
    · rcases hj with rfl | rfl | rfl <;> simp [*]
    · simp only [not_or] at hj
      simp [hj]

theorem getLsbD_generation {state : Word} {j : ℕ} (hj : j < 32) :
    (generation state).getLsbD j = state.getLsbD (32 + j) := by
  simp [generation, kGenerationShift, hj]

theorem generation_congr {state state' : Word}
    (h : ∀ j, 32 ≤ j → state.getLsbD j = state'.getLsbD j) : generation state = generation state' := by
  refine BitVec.eq_of_getLsbD_eq fun j hj => ?_
  rw [getLsbD_generation hj, getLsbD_generation hj]
  exact h _ (by omega)

end Flags

section Updates

variable (state : Word)

theorem or_mask_spec {i : ℕ} (hi : i < 3) :
    generation (state ||| (1#64 <<< i)) = generation state ∧
      allocated (state ||| (1#64 <<< i)) = (allocated state || decide (0 = i)) ∧
      enabled (state ||| (1#64 <<< i)) = (enabled state || decide (1 = i)) ∧
      pending (state ||| (1#64 <<< i)) = (pending state || decide (2 = i)) := by
  refine ⟨generation_congr fun j hj => ?_, ?_, ?_, ?_⟩
  · rw [getLsbD_or_mask (by omega)]
    simp [show j ≠ i by omega]
  · rw [allocated_eq, allocated_eq, getLsbD_or_mask (by omega)]
  · rw [enabled_eq, enabled_eq, getLsbD_or_mask (by omega)]
  · rw [pending_eq, pending_eq, getLsbD_or_mask (by omega)]

theorem and_not_mask_spec {i : ℕ} (hi : i < 3) :
    generation (state &&& ~~~(1#64 <<< i)) = generation state ∧
      allocated (state &&& ~~~(1#64 <<< i)) = (allocated state && decide (0 ≠ i)) ∧
      enabled (state &&& ~~~(1#64 <<< i)) = (enabled state && decide (1 ≠ i)) ∧
      pending (state &&& ~~~(1#64 <<< i)) = (pending state && decide (2 ≠ i)) := by
  refine ⟨generation_congr fun j hj => ?_, ?_, ?_, ?_⟩
  · rw [getLsbD_and_not_mask (by omega)]
    simp [show j ≠ i by omega]
  · rw [allocated_eq, allocated_eq, getLsbD_and_not_mask (by omega)]
  · rw [enabled_eq, enabled_eq, getLsbD_and_not_mask (by omega)]
  · rw [pending_eq, pending_eq, getLsbD_and_not_mask (by omega)]

theorem claimed_spec : generation (claimed state) = generation state ∧
    allocated (claimed state) = allocated state ∧ pending (claimed state) = false := by
  obtain ⟨hgeneration, hallocated, -, hpending⟩ := and_not_mask_spec state (i := 2) (by omega)
  exact ⟨hgeneration, hallocated.trans (Bool.and_true _), hpending.trans (Bool.and_false _)⟩

theorem stateWithGeneration_spec (g : Generation) {flags : Word}
    (hflags : ∀ j, 3 ≤ j → flags.getLsbD j = false) :
    generation (stateWithGeneration g flags) = g ∧
      allocated (stateWithGeneration g flags) = allocated flags ∧
      pending (stateWithGeneration g flags) = pending flags := by
  have hlow : ∀ j, j < 32 → (stateWithGeneration g flags).getLsbD j = flags.getLsbD j := by
    intro j hj
    simp [stateWithGeneration, kGenerationShift, hj]
  refine ⟨BitVec.eq_of_getLsbD_eq fun j hj => ?_, ?_, ?_⟩
  · rw [getLsbD_generation hj]
    rw [stateWithGeneration, BitVec.getLsbD_or, hflags (32 + j) (by omega), Bool.or_false]
    simp [kGenerationShift, hj, show 32 + j < 64 by omega]
  · rw [allocated_eq, allocated_eq, hlow 0 (by omega)]
  · rw [pending_eq, pending_eq, hlow 2 (by omega)]

end Updates

end RooTesting.InterruptController
