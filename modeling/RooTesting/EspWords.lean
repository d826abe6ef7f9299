import RooTesting.InterruptWords

/-! # The words of the ESP interrupt adapter

A vector's publication is a flag under an epoch of 63 bits, a record's state three flags
under an epoch of 61 bits. An epoch at its maximum retires the position for good. -/
namespace RooTesting.EspInterrupts
open InterruptController

def kVectorPublished : Word := 1#64 <<< 0
def kVectorEpochShift : ℕ := 1
def kMaxVectorEpoch : Word := BitVec.allOnes 64 >>> kVectorEpochShift

def kRecordPublished : Word := 1#64 <<< 0
def kRecordEnabled : Word := 1#64 <<< 1
def kRecordMatched : Word := 1#64 <<< 2
def kRecordEpochShift : ℕ := 3
def kMaxRecordEpoch : Word := BitVec.allOnes 64 >>> kRecordEpochShift

def vectorEpoch (publication : Word) : Word := publication >>> kVectorEpochShift

def publishedVectorEpoch (epoch : Word) : Word := (epoch <<< kVectorEpochShift) ||| kVectorPublished

def nextVectorEpoch (publication : Word) : Option Word :=
  let epoch := vectorEpoch publication
  if kMaxVectorEpoch ≤ epoch then none else some (epoch + 1)

def recordEpoch (state : Word) : Word := state >>> kRecordEpochShift

def recordState (epoch flags : Word) : Word := (epoch <<< kRecordEpochShift) ||| flags

def nextRecordEpoch (state : Word) : Option Word :=
  let epoch := recordEpoch state
  if kMaxRecordEpoch ≤ epoch then none else some (epoch + 1)

def isVectorPublished (publication : Word) : Bool := publication &&& kVectorPublished ≠ 0
def isRecordPublished (state : Word) : Bool := state &&& kRecordPublished ≠ 0
def isRecordEnabled (state : Word) : Bool := state &&& kRecordEnabled ≠ 0
def isRecordMatched (state : Word) : Bool := state &&& kRecordMatched ≠ 0

/-- The publication of a vector that is taken back. -/
def unpublished (publication : Word) : Word :=
  publishedVectorEpoch (vectorEpoch publication) &&& ~~~kVectorPublished

/-- The flags of a new record. -/
def newRecordFlags (enabled : Bool) : Word :=
  kRecordPublished ||| if enabled then kRecordEnabled else 0

section Bits

theorem isVectorPublished_eq (publication : Word) :
    isVectorPublished publication = publication.getLsbD 0 := by
  rw [Bool.eq_iff_iff, isVectorPublished, decide_eq_true_iff]
  exact and_mask_ne_zero (by omega) publication

theorem isRecordPublished_eq (state : Word) : isRecordPublished state = state.getLsbD 0 := by
  rw [Bool.eq_iff_iff, isRecordPublished, decide_eq_true_iff]
  exact and_mask_ne_zero (by omega) state

theorem isRecordEnabled_eq (state : Word) : isRecordEnabled state = state.getLsbD 1 := by
  rw [Bool.eq_iff_iff, isRecordEnabled, decide_eq_true_iff]
  exact and_mask_ne_zero (by omega) state

theorem isRecordMatched_eq (state : Word) : isRecordMatched state = state.getLsbD 2 := by
  rw [Bool.eq_iff_iff, isRecordMatched, decide_eq_true_iff]
  exact and_mask_ne_zero (by omega) state

/-- Bits under the shift do not reach the epoch. -/
theorem ushiftRight_congr {shift : ℕ} {word word' : Word}
    (h : ∀ j, shift ≤ j → word.getLsbD j = word'.getLsbD j) : word >>> shift = word' >>> shift := by
  apply BitVec.eq_of_getLsbD_eq
  intro j hj
  rw [BitVec.getLsbD_ushiftRight, BitVec.getLsbD_ushiftRight]
  exact h _ (by omega)

/-- An epoch that fits comes back from its word. -/
theorem ushiftRight_shiftLeft_or {shift : ℕ} {epoch flags : Word}
    (hepoch : epoch ≤ BitVec.allOnes 64 >>> shift)
    (hflags : ∀ j, shift ≤ j → flags.getLsbD j = false) :
    ((epoch <<< shift) ||| flags) >>> shift = epoch := by
  apply BitVec.eq_of_getLsbD_eq
  intro j hj
  rw [BitVec.getLsbD_ushiftRight, BitVec.getLsbD_or, hflags (shift + j) (by omega), Bool.or_false,
    BitVec.getLsbD_shiftLeft, Nat.add_sub_cancel_left]
  by_cases hfits : shift + j < 64
  · simp [hfits]
  · have hbound : epoch.toNat < 2 ^ j := by
      have hle := BitVec.le_def.mp hepoch
      rw [BitVec.toNat_ushiftRight, BitVec.toNat_allOnes, Nat.shiftRight_eq_div_pow] at hle
      have hdiv : (2 ^ 64 - 1) / 2 ^ shift < 2 ^ j := by
        rw [Nat.div_lt_iff_lt_mul (Nat.two_pow_pos shift), ← Nat.pow_add]
        have : 2 ^ 64 ≤ 2 ^ (j + shift) := Nat.pow_le_pow_right (by omega) (by omega)
        omega
      omega
    have hbit : epoch.getLsbD j = false := by
      rw [BitVec.getLsbD, Nat.testBit_lt_two_pow hbound]
    simp [hfits, hbit]

end Bits

section Vectors

variable {publication epoch : Word}

theorem nextVectorEpoch_eq_some :
    nextVectorEpoch publication = some epoch ↔
      vectorEpoch publication < kMaxVectorEpoch ∧ epoch = vectorEpoch publication + 1 := by
  rw [nextVectorEpoch]
  by_cases h : kMaxVectorEpoch ≤ vectorEpoch publication
  · simp [h, BitVec.not_lt.mpr h]
  · simp [h, BitVec.not_le.mp h, eq_comm]

/-- An epoch under a maximum that has room is its predecessor plus one as a number. -/
theorem succ_spec {old max : Word} (h : old < max) : old < old + 1 ∧ old + 1 ≤ max := by
  have hlt := BitVec.lt_def.mp h
  have hadd : (old + 1).toNat = old.toNat + 1 := by
    rw [BitVec.toNat_add]
    have := max.isLt
    exact Nat.mod_eq_of_lt (by change old.toNat + 1 < _; omega)
  rw [BitVec.lt_def, BitVec.le_def, hadd]
  omega

theorem publishedVectorEpoch_spec (hepoch : epoch ≤ kMaxVectorEpoch) :
    vectorEpoch (publishedVectorEpoch epoch) = epoch ∧
      isVectorPublished (publishedVectorEpoch epoch) = true := by
  constructor
  · apply ushiftRight_shiftLeft_or hepoch
    intro j hj
    rw [kVectorPublished, getLsbD_mask (by omega)]
    simp only [decide_eq_false_iff_not]
    change 1 ≤ j at hj
    omega
  · rw [isVectorPublished_eq, publishedVectorEpoch, kVectorPublished, getLsbD_or_mask (by omega)]
    simp

theorem vectorEpoch_le (publication : Word) : vectorEpoch publication ≤ kMaxVectorEpoch := by
  rw [vectorEpoch, kMaxVectorEpoch, BitVec.le_def, BitVec.toNat_ushiftRight,
    BitVec.toNat_ushiftRight, BitVec.toNat_allOnes]
  rw [Nat.shiftRight_eq_div_pow, Nat.shiftRight_eq_div_pow]
  have := publication.isLt
  exact Nat.div_le_div_right (by omega)

theorem unpublished_spec (publication : Word) :
    vectorEpoch (unpublished publication) = vectorEpoch publication ∧
      isVectorPublished (unpublished publication) = false := by
  constructor
  · have hsame : vectorEpoch (unpublished publication) =
        vectorEpoch (publishedVectorEpoch (vectorEpoch publication)) := by
      apply ushiftRight_congr
      intro j hj
      rw [unpublished, kVectorPublished, getLsbD_and_not_mask (by omega)]
      change 1 ≤ j at hj
      simp [show j ≠ 0 by omega]
    rw [hsame]
    exact (publishedVectorEpoch_spec (vectorEpoch_le publication)).1
  · rw [isVectorPublished_eq, unpublished, kVectorPublished, getLsbD_and_not_mask (by omega)]
    simp

end Vectors

section Records

variable {state epoch : Word}

theorem nextRecordEpoch_eq_some :
    nextRecordEpoch state = some epoch ↔
      recordEpoch state < kMaxRecordEpoch ∧ epoch = recordEpoch state + 1 := by
  rw [nextRecordEpoch]
  by_cases h : kMaxRecordEpoch ≤ recordEpoch state
  · simp [h, BitVec.not_lt.mpr h]
  · simp [h, BitVec.not_le.mp h, eq_comm]

theorem recordEpoch_le (state : Word) : recordEpoch state ≤ kMaxRecordEpoch := by
  rw [recordEpoch, kMaxRecordEpoch, BitVec.le_def, BitVec.toNat_ushiftRight,
    BitVec.toNat_ushiftRight, BitVec.toNat_allOnes]
  rw [Nat.shiftRight_eq_div_pow, Nat.shiftRight_eq_div_pow]
  have := state.isLt
  exact Nat.div_le_div_right (by omega)

/-- Flags in the low three bits and an epoch that fits are all read back. -/
theorem recordState_spec {flags : Word} (hepoch : epoch ≤ kMaxRecordEpoch)
    (hflags : ∀ j, 3 ≤ j → flags.getLsbD j = false) :
    recordEpoch (recordState epoch flags) = epoch ∧
      isRecordPublished (recordState epoch flags) = flags.getLsbD 0 ∧
      isRecordEnabled (recordState epoch flags) = flags.getLsbD 1 ∧
      isRecordMatched (recordState epoch flags) = flags.getLsbD 2 := by
  have hlow : ∀ j, j < 3 → (recordState epoch flags).getLsbD j = flags.getLsbD j := by
    intro j hj
    simp [recordState, kRecordEpochShift, hj]
  refine ⟨ushiftRight_shiftLeft_or hepoch hflags, ?_, ?_, ?_⟩
  · rw [isRecordPublished_eq, hlow 0 (by omega)]
  · rw [isRecordEnabled_eq, hlow 1 (by omega)]
  · rw [isRecordMatched_eq, hlow 2 (by omega)]

theorem newRecordFlags_bit (enabled : Bool) (j : ℕ) :
    (newRecordFlags enabled).getLsbD j = (decide (j = 0) || (enabled && decide (j = 1))) := by
  rw [newRecordFlags, kRecordPublished, BitVec.getLsbD_or, getLsbD_mask (by omega)]
  cases enabled with
  | false => simp
  | true =>
    rw [if_pos rfl, kRecordEnabled, getLsbD_mask (by omega), Bool.true_and]

theorem newRecord_spec (hepoch : epoch ≤ kMaxRecordEpoch) (enabled : Bool) :
    recordEpoch (recordState epoch (newRecordFlags enabled)) = epoch ∧
      isRecordPublished (recordState epoch (newRecordFlags enabled)) = true ∧
      isRecordEnabled (recordState epoch (newRecordFlags enabled)) = enabled ∧
      isRecordMatched (recordState epoch (newRecordFlags enabled)) = false := by
  have hflags : ∀ j, 3 ≤ j → (newRecordFlags enabled).getLsbD j = false := by
    intro j hj
    rw [newRecordFlags_bit]
    simp [show j ≠ 0 by omega, show j ≠ 1 by omega]
  obtain ⟨h, hpublished, henabled, hmatched⟩ := recordState_spec hepoch hflags
  simp only [newRecordFlags_bit] at hpublished henabled hmatched
  exact ⟨h, hpublished, by simpa using henabled, by simpa using hmatched⟩

theorem freedRecord_spec (state : Word) :
    recordEpoch (recordState (recordEpoch state) 0) = recordEpoch state ∧
      isRecordPublished (recordState (recordEpoch state) 0) = false ∧
      isRecordMatched (recordState (recordEpoch state) 0) = false := by
  obtain ⟨h, hpublished, -, hmatched⟩ :=
    recordState_spec (recordEpoch_le state) (fun j (_ : 3 ≤ j) => BitVec.getLsbD_zero (i := j))
  exact ⟨h, by simpa using hpublished, by simpa using hmatched⟩

theorem record_or_mask_spec (state : Word) {i : ℕ} (hi : i < 3) :
    recordEpoch (state ||| (1#64 <<< i)) = recordEpoch state ∧
      isRecordPublished (state ||| (1#64 <<< i)) = (isRecordPublished state || decide (0 = i)) ∧
      isRecordEnabled (state ||| (1#64 <<< i)) = (isRecordEnabled state || decide (1 = i)) ∧
      isRecordMatched (state ||| (1#64 <<< i)) = (isRecordMatched state || decide (2 = i)) := by
  refine ⟨ushiftRight_congr fun j hj => ?_, ?_, ?_, ?_⟩
  · change 3 ≤ j at hj
    rw [getLsbD_or_mask (by omega)]
    simp [show j ≠ i by omega]
  · rw [isRecordPublished_eq, isRecordPublished_eq, getLsbD_or_mask (by omega)]
  · rw [isRecordEnabled_eq, isRecordEnabled_eq, getLsbD_or_mask (by omega)]
  · rw [isRecordMatched_eq, isRecordMatched_eq, getLsbD_or_mask (by omega)]

theorem record_and_not_mask_spec (state : Word) {i : ℕ} (hi : i < 3) :
    recordEpoch (state &&& ~~~(1#64 <<< i)) = recordEpoch state ∧
      isRecordPublished (state &&& ~~~(1#64 <<< i)) = (isRecordPublished state && decide (0 ≠ i)) ∧
      isRecordEnabled (state &&& ~~~(1#64 <<< i)) = (isRecordEnabled state && decide (1 ≠ i)) ∧
      isRecordMatched (state &&& ~~~(1#64 <<< i)) = (isRecordMatched state && decide (2 ≠ i)) := by
  refine ⟨ushiftRight_congr fun j hj => ?_, ?_, ?_, ?_⟩
  · change 3 ≤ j at hj
    rw [getLsbD_and_not_mask (by omega)]
    simp [show j ≠ i by omega]
  · rw [isRecordPublished_eq, isRecordPublished_eq, getLsbD_and_not_mask (by omega)]
  · rw [isRecordEnabled_eq, isRecordEnabled_eq, getLsbD_and_not_mask (by omega)]
  · rw [isRecordMatched_eq, isRecordMatched_eq, getLsbD_and_not_mask (by omega)]

end Records

end RooTesting.EspInterrupts
