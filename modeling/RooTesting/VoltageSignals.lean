import Mathlib.Algebra.Group.Int.Defs
import Mathlib.Algebra.Group.Nat.Defs
import Mathlib.Algebra.Order.Floor.Ring
import Mathlib.Data.Rat.Floor
import Mathlib.Tactic.Linarith
import Mathlib.Tactic.Ring

/-! # Voltage signals

The waveforms of `voltage_signal.cpp` with the phase of their carrier. Floating point numbers are
rationals, uptimes are words of 64 bits. -/
namespace RooTesting.Voltage

def kMicrosPerSecond : ℚ := 1000000

def kMaxVoltageSignalDurationMicros : UInt64 := 9007199254740992

/-- The integer part of a number, towards zero. -/
def trunc (x : ℚ) : ℤ := if x < 0 then ⌈x⌉ else ⌊x⌋

/-- `std::fmod`. -/
def fmod (x y : ℚ) : ℚ := x - y * trunc (x / y)

def normalizeCycles (cycles : ℚ) : ℚ :=
  if fmod cycles 1 < 0 then fmod cycles 1 + 1 else fmod cycles 1

def unsignedDistance (lhs rhs : Int64) : UInt64 :=
  if rhs ≤ lhs then lhs.toUInt64 - rhs.toUInt64 else rhs.toUInt64 - lhs.toUInt64

structure PeriodicVoltageCarrier where
  lowVoltage : ℚ
  highVoltage : ℚ
  frequencyHz : ℚ
  carrierOriginUptimeUs : Int64

inductive SawtoothDirection where
  | rising | falling

inductive DutyProfile where
  | constant (duty : ℚ)
  | linearFade (startDuty targetDuty : ℚ) (fadeStartUptimeUs : Int64) (durationUs : UInt64)

inductive VoltageSignalSpec where
  | constant (voltage : ℚ)
  | sine (carrier : PeriodicVoltageCarrier) (phaseOffsetCycles : ℚ)
  | triangle (carrier : PeriodicVoltageCarrier) (phaseOffsetCycles : ℚ)
  | sawtooth (carrier : PeriodicVoltageCarrier) (phaseOffsetCycles : ℚ)
      (direction : SawtoothDirection)
  | square (carrier : PeriodicVoltageCarrier) (duty : DutyProfile) (pulseStartPhaseCycles : ℚ)
      (inverted : Bool)

/-- The accumulation of a product modulo one cycle, by doubling. -/
def accumulate (delta addend : ℚ) (distance : ℕ) : ℚ :=
  if distance = 0 then delta
  else
    accumulate (if distance % 2 ≠ 0 then normalizeCycles (delta + addend) else delta)
      (normalizeCycles (addend + addend)) (distance / 2)
  termination_by distance
  decreasing_by omega

/-- `CarrierPhase`. -/
def carrierPhase (carrier : PeriodicVoltageCarrier) (offset : ℚ) (uptimeUs : Int64) : ℚ :=
  if uptimeUs = carrier.carrierOriginUptimeUs then offset
  else
    let addend := fmod carrier.frequencyHz kMicrosPerSecond / kMicrosPerSecond
    let distance := unsignedDistance uptimeUs carrier.carrierOriginUptimeUs
    let delta := accumulate 0 addend distance.toNat
    normalizeCycles
      (offset + if carrier.carrierOriginUptimeUs < uptimeUs then delta else -delta)

/-- What the factories check of a carrier. -/
def PeriodicVoltageCarrier.Valid (c : PeriodicVoltageCarrier) : Prop :=
  c.lowVoltage ≤ c.highVoltage ∧ 0 < c.frequencyHz

def ValidDuty (duty : ℚ) : Prop := 0 ≤ duty ∧ duty ≤ 1

def DutyProfile.Valid : DutyProfile → Prop
  | .constant duty => ValidDuty duty
  | .linearFade startDuty targetDuty _ durationUs =>
    ValidDuty startDuty ∧ ValidDuty targetDuty ∧ durationUs ≤ kMaxVoltageSignalDurationMicros

/-- A normalized phase. -/
def Normalized (cycles : ℚ) : Prop := 0 ≤ cycles ∧ cycles < 1

def VoltageSignalSpec.Valid : VoltageSignalSpec → Prop
  | .constant _ => True
  | .sine carrier offset | .triangle carrier offset | .sawtooth carrier offset _ =>
    carrier.Valid ∧ Normalized offset
  | .square carrier duty pulseStart _ => carrier.Valid ∧ duty.Valid ∧ Normalized pulseStart

instance decidableCarrierValid (c : PeriodicVoltageCarrier) : Decidable c.Valid :=
  inferInstanceAs (Decidable (_ ∧ _))

instance decidableValidDuty (duty : ℚ) : Decidable (ValidDuty duty) :=
  inferInstanceAs (Decidable (_ ∧ _))

instance decidableDutyValid : (profile : DutyProfile) → Decidable profile.Valid
  | .constant duty => decidableValidDuty duty
  | .linearFade _ _ _ _ => inferInstanceAs (Decidable (_ ∧ _ ∧ _))

/-- A signal holds a specification that its factory has checked and normalized. -/
structure VoltageSignal where
  spec : VoltageSignalSpec
  valid : spec.Valid

section Phases

theorem normalizeCycles_eq (cycles : ℚ) : normalizeCycles cycles = Int.fract cycles := by
  have hfmod : fmod cycles 1 = cycles - trunc cycles := by
    rw [fmod, div_one, one_mul]
  refine (Int.fract_eq_iff.mpr ?_).symm
  unfold normalizeCycles
  rw [hfmod, trunc]
  by_cases hneg : cycles < 0
  · have hle := Int.le_ceil cycles
    have hlt := Int.ceil_lt_add_one cycles
    rw [if_pos hneg]
    split
    · refine ⟨by linarith, by linarith, ⌈cycles⌉ - 1, ?_⟩
      push_cast
      ring
    · exact ⟨by linarith, by linarith, ⌈cycles⌉, by ring⟩
  · have hle := Int.floor_le cycles
    have hlt := Int.lt_floor_add_one cycles
    rw [if_neg hneg, if_neg (by linarith)]
    exact ⟨by linarith, by linarith, ⌊cycles⌋, by ring⟩

theorem normalized_fract (cycles : ℚ) : Normalized (Int.fract cycles) :=
  ⟨Int.fract_nonneg cycles, Int.fract_lt_one cycles⟩

theorem normalized_normalizeCycles (cycles : ℚ) : Normalized (normalizeCycles cycles) := by
  rw [normalizeCycles_eq]
  exact normalized_fract cycles

theorem Normalized.fract {cycles : ℚ} (h : Normalized cycles) : Int.fract cycles = cycles :=
  Int.fract_eq_self.mpr h

/-- Whole cycles do not count. -/
theorem fract_congr {a b : ℚ} (z : ℤ) (h : a = b + z) : Int.fract a = Int.fract b := by
  rw [h, Int.fract_add_intCast]

/-- The unsigned subtraction of the smaller uptime is their distance, whatever their signs. -/
theorem toNat_unsignedDistance (lhs rhs : Int64) :
    (unsignedDistance lhs rhs).toNat = (lhs.toInt - rhs.toInt).natAbs := by
  have hlhs : lhs.toUInt64.toNat = lhs.toBitVec.toNat := rfl
  have hrhs : rhs.toUInt64.toNat = rhs.toBitVec.toNat := rfl
  have hl : lhs.toInt = lhs.toBitVec.toInt := rfl
  have hr : rhs.toInt = rhs.toBitVec.toInt := rfl
  have hlsize := lhs.toBitVec.isLt
  have hrsize := rhs.toBitVec.isLt
  rw [BitVec.toInt_eq_toNat_cond] at hl hr
  unfold unsignedDistance
  split
  · rename_i hle
    rw [Int64.le_iff_toInt_le] at hle
    rw [UInt64.toNat_sub, hlhs, hrhs]
    split at hl <;> split at hr <;> omega
  · rename_i hlt
    rw [Int64.le_iff_toInt_le] at hlt
    rw [UInt64.toNat_sub, hlhs, hrhs]
    split at hl <;> split at hr <;> omega

/-- One turn of the loop adds the addend if the bit is set, and the rest is twice the half. -/
theorem fract_accumulate (delta addend : ℚ) (distance : ℕ) :
    Int.fract (accumulate delta addend distance) = Int.fract (delta + distance * addend) := by
  induction distance using Nat.strong_induction_on generalizing delta addend with
  | _ distance ih =>
    rw [accumulate]
    split
    · rename_i hzero
      rw [hzero, Nat.cast_zero, zero_mul, add_zero]
    · rename_i hne
      rw [ih (distance / 2) (by omega), normalizeCycles_eq, normalizeCycles_eq,
        Int.fract.eq_1 (addend + addend)]
      obtain ⟨half, hdistance⟩ : ∃ half, half = distance / 2 := ⟨_, rfl⟩
      rw [← hdistance]
      split
      · have hodd : distance = 2 * half + 1 := by omega
        rw [hodd, Int.fract.eq_1 (delta + addend)]
        refine fract_congr (-⌊delta + addend⌋ - half * ⌊addend + addend⌋) ?_
        push_cast
        ring
      · have heven : distance = 2 * half := by omega
        rw [heven]
        refine fract_congr (-(half * ⌊addend + addend⌋)) ?_
        push_cast
        ring

/-- The loop of a carrier adds up its cycles, but for whole ones. -/
theorem accumulate_cycles (frequencyHz : ℚ) (distance : ℕ) :
    ∃ z : ℤ, accumulate 0 (fmod frequencyHz kMicrosPerSecond / kMicrosPerSecond) distance
      = frequencyHz * distance / 1000000 + z := by
  obtain ⟨z, hz⟩ := Int.fract_eq_fract.mp
    (fract_accumulate 0 (fmod frequencyHz kMicrosPerSecond / kMicrosPerSecond) distance)
  refine ⟨z - distance * trunc (frequencyHz / kMicrosPerSecond), ?_⟩
  rw [sub_eq_iff_eq_add.mp hz, fmod, kMicrosPerSecond]
  push_cast
  ring

/-- The exact number of cycles between the origin of a carrier and an uptime. -/
def PeriodicVoltageCarrier.cycles (carrier : PeriodicVoltageCarrier) (uptimeUs : Int64) : ℚ :=
  carrier.frequencyHz * ((uptimeUs.toInt - carrier.carrierOriginUptimeUs.toInt : ℤ) : ℚ) / 1000000

theorem cycles_origin (carrier : PeriodicVoltageCarrier) :
    carrier.cycles carrier.carrierOriginUptimeUs = 0 := by
  rw [PeriodicVoltageCarrier.cycles, sub_self, Int.cast_zero, mul_zero, zero_div]

/-- Away from the origin the phase is exact for any offset. -/
theorem carrierPhase_away {carrier : PeriodicVoltageCarrier} {uptimeUs : Int64}
    (h : uptimeUs ≠ carrier.carrierOriginUptimeUs) (offset : ℚ) :
    carrierPhase carrier offset uptimeUs = Int.fract (offset + carrier.cycles uptimeUs) := by
  obtain ⟨z, hz⟩ := accumulate_cycles carrier.frequencyHz
    (uptimeUs.toInt - carrier.carrierOriginUptimeUs.toInt).natAbs
  rw [carrierPhase, if_neg h, normalizeCycles_eq, toNat_unsignedDistance]
  rw [hz, PeriodicVoltageCarrier.cycles]
  split
  · rename_i hlt
    rw [Int64.lt_iff_toInt_lt] at hlt
    rw [← Int.cast_natCast, Int.natAbs_of_nonneg (by omega)]
    exact fract_congr z (by ring)
  · rename_i hle
    rw [Int64.lt_iff_toInt_lt] at hle
    rw [← Int.cast_natCast, Int.ofNat_natAbs_of_nonpos (by omega)]
    refine fract_congr (-z) ?_
    push_cast
    ring

/-- At the origin the phase is the offset as it is. -/
theorem carrierPhase_origin (carrier : PeriodicVoltageCarrier) (offset : ℚ) :
    carrierPhase carrier offset carrier.carrierOriginUptimeUs = offset :=
  if_pos rfl

theorem carrierPhase_eq (carrier : PeriodicVoltageCarrier) {offset : ℚ} (h : Normalized offset)
    (uptimeUs : Int64) :
    carrierPhase carrier offset uptimeUs = Int.fract (offset + carrier.cycles uptimeUs) := by
  by_cases horigin : uptimeUs = carrier.carrierOriginUptimeUs
  · rw [horigin, carrierPhase_origin, cycles_origin, add_zero, h.fract]
  · exact carrierPhase_away horigin offset

theorem carrierPhase_normalized (carrier : PeriodicVoltageCarrier) {offset : ℚ}
    (h : Normalized offset) (uptimeUs : Int64) :
    Normalized (carrierPhase carrier offset uptimeUs) := by
  rw [carrierPhase_eq carrier h]
  exact normalized_fract _

/-- The phase of a carrier is exact whenever its offset is normalized, as every factory stores it,
or the uptime is not the origin; the distance of the uptimes never overflows. -/
theorem carrierPhase_exact (carrier : PeriodicVoltageCarrier) (uptimeUs : Int64) :
    (unsignedDistance uptimeUs carrier.carrierOriginUptimeUs).toNat
      = (uptimeUs.toInt - carrier.carrierOriginUptimeUs.toInt).natAbs ∧
    (∀ offset, Normalized offset ∨ uptimeUs ≠ carrier.carrierOriginUptimeUs →
      carrierPhase carrier offset uptimeUs = Int.fract (offset + carrier.frequencyHz *
        ((uptimeUs.toInt - carrier.carrierOriginUptimeUs.toInt : ℤ) : ℚ) / 1000000) ∧
      0 ≤ carrierPhase carrier offset uptimeUs ∧ carrierPhase carrier offset uptimeUs < 1) ∧
    (∀ phaseCycles,
      carrierPhase carrier (normalizeCycles phaseCycles) uptimeUs = Int.fract (phaseCycles +
        carrier.frequencyHz *
          ((uptimeUs.toInt - carrier.carrierOriginUptimeUs.toInt : ℤ) : ℚ) / 1000000)) := by
  refine ⟨toNat_unsignedDistance _ _, fun offset h => ?_, fun phaseCycles => ?_⟩
  · have heq : carrierPhase carrier offset uptimeUs
        = Int.fract (offset + carrier.cycles uptimeUs) := by
      rcases h with h | h
      · exact carrierPhase_eq carrier h uptimeUs
      · exact carrierPhase_away h offset
    refine ⟨heq, ?_⟩
    rw [heq]
    exact normalized_fract _
  · rw [carrierPhase_eq carrier (normalized_normalizeCycles phaseCycles), normalizeCycles_eq]
    refine fract_congr (-⌊phaseCycles⌋) ?_
    rw [Int.fract, PeriodicVoltageCarrier.cycles]
    push_cast
    ring

/-- A triangle wave of one hertz with an offset of a quarter cycle, half a second on. -/
theorem carrierPhase_exact_quarter :
    carrierPhase ⟨0, 1, 1, 0⟩ (1 / 4) 500000 = Int.fract (1 / 4 + 1 *
      (((500000 : Int64).toInt - (0 : Int64).toInt : ℤ) : ℚ) / 1000000) ∧
    0 ≤ carrierPhase ⟨0, 1, 1, 0⟩ (1 / 4) 500000 ∧ carrierPhase ⟨0, 1, 1, 0⟩ (1 / 4) 500000 < 1 :=
  (carrierPhase_exact ⟨0, 1, 1, 0⟩ 500000).2.1 (1 / 4) (.inr (by decide))

/-- An offset that no factory has normalized comes back from the origin as it is. -/
theorem raw_offset :
    carrierPhase ⟨0, 1, 1, 0⟩ (3 / 2) 0 = 3 / 2 ∧
    carrierPhase ⟨0, 1, 1, 0⟩ (3 / 2) 0 ≠ Int.fract ((3 / 2 : ℚ) + 1 *
      (((0 : Int64).toInt - (0 : Int64).toInt : ℤ) : ℚ) / 1000000) := by
  have heq : carrierPhase ⟨0, 1, 1, 0⟩ (3 / 2) 0 = 3 / 2 := carrierPhase_origin ⟨0, 1, 1, 0⟩ _
  refine ⟨heq, fun h => ?_⟩
  have hlt := Int.fract_lt_one ((3 / 2 : ℚ) + 1 *
    (((0 : Int64).toInt - (0 : Int64).toInt : ℤ) : ℚ) / 1000000)
  rw [← h, heq] at hlt
  exact absurd hlt (by decide +kernel)

end Phases

end RooTesting.Voltage
