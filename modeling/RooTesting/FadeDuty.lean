import RooTesting.FadeEngine
import Mathlib.Algebra.Order.Floor.Ring
import Mathlib.Data.Rat.Floor
import Mathlib.Tactic.FieldSimp
import Mathlib.Tactic.Linarith
import Mathlib.Tactic.Positivity
import Mathlib.Tactic.Ring

/-! # The duty of a signal

The duty of a fading signal at an uptime, in whole ticks of its timer, is the integer
interpolation of the engine when it is rounded towards the duty the fade began with. -/
namespace RooTesting.FadeEngine

/-- `ActiveDuty`. -/
def DutyProfile.activeDuty (uptimeUs : ℤ) : DutyProfile → ℚ
  | .constant duty => duty
  | .linearFade startDuty targetDuty fadeStartUs durationUs =>
    if uptimeUs < fadeStartUs then startDuty
    else if durationUs = 0 then targetDuty
    else
      let elapsed := (uptimeUs - fadeStartUs).toNat
      if durationUs ≤ elapsed then targetDuty
      else startDuty + (targetDuty - startDuty) * elapsed / durationUs

/-- The active duty in whole ticks, rounded towards the start of a fade. -/
def DutyProfile.ticks (period : ℕ) (uptimeUs : ℤ) (profile : DutyProfile) : ℤ :=
  match profile with
  | .constant _ => ⌊profile.activeDuty uptimeUs * period⌋
  | .linearFade startDuty targetDuty _ _ =>
    if startDuty ≤ targetDuty then ⌊profile.activeDuty uptimeUs * period⌋
    else ⌈profile.activeDuty uptimeUs * period⌉

def VoltageSignal.ticks (period : ℕ) (uptimeUs : ℤ) : VoltageSignal → ℤ
  | .zero => 0
  | .square _ duty _ _ _ => duty.ticks period uptimeUs

theorem ticks_constant {period duty : ℕ} (hperiod : 0 < period) (uptimeUs : ℤ) :
    (DutyProfile.constant (duty / period : ℚ)).ticks period uptimeUs = duty := by
  have hne : (period : ℚ) ≠ 0 := by positivity
  simp [DutyProfile.ticks, DutyProfile.activeDuty, div_mul_cancel₀ _ hne]

/-- How far a fade goes. -/
def Request.distance (r : Request) : ℕ := (r.targetDuty - r.startDuty) + (r.startDuty - r.targetDuty)

/-- No product of the interpolation needs more than 64 bits. -/
def Request.Narrow (r : Request) : Prop := r.distance * r.durationUs ≤ uint64Size

section Materialize

variable {r : Request} {elapsedUs : ℤ}

theorem materialize_before (h : elapsedUs ≤ 0) : materialize r elapsedUs = r.startDuty := by
  unfold materialize
  rw [if_pos (Or.inr h)]

theorem materialize_after (hduration : 0 < r.durationUs) (h : r.durationUs ≤ elapsedUs.toNat) :
    materialize r elapsedUs = r.targetDuty := by
  unfold materialize
  rw [if_neg (by omega), if_pos h]

variable (hduration : 0 < r.durationUs) (hpos : 0 < elapsedUs)
  (hend : elapsedUs.toNat < r.durationUs)

include hduration hpos hend

theorem materialize_rising (h : r.startDuty ≤ r.targetDuty)
    (hwide : r.distance * elapsedUs.toNat < uint64Size) : materialize r elapsedUs =
    r.startDuty + (r.targetDuty - r.startDuty) * elapsedUs.toNat / r.durationUs := by
  have hdistance : r.distance = r.targetDuty - r.startDuty := by
    unfold Request.distance
    omega
  unfold materialize
  rw [if_neg (by omega), if_neg (by omega), if_pos h, Nat.mod_eq_of_lt (hdistance ▸ hwide)]

theorem materialize_falling (h : ¬r.startDuty ≤ r.targetDuty)
    (hwide : r.distance * elapsedUs.toNat < uint64Size) : materialize r elapsedUs =
    r.startDuty - (r.startDuty - r.targetDuty) * elapsedUs.toNat / r.durationUs := by
  have hdistance : r.distance = r.startDuty - r.targetDuty := by
    unfold Request.distance
    omega
  unfold materialize
  rw [if_neg (by omega), if_neg (by omega), if_neg h, Nat.mod_eq_of_lt (hdistance ▸ hwide)]

end Materialize

private theorem scaled_fade {x y q p : ℚ} (hp : p ≠ 0) :
    (x / p + (y / p - x / p) * q) * p = x + (y - x) * q := by
  field_simp

/-- The integer interpolation of the engine is the fade's duty, rounded to its start. -/
theorem ticks_fade (r : Request) (fadeStartUs uptimeUs : ℤ) {scale : ℕ} (hscale : 0 < scale)
    (hduration : 0 < r.durationUs) (hnarrow : r.Narrow) :
    (DutyProfile.linearFade (r.startDuty / scale) (r.targetDuty / scale) fadeStartUs
      r.durationUs).ticks scale uptimeUs = materialize r (uptimeUs - fadeStartUs) := by
  have hne : (scale : ℚ) ≠ 0 := by positivity
  have hpos : (0 : ℚ) < scale := by positivity
  have horder : ((r.startDuty : ℚ) / scale ≤ r.targetDuty / scale) ↔ r.startDuty ≤ r.targetDuty := by
    rw [div_le_div_iff_of_pos_right hpos, Nat.cast_le]
  have hstart : ((r.startDuty : ℚ) / scale) * scale = ((r.startDuty : ℤ) : ℚ) := by
    rw [div_mul_cancel₀ _ hne, Int.cast_natCast]
  have htarget : ((r.targetDuty : ℚ) / scale) * scale = ((r.targetDuty : ℤ) : ℚ) := by
    rw [div_mul_cancel₀ _ hne, Int.cast_natCast]
  simp only [DutyProfile.ticks, DutyProfile.activeDuty, horder]
  by_cases hbefore : uptimeUs < fadeStartUs
  · rw [if_pos hbefore, hstart, materialize_before (by omega)]
    simp
  rw [if_neg hbefore, if_neg (Nat.pos_iff_ne_zero.mp hduration)]
  by_cases hend : r.durationUs ≤ (uptimeUs - fadeStartUs).toNat
  · rw [if_pos hend, htarget, materialize_after hduration hend]
    simp
  rw [if_neg hend, mul_div_assoc, scaled_fade hne]
  by_cases hzero : uptimeUs - fadeStartUs ≤ 0
  · have helapsed : (uptimeUs - fadeStartUs).toNat = 0 := by omega
    rw [materialize_before hzero, helapsed]
    simp
  have hwide : r.distance * (uptimeUs - fadeStartUs).toNat < uint64Size := by
    by_cases hdistance : r.distance = 0
    · rw [hdistance, Nat.zero_mul]
      decide
    · exact (Nat.mul_lt_mul_of_pos_left (by omega) (by omega)).trans_le hnarrow
  by_cases hle : r.startDuty ≤ r.targetDuty
  · rw [if_pos hle, materialize_rising hduration (by omega) (by omega) hle hwide, ← Nat.cast_sub hle,
      ← mul_div_assoc, ← Nat.cast_mul, Int.floor_natCast_add, Rat.floor_natCast_div_natCast]
    simp
  · have hge : r.targetDuty ≤ r.startDuty := by omega
    have hdown : (r.startDuty : ℚ) + (r.targetDuty - r.startDuty) *
        ((uptimeUs - fadeStartUs).toNat / r.durationUs) = -(((r.startDuty - r.targetDuty) *
          (uptimeUs - fadeStartUs).toNat : ℕ) / (r.durationUs : ℚ)) + (r.startDuty : ℕ) := by
      rw [Nat.cast_mul, Nat.cast_sub hge]
      ring
    have hstep : (r.startDuty - r.targetDuty) * (uptimeUs - fadeStartUs).toNat / r.durationUs ≤
        r.startDuty := by
      have hmul : (r.startDuty - r.targetDuty) * (uptimeUs - fadeStartUs).toNat ≤
          r.startDuty * r.durationUs := Nat.mul_le_mul (by omega) (by omega)
      exact Nat.div_le_of_le_mul (by rwa [Nat.mul_comm r.durationUs])
    rw [if_neg hle, materialize_falling hduration (by omega) (by omega) hle hwide, hdown,
      Int.ceil_add_natCast, Int.ceil_neg, Rat.floor_natCast_div_natCast, Nat.cast_sub hstep]
    push_cast
    ring

end RooTesting.FadeEngine
