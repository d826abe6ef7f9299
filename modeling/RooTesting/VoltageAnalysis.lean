import RooTesting.VoltageSignals
import Mathlib.Analysis.Real.Sqrt
import Mathlib.Analysis.SpecialFunctions.Trigonometric.Basic
import Mathlib.Tactic.FieldSimp
import Mathlib.Tactic.Positivity

/-! # Samples and their analysis

A waveform is sampled between its rails by a weight of its own; `AnalyzeVoltage` gives the exact
metrics of the waveform at an uptime. Roots and sines are real. -/
namespace RooTesting.Voltage

/-- `ActiveDuty`. -/
def activeDuty (profile : DutyProfile) (uptimeUs : Int64) : ℚ :=
  match profile with
  | .constant duty => duty
  | .linearFade startDuty targetDuty fadeStartUptimeUs durationUs =>
    if uptimeUs < fadeStartUptimeUs then startDuty
    else if durationUs = 0 then targetDuty
    else
      let elapsed := unsignedDistance uptimeUs fadeStartUptimeUs
      if durationUs ≤ elapsed then targetDuty
      else startDuty + (targetDuty - startDuty) * elapsed.toNat / durationUs.toNat

/-- The fraction of a cycle at the high rail. -/
def highFraction (duty : DutyProfile) (inverted : Bool) (uptimeUs : Int64) : ℚ :=
  if inverted then 1 - activeDuty duty uptimeUs else activeDuty duty uptimeUs

/-- Whether a square wave is at its high rail. -/
def squareHigh (carrier : PeriodicVoltageCarrier) (duty : DutyProfile) (pulseStartCycles : ℚ)
    (inverted : Bool) (uptimeUs : Int64) : Bool :=
  let phase := carrierPhase carrier 0 uptimeUs
  let pulsePhase := normalizeCycles (phase - pulseStartCycles)
  let active := decide (pulsePhase < activeDuty duty uptimeUs)
  if inverted then !active else active

namespace VoltageSignalSpec

/-- The active duty before inversion; only a square wave has one. -/
def activeDutyAtUptimeMicros (uptimeUs : Int64) : VoltageSignalSpec → Option ℚ
  | square _ duty _ _ => some (activeDuty duty uptimeUs)
  | _ => none

noncomputable def voltageAtUptimeMicros (uptimeUs : Int64) : VoltageSignalSpec → ℝ
  | constant voltage => voltage
  | sine carrier phaseOffsetCycles =>
    let phase := carrierPhase carrier phaseOffsetCycles uptimeUs
    let center : ℝ := (carrier.lowVoltage + carrier.highVoltage) / 2
    let amplitude : ℝ := (carrier.highVoltage - carrier.lowVoltage) / 2
    center + amplitude * Real.sin (2 * Real.pi * phase)
  | triangle carrier phaseOffsetCycles =>
    let phase := carrierPhase carrier phaseOffsetCycles uptimeUs
    carrier.lowVoltage +
      (carrier.highVoltage - carrier.lowVoltage) * (1 - |2 * (phase : ℝ) - 1|)
  | sawtooth carrier phaseOffsetCycles direction =>
    let phase := carrierPhase carrier phaseOffsetCycles uptimeUs
    let span : ℝ := carrier.highVoltage - carrier.lowVoltage
    match direction with
    | .rising => carrier.lowVoltage + span * phase
    | .falling => carrier.highVoltage - span * phase
  | square carrier duty pulseStartCycles inverted =>
    if squareHigh carrier duty pulseStartCycles inverted uptimeUs then carrier.highVoltage
    else carrier.lowVoltage

end VoltageSignalSpec

structure VoltageAnalysis where
  dcVoltage : ℝ
  rmsVoltage : ℝ
  acRmsVoltage : ℝ
  minimumVoltage : ℝ
  maximumVoltage : ℝ
  peakToPeakVoltage : ℝ
  absolutePeakVoltage : ℝ
  acPeakVoltage : ℝ

noncomputable def makeAnalysis (dc rms acRms minimum maximum : ℝ) : VoltageAnalysis :=
  ⟨dc, rms, acRms, minimum, maximum, maximum - minimum, max |minimum| |maximum|,
    max (maximum - dc) (dc - minimum)⟩

noncomputable def analyzeVoltage (spec : VoltageSignalSpec) (uptimeUs : Int64) : VoltageAnalysis :=
  match spec with
  | .constant voltage => makeAnalysis voltage |(voltage : ℝ)| 0 voltage voltage
  | .sine carrier _ =>
    let low : ℝ := carrier.lowVoltage
    let high : ℝ := carrier.highVoltage
    let center := (low + high) / 2
    let amplitude := (high - low) / 2
    makeAnalysis center (√(center * center + amplitude * amplitude / 2)) (amplitude / √2) low high
  | .triangle carrier _ | .sawtooth carrier _ _ =>
    let low : ℝ := carrier.lowVoltage
    let high : ℝ := carrier.highVoltage
    let center := (low + high) / 2
    makeAnalysis center (√((low * low + low * high + high * high) / 3)) ((high - low) / √12) low high
  | .square carrier duty _ inverted =>
    let low : ℝ := carrier.lowVoltage
    let high : ℝ := carrier.highVoltage
    let fraction := highFraction duty inverted uptimeUs
    let dc := (1 - fraction) * low + fraction * high
    let rms := √((1 - fraction) * low * low + fraction * high * high)
    let acRms := (high - low) * √(fraction * (1 - fraction))
    if fraction = 0 then makeAnalysis dc rms acRms low low
    else if fraction = 1 then makeAnalysis dc rms acRms high high
    else makeAnalysis dc rms acRms low high

section Duties

/-- How much of a fade is done. -/
def progress (fadeStartUptimeUs : Int64) (durationUs : UInt64) (uptimeUs : Int64) : ℚ :=
  if uptimeUs < fadeStartUptimeUs then 0
  else if durationUs = 0 then 1
  else min 1 ((uptimeUs.toInt - fadeStartUptimeUs.toInt : ℤ) / durationUs.toNat)

variable {startDuty targetDuty : ℚ} (fadeStart : Int64) (duration : UInt64)

theorem toNat_pos {duration : UInt64} (h : duration ≠ 0) : 0 < duration.toNat :=
  Nat.pos_of_ne_zero fun hzero => h (UInt64.toNat_inj.mp hzero)

theorem activeDuty_linearFade (startDuty targetDuty : ℚ) (uptimeUs : Int64) :
    activeDuty (.linearFade startDuty targetDuty fadeStart duration) uptimeUs
      = startDuty + (targetDuty - startDuty) * progress fadeStart duration uptimeUs := by
  simp only [activeDuty, progress]
  split
  · ring
  split
  · ring
  rename_i hlt hne
  have hpos : (0 : ℚ) < duration.toNat := by exact_mod_cast toNat_pos hne
  rw [Int64.lt_iff_toInt_lt] at hlt
  have hdistance : ((unsignedDistance uptimeUs fadeStart).toNat : ℤ)
      = uptimeUs.toInt - fadeStart.toInt := by
    rw [toNat_unsignedDistance, Int.natAbs_of_nonneg (by omega)]
  rw [← hdistance]
  split
  · rename_i hle
    rw [UInt64.le_iff_toNat_le] at hle
    rw [min_eq_left]
    · ring
    · rw [le_div_iff₀ hpos, one_mul]
      exact_mod_cast hle
  · rename_i hgt
    rw [UInt64.le_iff_toNat_le] at hgt
    rw [min_eq_right]
    · push_cast
      ring
    · rw [div_le_one hpos]
      exact_mod_cast (not_le.mp hgt).le

theorem progress_nonneg (uptimeUs : Int64) : 0 ≤ progress fadeStart duration uptimeUs := by
  unfold progress
  split
  · exact le_rfl
  split
  · exact zero_le_one
  rename_i hlt _
  rw [Int64.lt_iff_toInt_lt] at hlt
  have hle : (0 : ℚ) ≤ (uptimeUs.toInt - fadeStart.toInt : ℤ) := by
    exact_mod_cast (show (0 : ℤ) ≤ uptimeUs.toInt - fadeStart.toInt by omega)
  exact le_min zero_le_one (div_nonneg hle (Nat.cast_nonneg _))

theorem progress_le_one (uptimeUs : Int64) : progress fadeStart duration uptimeUs ≤ 1 := by
  unfold progress
  split
  · exact zero_le_one
  split
  · exact le_rfl
  · exact min_le_left _ _

theorem progress_mono {t u : Int64} (h : t ≤ u) :
    progress fadeStart duration t ≤ progress fadeStart duration u := by
  rw [Int64.le_iff_toInt_le] at h
  by_cases ht : t < fadeStart
  · rw [progress, if_pos ht]
    exact progress_nonneg fadeStart duration u
  · rw [Int64.lt_iff_toInt_lt] at ht
    have hu : ¬ u < fadeStart := by
      rw [Int64.lt_iff_toInt_lt]
      omega
    rw [← Int64.lt_iff_toInt_lt] at ht
    rw [progress, progress, if_neg ht, if_neg hu]
    split
    · exact le_rfl
    · have hle : ((t.toInt - fadeStart.toInt : ℤ) : ℚ) ≤ (u.toInt - fadeStart.toInt : ℤ) := by
        exact_mod_cast (show t.toInt - fadeStart.toInt ≤ u.toInt - fadeStart.toInt by omega)
      exact min_le_min le_rfl (div_le_div_of_nonneg_right hle (Nat.cast_nonneg _))

/-- A larger part of a way upwards leads to a higher point of it. -/
theorem way_mono {start target part part' : ℚ} (hle : start ≤ target) (hpart : 0 ≤ part)
    (hmore : part ≤ part') (hwhole : part' ≤ 1) :
    start ≤ start + (target - start) * part ∧
    start + (target - start) * part ≤ start + (target - start) * part' ∧
    start + (target - start) * part' ≤ target := by
  have hspan : 0 ≤ target - start := by linarith
  have hstart := mul_nonneg hspan hpart
  have hgrows := mul_le_mul_of_nonneg_left hmore hspan
  have htarget := mul_le_of_le_one_right hspan hwhole
  exact ⟨by linarith, by linarith, by linarith⟩

/-- A fade goes one way from its start to its target. -/
theorem activeDuty_mono (hle : startDuty ≤ targetDuty) {t u : Int64} (h : t ≤ u) :
    startDuty ≤ activeDuty (.linearFade startDuty targetDuty fadeStart duration) t ∧
    activeDuty (.linearFade startDuty targetDuty fadeStart duration) t
      ≤ activeDuty (.linearFade startDuty targetDuty fadeStart duration) u ∧
    activeDuty (.linearFade startDuty targetDuty fadeStart duration) u ≤ targetDuty := by
  rw [activeDuty_linearFade fadeStart duration, activeDuty_linearFade fadeStart duration]
  exact way_mono hle (progress_nonneg fadeStart duration t) (progress_mono fadeStart duration h)
    (progress_le_one fadeStart duration u)

theorem activeDuty_anti (hle : targetDuty ≤ startDuty) {t u : Int64} (h : t ≤ u) :
    targetDuty ≤ activeDuty (.linearFade startDuty targetDuty fadeStart duration) u ∧
    activeDuty (.linearFade startDuty targetDuty fadeStart duration) u
      ≤ activeDuty (.linearFade startDuty targetDuty fadeStart duration) t ∧
    activeDuty (.linearFade startDuty targetDuty fadeStart duration) t ≤ startDuty := by
  -- downwards is upwards with the signs changed
  obtain ⟨hstart, hgrows, htarget⟩ := way_mono (neg_le_neg hle)
    (progress_nonneg fadeStart duration t) (progress_mono fadeStart duration h)
    (progress_le_one fadeStart duration u)
  rw [activeDuty_linearFade fadeStart duration, activeDuty_linearFade fadeStart duration]
  exact ⟨by linarith, by linarith, by linarith⟩

theorem DutyProfile.Valid.activeDuty {profile : DutyProfile} (h : profile.Valid)
    (uptimeUs : Int64) : ValidDuty (activeDuty profile uptimeUs) := by
  cases profile with
  | constant duty => exact h
  | linearFade startDuty targetDuty fadeStart duration =>
    obtain ⟨⟨hstart, hstart'⟩, ⟨htarget, htarget'⟩, -⟩ := h
    rcases le_total startDuty targetDuty with hle | hle
    · obtain ⟨hlow, -, hhigh⟩ := activeDuty_mono fadeStart duration hle
        (Int64.le_refl uptimeUs)
      exact ⟨hstart.trans hlow, hhigh.trans htarget'⟩
    · obtain ⟨hlow, -, hhigh⟩ := activeDuty_anti fadeStart duration hle
        (Int64.le_refl uptimeUs)
      exact ⟨htarget.trans hlow, hhigh.trans hstart'⟩

theorem validDuty_highFraction {duty : DutyProfile} (h : duty.Valid) (inverted : Bool)
    (uptimeUs : Int64) : ValidDuty (highFraction duty inverted uptimeUs) := by
  obtain ⟨hlow, hhigh⟩ := h.activeDuty uptimeUs
  unfold highFraction
  cases inverted with
  | false => exact ⟨hlow, hhigh⟩
  | true => exact ⟨by simpa using hhigh, by simpa using hlow⟩

end Duties

section Samples

theorem weighted_mem {low high weight : ℝ} (h : low ≤ high) (hnonneg : 0 ≤ weight)
    (hone : weight ≤ 1) : low + (high - low) * weight ∈ Set.Icc low high := by
  have hspan : 0 ≤ high - low := by linarith
  have hlow := mul_nonneg hspan hnonneg
  have hhigh := mul_le_of_le_one_right hspan hone
  exact ⟨by linarith, by linarith⟩

theorem PeriodicVoltageCarrier.Valid.rails {carrier : PeriodicVoltageCarrier} (h : carrier.Valid) :
    (carrier.lowVoltage : ℝ) ≤ carrier.highVoltage := by
  exact_mod_cast h.1

variable {carrier : PeriodicVoltageCarrier} {duty : DutyProfile} {inverted : Bool} {uptimeUs : Int64}

theorem squareHigh_of_zero (hzero : highFraction duty inverted uptimeUs = 0)
    (pulseStartCycles : ℚ) :
    squareHigh carrier duty pulseStartCycles inverted uptimeUs = false := by
  have hpulse := normalized_normalizeCycles (carrierPhase carrier 0 uptimeUs - pulseStartCycles)
  unfold highFraction at hzero
  unfold squareHigh
  cases inverted with
  | false =>
    have hduty : activeDuty duty uptimeUs = 0 := hzero
    simp [hduty, hpulse.1]
  | true =>
    have hduty : activeDuty duty uptimeUs = 1 := by
      have hsub : 1 - activeDuty duty uptimeUs = 0 := hzero
      linarith
    simp [hduty, hpulse.2]

theorem squareHigh_of_one (hone : highFraction duty inverted uptimeUs = 1)
    (pulseStartCycles : ℚ) :
    squareHigh carrier duty pulseStartCycles inverted uptimeUs = true := by
  have hpulse := normalized_normalizeCycles (carrierPhase carrier 0 uptimeUs - pulseStartCycles)
  unfold highFraction at hone
  unfold squareHigh
  cases inverted with
  | false =>
    have hduty : activeDuty duty uptimeUs = 1 := hone
    simp [hduty, hpulse.2]
  | true =>
    have hduty : activeDuty duty uptimeUs = 0 := by
      have hsub : 1 - activeDuty duty uptimeUs = 1 := hone
      linarith
    simp [hduty, hpulse.1]

theorem sine_mem (h : carrier.Valid) (offset : ℚ) :
    (VoltageSignalSpec.sine carrier offset).voltageAtUptimeMicros uptimeUs
      ∈ Set.Icc (carrier.lowVoltage : ℝ) carrier.highVoltage := by
  have hlow := Real.neg_one_le_sin (2 * Real.pi * carrierPhase carrier offset uptimeUs)
  have hhigh := Real.sin_le_one (2 * Real.pi * carrierPhase carrier offset uptimeUs)
  have hmem := weighted_mem h.rails
    (show 0 ≤ (1 + Real.sin (2 * Real.pi * carrierPhase carrier offset uptimeUs)) / 2 by linarith)
    (by linarith)
  convert hmem using 1
  simp only [VoltageSignalSpec.voltageAtUptimeMicros]
  ring

/-- The phase of a stored offset as a weight. -/
theorem phase_mem {offset : ℚ} (h : Normalized offset) (carrier : PeriodicVoltageCarrier)
    (uptimeUs : Int64) :
    (0 : ℝ) ≤ carrierPhase carrier offset uptimeUs ∧
      (carrierPhase carrier offset uptimeUs : ℝ) ≤ 1 := by
  obtain ⟨hlow, hhigh⟩ := carrierPhase_normalized carrier h uptimeUs
  exact ⟨by exact_mod_cast hlow, by exact_mod_cast hhigh.le⟩

theorem triangle_mem (h : carrier.Valid) {offset : ℚ} (hoffset : Normalized offset) :
    (VoltageSignalSpec.triangle carrier offset).voltageAtUptimeMicros uptimeUs
      ∈ Set.Icc (carrier.lowVoltage : ℝ) carrier.highVoltage := by
  obtain ⟨hlow, hhigh⟩ := phase_mem hoffset carrier uptimeUs
  have habs : |2 * (carrierPhase carrier offset uptimeUs : ℝ) - 1| ≤ 1 :=
    abs_le.mpr ⟨by linarith, by linarith⟩
  have hnonneg := abs_nonneg (2 * (carrierPhase carrier offset uptimeUs : ℝ) - 1)
  exact weighted_mem h.rails (by linarith) (by linarith)

theorem sawtooth_mem (h : carrier.Valid) {offset : ℚ} (hoffset : Normalized offset)
    (direction : SawtoothDirection) :
    (VoltageSignalSpec.sawtooth carrier offset direction).voltageAtUptimeMicros uptimeUs
      ∈ Set.Icc (carrier.lowVoltage : ℝ) carrier.highVoltage := by
  obtain ⟨hlow, hhigh⟩ := phase_mem hoffset carrier uptimeUs
  cases direction with
  | rising => exact weighted_mem h.rails hlow hhigh
  | falling =>
    have hmem := weighted_mem h.rails
      (show (0 : ℝ) ≤ 1 - carrierPhase carrier offset uptimeUs by linarith) (by linarith)
    convert hmem using 1
    simp only [VoltageSignalSpec.voltageAtUptimeMicros]
    ring

theorem square_mem (h : carrier.Valid) (pulseStartCycles : ℚ) :
    (VoltageSignalSpec.square carrier duty pulseStartCycles inverted).voltageAtUptimeMicros uptimeUs
      ∈ Set.Icc (carrier.lowVoltage : ℝ) carrier.highVoltage := by
  simp only [VoltageSignalSpec.voltageAtUptimeMicros]
  split
  · exact ⟨h.rails, le_rfl⟩
  · exact ⟨le_rfl, h.rails⟩

end Samples

/-- What holds of the metrics of a waveform among themselves. -/
def VoltageAnalysis.Consistent (a : VoltageAnalysis) : Prop :=
  a.dcVoltage ∈ Set.Icc a.minimumVoltage a.maximumVoltage ∧
    a.rmsVoltage ^ 2 = a.dcVoltage ^ 2 + a.acRmsVoltage ^ 2

section Metrics

variable {low high : ℝ}

theorem center_mem (h : low ≤ high) : (low + high) / 2 ∈ Set.Icc low high :=
  ⟨by linarith, by linarith⟩

theorem consistent_sine (h : low ≤ high) :
    (makeAnalysis ((low + high) / 2)
      (√((low + high) / 2 * ((low + high) / 2) + (high - low) / 2 * ((high - low) / 2) / 2))
      ((high - low) / 2 / √2) low high).Consistent := by
  refine ⟨center_mem h, ?_⟩
  simp only [makeAnalysis]
  have htwo : √2 ^ 2 = (2 : ℝ) := Real.sq_sqrt (by norm_num)
  have hnonneg : 0 ≤ (low + high) / 2 * ((low + high) / 2)
      + (high - low) / 2 * ((high - low) / 2) / 2 :=
    add_nonneg (mul_self_nonneg _) (div_nonneg (mul_self_nonneg _) zero_le_two)
  rw [Real.sq_sqrt hnonneg, div_pow _ (√2), htwo]
  ring

theorem consistent_ramp (h : low ≤ high) :
    (makeAnalysis ((low + high) / 2) (√((low * low + low * high + high * high) / 3))
      ((high - low) / √12) low high).Consistent := by
  refine ⟨center_mem h, ?_⟩
  simp only [makeAnalysis]
  have htwelve : √12 ^ 2 = (12 : ℝ) := Real.sq_sqrt (by norm_num)
  have hnonneg : 0 ≤ (low * low + low * high + high * high) / 3 := by
    have hsum : low * low + low * high + high * high
        = (low + high / 2) ^ 2 + 3 / 4 * high ^ 2 := by ring
    rw [hsum]
    positivity
  rw [Real.sq_sqrt hnonneg, div_pow _ (√12), htwelve]
  ring

theorem rms_square (low high : ℝ) {fraction : ℝ} (hnonneg : 0 ≤ fraction) (hone : fraction ≤ 1) :
    √((1 - fraction) * low * low + fraction * high * high) ^ 2
      = ((1 - fraction) * low + fraction * high) ^ 2
        + ((high - low) * √(fraction * (1 - fraction))) ^ 2 := by
  have hrest : 0 ≤ 1 - fraction := by linarith
  have hmean : 0 ≤ (1 - fraction) * low * low + fraction * high * high := by
    rw [mul_assoc, mul_assoc]
    exact add_nonneg (mul_nonneg hrest (mul_self_nonneg low))
      (mul_nonneg hnonneg (mul_self_nonneg high))
  rw [Real.sq_sqrt hmean, mul_pow, Real.sq_sqrt (mul_nonneg hnonneg hrest)]
  ring

theorem dc_eq (fraction : ℝ) :
    (1 - fraction) * low + fraction * high = low + (high - low) * fraction := by
  ring

end Metrics

theorem analyzeVoltage_consistent (s : VoltageSignal) (uptimeUs : Int64) :
    (analyzeVoltage s.spec uptimeUs).Consistent := by
  obtain ⟨spec, hvalid⟩ := s
  cases spec with
  | constant voltage =>
    refine ⟨⟨le_rfl, le_rfl⟩, ?_⟩
    simp [analyzeVoltage, makeAnalysis]
  | sine carrier offset => exact consistent_sine hvalid.1.rails
  | triangle carrier offset => exact consistent_ramp hvalid.1.rails
  | sawtooth carrier offset direction => exact consistent_ramp hvalid.1.rails
  | square carrier duty pulseStartCycles inverted =>
    obtain ⟨hnonneg, hone⟩ := validDuty_highFraction hvalid.2.1 inverted uptimeUs
    have hrms := rms_square (carrier.lowVoltage : ℝ) carrier.highVoltage
      (show (0 : ℝ) ≤ highFraction duty inverted uptimeUs by exact_mod_cast hnonneg)
      (by exact_mod_cast hone)
    simp only [analyzeVoltage]
    split
    · rename_i hzero
      refine ⟨?_, hrms⟩
      simp [makeAnalysis, hzero]
    split
    · rename_i hfull
      refine ⟨?_, hrms⟩
      simp [makeAnalysis, hfull]
    · refine ⟨?_, hrms⟩
      simp only [makeAnalysis, dc_eq]
      exact weighted_mem hvalid.1.rails (by exact_mod_cast hnonneg) (by exact_mod_cast hone)

/-- An analysis bounds the samples at every uptime; those of a square wave that is at one rail, while
its duty stays. -/
theorem sample_mem (s : VoltageSignal) {t u : Int64}
    (h : ∀ duty, s.spec.activeDutyAtUptimeMicros t = some duty →
      0 < duty ∧ duty < 1 ∨ s.spec.activeDutyAtUptimeMicros u = some duty) :
    s.spec.voltageAtUptimeMicros u ∈ Set.Icc (analyzeVoltage s.spec t).minimumVoltage
      (analyzeVoltage s.spec t).maximumVoltage := by
  obtain ⟨spec, hvalid⟩ := s
  cases spec with
  | constant voltage => exact ⟨le_rfl, le_rfl⟩
  | sine carrier offset => exact sine_mem hvalid.1 offset
  | triangle carrier offset => exact triangle_mem hvalid.1 hvalid.2
  | sawtooth carrier offset direction => exact sawtooth_mem hvalid.1 hvalid.2 direction
  | square carrier duty pulseStartCycles inverted =>
    have hstays : highFraction duty inverted t = 0 ∨ highFraction duty inverted t = 1 →
        highFraction duty inverted u = highFraction duty inverted t := by
      intro hend
      have hduty : activeDuty duty t = 0 ∨ activeDuty duty t = 1 := by
        unfold highFraction at hend
        cases inverted with
        | false => exact hend
        | true =>
          simp only [if_true] at hend
          rcases hend with hzero | hone
          · exact Or.inr (by linarith)
          · exact Or.inl (by linarith)
      rcases h _ rfl with hbetween | hsame
      · rcases hduty with hzero | hone
        · linarith [hbetween.1]
        · linarith [hbetween.2]
      · rw [highFraction, highFraction, Option.some.inj hsame]
    simp only [analyzeVoltage]
    split
    · rename_i hzero
      simp [makeAnalysis, VoltageSignalSpec.voltageAtUptimeMicros,
        squareHigh_of_zero ((hstays (Or.inl hzero)).trans hzero)]
    split
    · rename_i hfull
      simp [makeAnalysis, VoltageSignalSpec.voltageAtUptimeMicros,
        squareHigh_of_one ((hstays (Or.inr hfull)).trans hfull)]
    · exact square_mem hvalid.1 pulseStartCycles

/-- The analysis of a signal at an uptime bounds its samples there and at every other uptime, unless
it is of a square wave at a duty of none or all of the cycle that changes. Its metrics fit together,
and a fade goes one way between its ends. -/
theorem analysis_bounds :
    (∀ (s : VoltageSignal) (t : Int64),
      ((analyzeVoltage s.spec t).minimumVoltage ≤ s.spec.voltageAtUptimeMicros t ∧
        s.spec.voltageAtUptimeMicros t ≤ (analyzeVoltage s.spec t).maximumVoltage) ∧
      (∀ u, (∀ duty, s.spec.activeDutyAtUptimeMicros t = some duty →
          0 < duty ∧ duty < 1 ∨ s.spec.activeDutyAtUptimeMicros u = some duty) →
        (analyzeVoltage s.spec t).minimumVoltage ≤ s.spec.voltageAtUptimeMicros u ∧
          s.spec.voltageAtUptimeMicros u ≤ (analyzeVoltage s.spec t).maximumVoltage) ∧
      ((analyzeVoltage s.spec t).minimumVoltage ≤ (analyzeVoltage s.spec t).dcVoltage ∧
        (analyzeVoltage s.spec t).dcVoltage ≤ (analyzeVoltage s.spec t).maximumVoltage) ∧
      (analyzeVoltage s.spec t).rmsVoltage ^ 2
        = (analyzeVoltage s.spec t).dcVoltage ^ 2 + (analyzeVoltage s.spec t).acRmsVoltage ^ 2) ∧
    (∀ (startDuty targetDuty : ℚ) (fadeStart : Int64) (duration : UInt64) (t u : Int64), t ≤ u →
      (startDuty ≤ targetDuty →
        startDuty ≤ activeDuty (.linearFade startDuty targetDuty fadeStart duration) t ∧
        activeDuty (.linearFade startDuty targetDuty fadeStart duration) t
          ≤ activeDuty (.linearFade startDuty targetDuty fadeStart duration) u ∧
        activeDuty (.linearFade startDuty targetDuty fadeStart duration) u ≤ targetDuty) ∧
      (targetDuty ≤ startDuty →
        targetDuty ≤ activeDuty (.linearFade startDuty targetDuty fadeStart duration) u ∧
        activeDuty (.linearFade startDuty targetDuty fadeStart duration) u
          ≤ activeDuty (.linearFade startDuty targetDuty fadeStart duration) t ∧
        activeDuty (.linearFade startDuty targetDuty fadeStart duration) t ≤ startDuty)) := by
  refine ⟨fun s t => ?_, fun startDuty targetDuty fadeStart duration t u h => ?_⟩
  · obtain ⟨hdc, hrms⟩ := analyzeVoltage_consistent s t
    exact ⟨sample_mem s fun _ hduty => Or.inr hduty, fun u hu => sample_mem s hu, hdc, hrms⟩
  · exact ⟨fun hle => activeDuty_mono fadeStart duration hle h,
      fun hle => activeDuty_anti fadeStart duration hle h⟩

/-- A fade from none of the cycle to all of it, in a microsecond. -/
def fadeIn : VoltageSignal :=
  ⟨.square ⟨0, 1, 1, 0⟩ (.linearFade 0 1 0 1) 0 false, by
    refine ⟨?_, ?_, ?_⟩
    · decide +kernel
    · decide +kernel
    · exact ⟨le_rfl, by norm_num⟩⟩

/-- Before the fade both bounds are the low rail, and after it the signal is at the high one. -/
theorem fadeIn_leaves_bounds : ¬ ∀ (s : VoltageSignal) (t u : Int64),
    (analyzeVoltage s.spec t).minimumVoltage ≤ s.spec.voltageAtUptimeMicros u ∧
      s.spec.voltageAtUptimeMicros u ≤ (analyzeVoltage s.spec t).maximumVoltage := by
  intro h
  have hzero : highFraction (.linearFade 0 1 0 1) false 0 = 0 := by decide +kernel
  have hone : highFraction (.linearFade 0 1 0 1) false 1 = 1 := by decide +kernel
  have hhigh := (h fadeIn 0 1).2
  simp [fadeIn, analyzeVoltage, makeAnalysis, hzero, VoltageSignalSpec.voltageAtUptimeMicros,
    squareHigh_of_one hone] at hhigh
  linarith

end RooTesting.Voltage
