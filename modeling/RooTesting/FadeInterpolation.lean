import RooTesting.FadeDuty

/-! # The interpolation of a fade

Exact as long as the product of its distance and its time fits 64 bits, and wrong as soon as it
does not. -/
namespace RooTesting.FadeEngine

/-- The duty of an ideal fade, rounded towards the duty it began with. -/
def interpolated (r : Request) (elapsedUs : ℕ) : ℕ :=
  if r.startDuty ≤ r.targetDuty then r.startDuty + r.distance * elapsedUs / r.durationUs
  else r.startDuty - r.distance * elapsedUs / r.durationUs

/-- What the duties of a fade are, from its start to its deadline. -/
structure ExactFade (r : Request) (startUs : ℤ) (duty : ℤ → ℕ) : Prop where
  exact : ∀ t, startUs ≤ t → t ≤ startUs + r.durationUs →
    duty t = interpolated r (t - startUs).toNat
  between : ∀ t, startUs ≤ t → t ≤ startUs + r.durationUs →
    min r.startDuty r.targetDuty ≤ duty t ∧ duty t ≤ max r.startDuty r.targetDuty
  rises : r.startDuty ≤ r.targetDuty → ∀ t t', startUs ≤ t → t ≤ t' →
    t' ≤ startUs + r.durationUs → duty t ≤ duty t'
  falls : r.targetDuty ≤ r.startDuty → ∀ t t', startUs ≤ t → t ≤ t' →
    t' ≤ startUs + r.durationUs → duty t' ≤ duty t
  first : duty startUs = r.startDuty
  last : duty (startUs + r.durationUs) = r.targetDuty

/-- The largest product that the interpolation of the fade needs. -/
def Request.Fits (r : Request) : Prop := r.distance * (r.durationUs - 1) < uint64Size

section Interpolated

variable {r : Request} {elapsedUs : ℕ}

theorem distance_rising (h : r.startDuty ≤ r.targetDuty) :
    r.distance = r.targetDuty - r.startDuty := by
  unfold Request.distance
  omega

theorem distance_falling (h : r.targetDuty ≤ r.startDuty) :
    r.distance = r.startDuty - r.targetDuty := by
  unfold Request.distance
  omega

theorem step_le_distance (hend : elapsedUs ≤ r.durationUs) :
    r.distance * elapsedUs / r.durationUs ≤ r.distance := by
  apply Nat.div_le_of_le_mul
  rw [Nat.mul_comm r.durationUs]
  exact Nat.mul_le_mul_left _ hend

theorem step_mono {elapsedUs' : ℕ} (h : elapsedUs ≤ elapsedUs') :
    r.distance * elapsedUs / r.durationUs ≤ r.distance * elapsedUs' / r.durationUs :=
  Nat.div_le_div_right (Nat.mul_le_mul_left _ h)

theorem interpolated_between (hend : elapsedUs ≤ r.durationUs) :
    min r.startDuty r.targetDuty ≤ interpolated r elapsedUs ∧
      interpolated r elapsedUs ≤ max r.startDuty r.targetDuty := by
  have hstep := step_le_distance hend
  unfold interpolated
  generalize r.distance * elapsedUs / r.durationUs = step at hstep ⊢
  split
  · rename_i h
    have hdistance := distance_rising h
    rw [min_eq_left h, max_eq_right h]
    omega
  · rename_i h
    have hle := Nat.le_of_not_le h
    have hdistance := distance_falling hle
    rw [min_eq_right hle, max_eq_left hle]
    omega

theorem interpolated_rises {elapsedUs' : ℕ} (h : r.startDuty ≤ r.targetDuty)
    (hle : elapsedUs ≤ elapsedUs') : interpolated r elapsedUs ≤ interpolated r elapsedUs' := by
  unfold interpolated
  rw [if_pos h, if_pos h]
  exact Nat.add_le_add_left (step_mono hle) _

theorem interpolated_falls {elapsedUs' : ℕ} (h : r.targetDuty ≤ r.startDuty)
    (hle : elapsedUs ≤ elapsedUs') : interpolated r elapsedUs' ≤ interpolated r elapsedUs := by
  unfold interpolated
  split
  · rename_i h'
    have hdistance : r.distance = 0 := by
      rw [distance_rising h']
      omega
    simp [hdistance]
  · exact Nat.sub_le_sub_left (step_mono hle) _

theorem interpolated_zero : interpolated r 0 = r.startDuty := by
  simp [interpolated]

theorem interpolated_duration (hduration : 0 < r.durationUs) :
    interpolated r r.durationUs = r.targetDuty := by
  unfold interpolated
  rw [Nat.mul_div_cancel _ hduration]
  split
  · rename_i h
    rw [distance_rising h]
    omega
  · rename_i h
    rw [distance_falling (Nat.le_of_not_le h)]
    omega

end Interpolated

/-- A wrapped product is never divided to the same quotient. -/
theorem wrapped_div_iff {n duration size : ℕ} (hduration : 0 < duration) (hle : duration ≤ size) :
    n % size / duration = n / duration ↔ n < size := by
  constructor
  · intro h
    by_contra hwide
    have hmod : n % size ≤ n - size := by
      rw [Nat.mod_eq_sub_mod (Nat.le_of_not_lt hwide)]
      exact Nat.mod_le _ _
    have hstep : (n % size + duration) / duration ≤ n / duration :=
      Nat.div_le_div_right (by omega)
    rw [Nat.add_div_right _ hduration, h] at hstep
    omega
  · intro h
    rw [Nat.mod_eq_of_lt h]

section Materialize

variable {r : Request} {elapsedUs : ℤ}

theorem materialize_inside (hpos : 0 < elapsedUs) (hend : elapsedUs.toNat < r.durationUs) :
    materialize r elapsedUs =
      if r.startDuty ≤ r.targetDuty then
        r.startDuty + r.distance * elapsedUs.toNat % uint64Size / r.durationUs
      else r.startDuty - r.distance * elapsedUs.toNat % uint64Size / r.durationUs := by
  unfold materialize
  rw [if_neg (by omega), if_neg (by omega)]
  split
  · rename_i h
    rw [distance_rising h]
  · rename_i h
    rw [distance_falling (Nat.le_of_not_le h)]

/-- Inside a fade the duty is exact if and only if the product is. -/
theorem materialize_exact_iff (hle : r.durationUs ≤ uint64Size) (hpos : 0 < elapsedUs)
    (hend : elapsedUs.toNat < r.durationUs) :
    materialize r elapsedUs = interpolated r elapsedUs.toNat ↔
      r.distance * elapsedUs.toNat < uint64Size := by
  have hduration : 0 < r.durationUs := by omega
  have hstep := step_le_distance (r := r) hend.le
  have hwrapped : r.distance * elapsedUs.toNat % uint64Size / r.durationUs ≤
      r.distance * elapsedUs.toNat / r.durationUs := Nat.div_le_div_right (Nat.mod_le _ _)
  rw [materialize_inside hpos hend, interpolated, ← wrapped_div_iff hduration hle]
  split
  · exact Nat.add_left_cancel_iff
  · rename_i h
    have hdistance := distance_falling (Nat.le_of_not_le h)
    omega

theorem materialize_first (hpos : elapsedUs = 0) :
    materialize r elapsedUs = interpolated r elapsedUs.toNat := by
  rw [materialize_before hpos.le, hpos]
  exact interpolated_zero.symm

theorem materialize_last (hduration : 0 < r.durationUs) (hend : elapsedUs.toNat = r.durationUs) :
    materialize r elapsedUs = interpolated r elapsedUs.toNat := by
  rw [materialize_after hduration hend.ge, hend, interpolated_duration hduration]

/-- The last microsecond of a fade needs the largest product. -/
theorem fits_iff (hduration : 0 < r.durationUs) (startUs : ℤ) :
    (∀ t, startUs ≤ t → t < startUs + r.durationUs →
      r.distance * (t - startUs).toNat < uint64Size) ↔ r.Fits := by
  constructor
  · intro h
    have hlast := h (startUs + (r.durationUs - 1 : ℕ)) (by omega) (by omega)
    rw [add_sub_cancel_left, Int.toNat_natCast] at hlast
    exact hlast
  · intro h t hstart hend
    have hle : (t - startUs).toNat ≤ r.durationUs - 1 := by omega
    exact (Nat.mul_le_mul_left _ hle).trans_lt h

/-- The duties are exact if they are at every uptime. -/
theorem ExactFade.of_exact {startUs : ℤ} {duty : ℤ → ℕ} (hduration : 0 < r.durationUs)
    (h : ∀ t, startUs ≤ t → t ≤ startUs + r.durationUs →
      duty t = interpolated r (t - startUs).toNat) : ExactFade r startUs duty := by
  refine ⟨h, ?_, ?_, ?_, ?_, ?_⟩
  · intro t hstart hend
    rw [h t hstart hend]
    exact interpolated_between (by omega)
  · intro hle t t' hstart htt hend
    rw [h t hstart (htt.trans hend), h t' (hstart.trans htt) hend]
    exact interpolated_rises hle (by omega)
  · intro hle t t' hstart htt hend
    rw [h t hstart (htt.trans hend), h t' (hstart.trans htt) hend]
    exact interpolated_falls hle (by omega)
  · rw [h startUs le_rfl (by omega), Int.sub_self]
    exact interpolated_zero
  · rw [h _ (by omega) le_rfl, add_sub_cancel_left, Int.toNat_natCast]
    exact interpolated_duration hduration

theorem exactFade_iff (hle : r.durationUs ≤ uint64Size) (hduration : 0 < r.durationUs)
    (startUs : ℤ) : ExactFade r startUs (fun t => materialize r (t - startUs)) ↔ r.Fits := by
  rw [← fits_iff hduration startUs]
  constructor
  · intro h t hstart hend
    obtain hzero | hpos := hstart.eq_or_lt
    · rw [← hzero, Int.sub_self, Int.toNat_zero, Nat.mul_zero]
      decide
    · exact (materialize_exact_iff hle (by omega) (by omega)).mp (h.exact t hstart hend.le)
  · intro h
    apply ExactFade.of_exact hduration
    intro t hstart hend
    obtain hlast | hbefore := hend.eq_or_lt
    · apply materialize_last hduration
      omega
    obtain hzero | hpos := hstart.eq_or_lt
    · apply materialize_first
      omega
    · exact (materialize_exact_iff hle (by omega) (by omega)).mpr (h t hstart hbefore)

end Materialize

/-- What the engine shows of a fade that has just been started. -/
theorem snapshot_start {e e' : Engine} {r : Request} {nowUs : ℤ} {generation : ℕ} {drainNow : Bool}
    (haccepted : r.accepted nowUs = true) (hduration : 0 < r.durationUs)
    (hstart : e.start r nowUs = some (generation, drainNow, e')) (t : ℤ) :
    (e'.snapshot r.channel t).duty = materialize r (t - nowUs) := by
  have hchannel : ¬ kChannels ≤ r.channel := by
    simp only [Request.accepted, Bool.and_eq_true, Bool.not_eq_true', Bool.or_eq_false_iff,
      decide_eq_false_iff_not] at haccepted
    exact haccepted.1.1.1.1.1.1.1.1
  unfold Engine.start at hstart
  dsimp only at hstart
  split at hstart
  swap
  · cases hstart
  unfold Engine.snapshot
  rw [if_neg hchannel]
  cases himmediate : r.immediate with
  | true =>
    simp only [himmediate, if_true, Engine.enqueue, Option.some.injEq, Prod.mk.injEq] at hstart
    obtain ⟨-, -, rfl⟩ := hstart
    have hsame : r.startDuty = r.targetDuty := by
      simp only [Request.immediate, Bool.or_eq_true, decide_eq_true_eq] at himmediate
      omega
    have hconstant : materialize r (t - nowUs) = r.targetDuty := by
      unfold materialize
      split
      · exact hsame
      split
      · rfl
      · rw [if_pos hsame.le, hsame, Nat.sub_self, Nat.zero_mul, Nat.zero_mod, Nat.zero_div]
        rfl
    simp [hconstant]
  | false =>
    simp only [himmediate, Bool.false_eq_true, if_false, Engine.enqueue, Option.some.injEq,
      Prod.mk.injEq] at hstart
    obtain ⟨-, -, rfl⟩ := hstart
    simp

/-- A fade that the engine has started is interpolated exactly, at every uptime, if and only if
the product at its last microsecond does not wrap; and then none does. -/
theorem fade_exact {e e' : Engine} {r : Request} {nowUs : ℤ} {generation : ℕ} {drainNow : Bool}
    (haccepted : r.accepted nowUs = true) (hduration : 0 < r.durationUs)
    (hstart : e.start r nowUs = some (generation, drainNow, e')) :
    (ExactFade r nowUs (fun t => (e'.snapshot r.channel t).duty) ↔ r.Fits) ∧
    ((∀ t, nowUs ≤ t → t < nowUs + r.durationUs →
      r.distance * (t - nowUs).toNat < uint64Size) ↔ r.Fits) := by
  have hlimit : r.durationUs ≤ uint64Size := by
    simp only [Request.accepted, Bool.and_eq_true, Bool.not_eq_true', Bool.or_eq_false_iff,
      decide_eq_false_iff_not, not_lt] at haccepted
    exact haccepted.1.2.trans (by decide)
  have hduty : (fun t => (e'.snapshot r.channel t).duty) = fun t => materialize r (t - nowUs) :=
    funext fun t => snapshot_start haccepted hduration hstart t
  rw [hduty]
  exact ⟨exactFade_iff hlimit hduration nowUs, fits_iff hduration nowUs⟩

def slowRequest : Request :=
  { emptyRequest with
    frequencyHz := 50
    resolution := 20
    targetDuty := 2 ^ 20
    durationUs := 2 ^ 45 }

theorem fade_exact_slow : ∃ e', initial.start { slowRequest with targetDuty := 2 ^ 18 } 7 =
    some (1, true, e') ∧
    ExactFade { slowRequest with targetDuty := 2 ^ 18 } 7 fun t => (e'.snapshot 0 t).duty := by
  refine ⟨_, rfl, ?_⟩
  exact (@fade_exact initial _ { slowRequest with targetDuty := 2 ^ 18 } 7 1 true (by decide)
    (by decide) rfl).1.mpr (show 2 ^ 18 * (2 ^ 45 - 1) < 2 ^ 64 by decide)

/-- Half way through, the product wraps to nothing. -/
theorem slow_fade_wraps : slowRequest.accepted 0 = true ∧ ∃ e',
    initial.start slowRequest 0 = some (1, true, e') ∧
    (e'.snapshot 0 (2 ^ 44 - 1)).duty = 2 ^ 19 - 1 ∧ (e'.snapshot 0 (2 ^ 44)).duty = 0 ∧
    ¬ ExactFade slowRequest 0 fun t => (e'.snapshot 0 t).duty := by
  have hduties : materialize slowRequest (2 ^ 44 - 1) = 2 ^ 19 - 1 ∧
      materialize slowRequest (2 ^ 44) = 0 := by decide
  refine ⟨by decide, _, rfl, hduties.1, hduties.2, fun h => ?_⟩
  have hrises := h.rises (by decide) (2 ^ 44 - 1) (2 ^ 44) (by decide) (by decide) (by decide)
  change materialize slowRequest (2 ^ 44 - 1) ≤ materialize slowRequest (2 ^ 44) at hrises
  rw [hduties.1, hduties.2] at hrises
  exact absurd hrises (by decide)

end RooTesting.FadeEngine
