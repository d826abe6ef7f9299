import RooTesting.PicoMachine
import RooTesting.VoltageAnalysis
import Mathlib.Algebra.Order.Floor.Semifield

/-! # Pulse width modulation on the RP2040

The setters of `pwm.cpp` over the slices of the board, and the counter of a slice at an uptime. A
setter rebases the counter it retains to the uptime of the call. -/
namespace RooTesting.PicoBoard
open Checks Voltage

/-- The counter of a slice at an uptime. -/
def PwmState.counterAt (state : PwmState) (now : ℤ) : ℕ :=
  if !state.enabled then state.counter
  else
    let elapsed : ℚ := (now - state.originUs : ℤ)
    let ticks := elapsed * 125 * 16 / state.divider16
    (trunc (fmod (ticks + state.counter) (state.wrap + 1))).toNat % 65536

namespace Board

variable (fixture : Fixture) (b : Board)

def pwmState (slice : ℕ) : Except String PwmState := do
  check (slice < 8) "Invalid Pico PWM slice"
  return b.pwms slice

def pwmCounter (slice : ℕ) (now : ℤ) : Except String ℕ := do
  let state ← b.pwmState slice
  return state.counterAt now

/-- The publication of a slice, pin after pin. -/
def publishSlice (slice : ℕ) : Board :=
  (List.range gpioCount).foldl (fun b pin =>
    if (b.pins pin).function = .pwm ∧ pwmSlice pin = slice then
      match b.publishes pin with
      | some signal => b.write pin signal
      | none => b
    else b) b

def endPublication : Board := { b with publishingPwm := false }

/-- `setPwmState` with its whole publication, the devices of the pins calling nothing. -/
def storePwmState (slice : ℕ) (state : PwmState) : Except String Board := do
  let stored ← b.setPwmState fixture slice state
  return (stored.publishSlice slice).endPublication

/-- `Current`. -/
def current (slice : ℕ) (now : ℤ) : Except String PwmState := do
  let state ← b.pwmState slice
  let counter ← b.pwmCounter slice now
  return { state with
    counter := counter
    originUs := now }

def pwmSetChanLevel (slice chan level : ℕ) (now : ℤ) : Except String Board := do
  check (chan < 2) "Invalid Pico PWM channel"
  let state ← b.current slice now
  b.storePwmState fixture slice { state with
    levels := if chan = 0 then (level, state.levels.2) else (state.levels.1, level) }

def pwmSetBothLevels (slice levelA levelB : ℕ) (now : ℤ) : Except String Board := do
  let state ← b.current slice now
  b.storePwmState fixture slice { state with levels := (levelA, levelB) }

def pwmSetOutputPolarity (slice : ℕ) (invertA invertB : Bool) (now : ℤ) : Except String Board := do
  let state ← b.current slice now
  b.storePwmState fixture slice { state with inverted := (invertA, invertB) }

end Board

/-- The updates of a slice that leave its frequency alone. -/
inductive Update where
  | chanLevel (chan level : ℕ)
  | bothLevels (levelA levelB : ℕ)
  | polarity (invertA invertB : Bool)

def Update.perform (fixture : Fixture) (slice : ℕ) (now : ℤ) (b : Board) :
    Update → Except String Board
  | chanLevel chan level => b.pwmSetChanLevel fixture slice chan level now
  | bothLevels levelA levelB => b.pwmSetBothLevels fixture slice levelA levelB now
  | polarity invertA invertB => b.pwmSetOutputPolarity fixture slice invertA invertB now

/-- What the fields of a slice hold by their types and by the checks of `setPwmState`. -/
structure PwmState.Fits (state : PwmState) : Prop where
  divider_ge : 16 ≤ state.divider16
  divider_le : state.divider16 ≤ 4095
  wrap : state.wrap ≤ 65535
  counter : state.counter ≤ 65535

section Counters

theorem trunc_of_nonneg {x : ℚ} (h : 0 ≤ x) : trunc x = ⌊x⌋ :=
  if_neg (not_lt.mpr h)

/-- The remainder of a number that is not negative. -/
theorem fmod_of_nonneg {x y : ℚ} (hx : 0 ≤ x) (hy : 0 < y) : fmod x y = y * Int.fract (x / y) := by
  rw [fmod, trunc_of_nonneg (div_nonneg hx hy.le), Int.fract, mul_sub, mul_div_cancel₀ _ hy.ne']

variable {state : PwmState} {now : ℤ}

/-- The ticks since the counter of a slice was at zero, with their fraction. -/
def PwmState.position (state : PwmState) (now : ℤ) : ℚ :=
  ((now - state.originUs : ℤ) : ℚ) * 125 * 16 / state.divider16 + state.counter

theorem PwmState.position_nonneg (h : state.originUs ≤ now) : 0 ≤ state.position now := by
  have helapsed : (0 : ℚ) ≤ (now - state.originUs : ℤ) := by
    exact_mod_cast (show (0 : ℤ) ≤ now - state.originUs by omega)
  unfold PwmState.position
  positivity

/-- What is left of the position after whole turns of the counter. -/
theorem PwmState.counterAt_eq_floor (hfits : state.Fits) (henabled : state.enabled = true)
    (h : state.originUs ≤ now) :
    state.counterAt now
      = ⌊(state.wrap + 1 : ℚ) * Int.fract (state.position now / (state.wrap + 1))⌋₊ := by
  have hpos : (0 : ℚ) < state.wrap + 1 := by positivity
  have hnonneg := Int.fract_nonneg (state.position now / (state.wrap + 1))
  have hlt := Int.fract_lt_one (state.position now / (state.wrap + 1))
  have hbelow : (state.wrap + 1 : ℚ) * Int.fract (state.position now / (state.wrap + 1))
      < ((65536 : ℕ) : ℚ) := by
    have hwrap : (state.wrap : ℚ) ≤ 65535 := by exact_mod_cast hfits.wrap
    push_cast
    nlinarith
  have hfloor : ⌊(state.wrap + 1 : ℚ) * Int.fract (state.position now / (state.wrap + 1))⌋₊
      < 65536 := (Nat.floor_lt (mul_nonneg hpos.le hnonneg)).mpr hbelow
  rw [PwmState.counterAt, henabled]
  simp only [Bool.not_true, Bool.false_eq_true, if_false]
  rw [← PwmState.position, fmod_of_nonneg (position_nonneg h) hpos,
    trunc_of_nonneg (mul_nonneg hpos.le hnonneg), Int.floor_toNat, Nat.mod_eq_of_lt hfloor]

theorem floor_mul_fract {x : ℚ} (hx : 0 ≤ x) (n : ℕ) :
    ⌊((n + 1 : ℕ) : ℚ) * Int.fract (x / (n + 1 : ℕ))⌋₊ = ⌊x⌋₊ % (n + 1) := by
  have hne : ((n + 1 : ℕ) : ℚ) ≠ 0 := Nat.cast_ne_zero.mpr (Nat.succ_ne_zero n)
  have hturns : ⌊x / (n + 1 : ℕ)⌋ = ((⌊x⌋₊ / (n + 1) : ℕ) : ℤ) := by
    rw [← Nat.floor_div_natCast, Int.natCast_floor_eq_floor]
    exact div_nonneg hx (Nat.cast_nonneg _)
  have heq : ((n + 1 : ℕ) : ℚ) * Int.fract (x / (n + 1 : ℕ))
      = x - ((n + 1) * (⌊x⌋₊ / (n + 1)) : ℕ) := by
    rw [Int.fract, mul_sub, mul_div_cancel₀ _ hne, hturns, Int.cast_natCast, Nat.cast_mul]
  rw [heq, Nat.floor_sub_natCast, Nat.mod_eq_sub_mul_div]

theorem PwmState.floor_position (hpos : 0 < state.divider16) (h : state.originUs ≤ now) :
    ⌊state.position now⌋₊
      = 2000 * (now - state.originUs).toNat / state.divider16 + state.counter := by
  have helapsed : ((now - state.originUs : ℤ) : ℚ) = ((now - state.originUs).toNat : ℕ) := by
    rw [← Int.cast_natCast, Int.toNat_of_nonneg (by omega)]
  have hticks : ((now - state.originUs : ℤ) : ℚ) * 125 * 16 / state.divider16
      = ((2000 * (now - state.originUs).toNat : ℕ) : ℚ) / (state.divider16 : ℕ) := by
    rw [helapsed]
    push_cast
    ring
  rw [PwmState.position, hticks, Nat.floor_add_natCast (by positivity), Nat.floor_div_eq_div]

/-- A running counter in whole ticks: every microsecond is 2000 sixteenths of a divider. -/
theorem PwmState.counterAt_eq (hfits : state.Fits) (henabled : state.enabled = true)
    (h : state.originUs ≤ now) :
    state.counterAt now = (2000 * (now - state.originUs).toNat / state.divider16 + state.counter)
      % (state.wrap + 1) := by
  have hpos : 0 < state.divider16 := by
    have := hfits.divider_ge
    omega
  rw [counterAt_eq_floor hfits henabled h, ← floor_position hpos h,
    ← floor_mul_fract (position_nonneg h) state.wrap]
  push_cast
  rfl

end Counters

/-- The specification behind a signal of the board. -/
def VoltageSignal.spec : VoltageSignal → VoltageSignalSpec
  | constant voltage => .constant voltage
  | square low high frequencyHz duty originUs pulseStartCycles inverted =>
    .square ⟨low, high, frequencyHz, Int64.ofInt originUs⟩ (.constant duty) pulseStartCycles inverted

def PwmState.level (state : PwmState) (pin : ℕ) : ℕ :=
  if pin % 2 = 0 then state.levels.1 else state.levels.2

def PwmState.inversion (state : PwmState) (pin : ℕ) : Bool :=
  if pin % 2 = 0 then state.inverted.1 else state.inverted.2

section Waveforms

theorem drive_pwm {b : Board} {pin : ℕ} (h : (b.pins pin).function = .pwm) :
    b.drive pin = some (
      if !(b.pwms (pwmSlice pin)).enabled then
        .constant (railVoltage (decide ((b.pwms (pwmSlice pin)).counter
          < (b.pwms (pwmSlice pin)).level pin) != (b.pwms (pwmSlice pin)).inversion pin))
      else .square 0 (railVoltage true)
        (125000000 * 16 / (b.pwms (pwmSlice pin)).divider16 / ((b.pwms (pwmSlice pin)).wrap + 1))
        (min ((b.pwms (pwmSlice pin)).level pin / ((b.pwms (pwmSlice pin)).wrap + 1)) 1)
        (b.pwms (pwmSlice pin)).originUs
        (Int.fract (-(b.pwms (pwmSlice pin)).counter / ((b.pwms (pwmSlice pin)).wrap + 1)))
        ((b.pwms (pwmSlice pin)).inversion pin)) := by
  unfold Board.drive Board.pinDrive
  rw [if_pos h]
  dsimp only
  split <;> rfl

theorem publishes_pwm {b : Board} {pin : ℕ} {signal : VoltageSignal}
    (h : b.publishes pin = some signal) : b.drive pin = some signal := by
  unfold Board.publishes at h
  split at h
  · cases h
  · exact h

theorem railVoltage_spec (high : Bool) (uptimeUs : Int64) :
    (VoltageSignal.constant (railVoltage high)).spec.voltageAtUptimeMicros uptimeUs
      = ((railVoltage true : ℚ) : ℝ) ↔ high = true := by
  cases high with
  | true => exact iff_of_true rfl rfl
  | false =>
    refine iff_of_false (fun h => ?_) Bool.false_ne_true
    norm_num [VoltageSignal.spec, VoltageSignalSpec.voltageAtUptimeMicros, railVoltage] at h

/-- The phase of a pulse is the position of the counter in turns. -/
theorem pulse_phase {state : PwmState} {origin uptimeUs : Int64}
    (horigin : state.originUs = origin.toInt) :
    normalizeCycles (carrierPhase ⟨0, railVoltage true,
        125000000 * 16 / state.divider16 / (state.wrap + 1), Int64.ofInt state.originUs⟩ 0 uptimeUs
      - Int.fract (-(state.counter : ℚ) / (state.wrap + 1)))
      = Int.fract (state.position uptimeUs.toInt / (state.wrap + 1)) := by
  rw [normalizeCycles_eq, carrierPhase_eq _ ⟨le_rfl, zero_lt_one⟩, horigin, Int64.ofInt_toInt,
    zero_add, PeriodicVoltageCarrier.cycles, PwmState.position, horigin]
  generalize hphase : (125000000 * 16 / (state.divider16 : ℚ) / (state.wrap + 1)
    * ((uptimeUs.toInt - origin.toInt : ℤ) : ℚ) / 1000000 : ℚ) = phase
  generalize hstart : (-(state.counter : ℚ) / (state.wrap + 1)) = start
  have hposition : (((uptimeUs.toInt - origin.toInt : ℤ) : ℚ) * 125 * 16 / state.divider16
      + state.counter) / (state.wrap + 1) = phase - start := by
    rw [← hphase, ← hstart]
    ring
  rw [hposition, Int.fract.eq_1 phase, Int.fract.eq_1 start]
  refine fract_congr (⌊start⌋ - ⌊phase⌋) ?_
  push_cast
  ring

/-- A pulse is active while the counter is below the level. -/
theorem pulse_active {state : PwmState} {now : ℤ} (hfits : state.Fits)
    (henabled : state.enabled = true) (h : state.originUs ≤ now) (level : ℕ) :
    Int.fract (state.position now / (state.wrap + 1)) < min ((level : ℚ) / (state.wrap + 1)) 1
      ↔ state.counterAt now < level := by
  have hpos : (0 : ℚ) < state.wrap + 1 := by positivity
  have hnonneg := Int.fract_nonneg (state.position now / (state.wrap + 1))
  rw [state.counterAt_eq_floor hfits henabled h, Nat.floor_lt (mul_nonneg hpos.le hnonneg),
    lt_min_iff, lt_div_iff₀ hpos, mul_comm]
  exact and_iff_left (Int.fract_lt_one _)

/-- The signal published on a pin is high exactly when the counter is below the level of its
channel, the other way round for an inverted channel. -/
theorem waveform_agrees {b : Board} {pin : ℕ} {signal : VoltageSignal} {origin uptimeUs : Int64}
    (hfunction : (b.pins pin).function = .pwm) (hpublished : b.publishes pin = some signal)
    (hfits : (b.pwms (pwmSlice pin)).Fits)
    (horigin : (b.pwms (pwmSlice pin)).originUs = origin.toInt) (hafter : origin ≤ uptimeUs) :
    signal.spec.voltageAtUptimeMicros uptimeUs = ((railVoltage true : ℚ) : ℝ) ↔
      (decide ((b.pwms (pwmSlice pin)).counterAt uptimeUs.toInt
        < (b.pwms (pwmSlice pin)).level pin) ≠ (b.pwms (pwmSlice pin)).inversion pin) := by
  have hdrive := drive_pwm hfunction
  rw [publishes_pwm hpublished, Option.some.injEq] at hdrive
  subst hdrive
  rw [Int64.le_iff_toInt_le, ← horigin] at hafter
  generalize b.pwms (pwmSlice pin) = state at hfits horigin hafter ⊢
  cases henabled : state.enabled with
  | false =>
    rw [Bool.not_false, if_pos rfl, railVoltage_spec, PwmState.counterAt, henabled]
    simp
  | true =>
    have hactive := pulse_active hfits henabled hafter (state.level pin)
    rw [Bool.not_true, if_neg Bool.false_ne_true]
    have hhigh : squareHigh ⟨0, railVoltage true,
        125000000 * 16 / state.divider16 / (state.wrap + 1), Int64.ofInt state.originUs⟩
        (.constant (min (state.level pin / (state.wrap + 1)) 1))
        (Int.fract (-(state.counter : ℚ) / (state.wrap + 1))) (state.inversion pin) uptimeUs
        = (decide (state.counterAt uptimeUs.toInt < state.level pin) != state.inversion pin) := by
      unfold squareHigh
      dsimp only
      rw [pulse_phase horigin]
      simp only [activeDuty, hactive]
      cases state.inversion pin <;> simp
    simp only [VoltageSignal.spec, VoltageSignalSpec.voltageAtUptimeMicros, hhigh]
    cases decide (state.counterAt uptimeUs.toInt < state.level pin) <;>
      cases state.inversion pin <;> norm_num [railVoltage]

/-- A slice of a hundred ticks of one microsecond, a quarter of them high on its first channel. -/
def quarter : Board :=
  { initial with
    pins := fun _ => { function := .pwm }
    pwms := fun _ => { enabled := true, divider16 := 2000, wrap := 99, levels := (25, 100) } }

theorem waveform_agrees_quarter :
    (VoltageSignal.square 0 (33 / 10) 10000 (1 / 4) 0 0 false).spec.voltageAtUptimeMicros 224
      = ((railVoltage true : ℚ) : ℝ) ↔
    (decide ((quarter.pwms (pwmSlice 0)).counterAt (224 : Int64).toInt
      < (quarter.pwms (pwmSlice 0)).level 0) ≠ (quarter.pwms (pwmSlice 0)).inversion 0) :=
  waveform_agrees rfl (by decide +kernel)
    ⟨by decide, by decide, by decide, by decide⟩ (show (0 : ℤ) = (0 : Int64).toInt by decide)
    (by decide)

end Waveforms

section Updates

variable {fixture : Fixture} {b b' : Board} {slice : ℕ} {now : ℤ}

theorem pwms_publishSlice (b : Board) (slice : ℕ) : (b.publishSlice slice).pwms = b.pwms := by
  unfold Board.publishSlice
  induction List.range gpioCount generalizing b with
  | nil => rfl
  | cons pin pins ih =>
    rw [List.foldl_cons, ih]
    split
    · cases b.publishes pin with
      | none => rfl
      | some signal => rfl
    · rfl

theorem storePwmState_ok {state : PwmState} (h : b.storePwmState fixture slice state = .ok b') :
    b'.pwms slice = state := by
  obtain ⟨stored, hstored, h⟩ := bind_ok.mp h
  obtain ⟨-, -, hstored⟩ := bind_ok.mp hstored
  obtain ⟨-, hstored⟩ := check_bind_ok.mp hstored
  obtain ⟨-, hstored⟩ := check_bind_ok.mp hstored
  obtain ⟨-, hstored⟩ := check_bind_ok.mp hstored
  have hpwms : Function.update b.pwms slice state = stored.pwms :=
    congrArg Board.pwms (pure_ok.mp hstored)
  rw [← pure_ok.mp h, Board.endPublication, pwms_publishSlice, ← hpwms, Function.update_self]

theorem current_ok {state : PwmState} (h : b.current slice now = .ok state) :
    slice < 8 ∧ state = { b.pwms slice with
      counter := (b.pwms slice).counterAt now
      originUs := now } := by
  unfold Board.current Board.pwmCounter Board.pwmState at h
  obtain ⟨stored, hstored, h⟩ := bind_ok.mp h
  obtain ⟨hslice, hstored⟩ := check_bind_ok.mp hstored
  obtain ⟨counter, hcounter, h⟩ := bind_ok.mp h
  obtain ⟨again, hagain, hcounter⟩ := bind_ok.mp hcounter
  obtain ⟨-, hagain⟩ := check_bind_ok.mp hagain
  cases pure_ok.mp hstored
  cases pure_ok.mp hagain
  cases pure_ok.mp hcounter
  exact ⟨hslice, (pure_ok.mp h).symm⟩

/-- What a slice is after updates at an uptime: rebased, with levels and inversions of their own. -/
structure Rebased (state state' : PwmState) (now : ℤ) : Prop where
  enabled : state'.enabled = state.enabled
  divider : state'.divider16 = state.divider16
  wrap : state'.wrap = state.wrap
  counter : state'.counter = state.counterAt now
  origin : state'.originUs = now

theorem perform_rebased {update : Update} (h : update.perform fixture slice now b = .ok b') :
    slice < 8 ∧ Rebased (b.pwms slice) (b'.pwms slice) now := by
  cases update with
  | chanLevel chan level =>
    obtain ⟨-, h⟩ := check_bind_ok.mp h
    obtain ⟨state, hcurrent, h⟩ := bind_ok.mp h
    obtain ⟨hslice, rfl⟩ := current_ok hcurrent
    rw [storePwmState_ok h]
    exact ⟨hslice, rfl, rfl, rfl, rfl, rfl⟩
  | bothLevels levelA levelB =>
    obtain ⟨state, hcurrent, h⟩ := bind_ok.mp h
    obtain ⟨hslice, rfl⟩ := current_ok hcurrent
    rw [storePwmState_ok h]
    exact ⟨hslice, rfl, rfl, rfl, rfl, rfl⟩
  | polarity invertA invertB =>
    obtain ⟨state, hcurrent, h⟩ := bind_ok.mp h
    obtain ⟨hslice, rfl⟩ := current_ok hcurrent
    rw [storePwmState_ok h]
    exact ⟨hslice, rfl, rfl, rfl, rfl, rfl⟩

theorem counterAt_lt {state : PwmState} (hfits : state.Fits) (henabled : state.enabled = true)
    (h : state.originUs ≤ now) : state.counterAt now < state.wrap + 1 := by
  rw [state.counterAt_eq hfits henabled h]
  exact Nat.mod_lt _ (Nat.succ_pos _)

theorem Rebased.fits {state state' : PwmState} (h : Rebased state state' now) (hfits : state.Fits)
    (henabled : state.enabled = true) (hafter : state.originUs ≤ now) : state'.Fits := by
  have hlt := counterAt_lt hfits henabled hafter
  have hwrap := hfits.wrap
  exact ⟨h.divider ▸ hfits.divider_ge, h.divider ▸ hfits.divider_le, h.wrap ▸ hwrap,
    by rw [h.counter]; omega⟩

/-- At the uptime of an update the rebased counter is the one that was read for it. -/
theorem Rebased.counterAt_now {state state' : PwmState} (h : Rebased state state' now)
    (hfits : state.Fits) (henabled : state.enabled = true) (hafter : state.originUs ≤ now) :
    state'.counterAt now = state.counterAt now := by
  rw [state'.counterAt_eq (h.fits hfits henabled hafter) (h.enabled.trans henabled) h.origin.le,
    h.origin, sub_self, h.counter, h.wrap]
  simp [Nat.mod_eq_of_lt (counterAt_lt hfits henabled hafter)]

/-- Updates at one uptime rebase the slice once. -/
theorem updates_rebased {updates : List Update} (hfits : (b.pwms slice).Fits)
    (henabled : (b.pwms slice).enabled = true) (hafter : (b.pwms slice).originUs ≤ now)
    (h : updates.foldlM (fun b u => u.perform fixture slice now b) b = .ok b') :
    (updates = [] ∧ b' = b) ∨
      (updates ≠ [] ∧ slice < 8 ∧ Rebased (b.pwms slice) (b'.pwms slice) now) := by
  cases updates with
  | nil => exact Or.inl ⟨rfl, (pure_ok.mp h).symm⟩
  | cons update updates =>
    refine Or.inr ⟨List.cons_ne_nil _ _, ?_⟩
    rw [List.foldlM_cons] at h
    obtain ⟨b₁, hfirst, hrest⟩ := bind_ok.mp h
    obtain ⟨hslice, hrebased⟩ := perform_rebased hfirst
    clear h hfirst
    induction updates generalizing b₁ with
    | nil =>
      cases pure_ok.mp hrest
      exact ⟨hslice, hrebased⟩
    | cons update' updates ih =>
      rw [List.foldlM_cons] at hrest
      obtain ⟨b₂, hnext, hrest⟩ := bind_ok.mp hrest
      obtain ⟨-, hagain⟩ := perform_rebased hnext
      refine ih b₂ hrest ⟨hagain.enabled.trans hrebased.enabled,
        hagain.divider.trans hrebased.divider, hagain.wrap.trans hrebased.wrap, ?_, hagain.origin⟩
      rw [hagain.counter, hrebased.counterAt_now hfits henabled hafter]

/-- Two elapsed times are one, but for a tick that their fractions make up together. -/
theorem div_add_div_carry (m n : ℕ) {d : ℕ} (hd : 0 < d) :
    (m + n) / d = m / d + n / d + if m % d + n % d < d then 0 else 1 := by
  rw [Nat.add_div hd]
  split <;> split <;> omega

theorem add_one_mod_eq {n wrap : ℕ} : (n + 1) % (wrap + 1) = n % (wrap + 1) ↔ wrap = 0 := by
  constructor
  · intro h
    by_contra hne
    have hlt : n % (wrap + 1) < wrap + 1 := Nat.mod_lt n (Nat.succ_pos wrap)
    rw [Nat.add_mod, Nat.mod_eq_of_lt (show 1 < wrap + 1 by omega)] at h
    rcases Nat.lt_or_ge (n % (wrap + 1) + 1) (wrap + 1) with hfits | hover
    · rw [Nat.mod_eq_of_lt hfits] at h
      omega
    · rw [show n % (wrap + 1) + 1 = wrap + 1 by omega, Nat.mod_self] at h
      omega
  · intro h
    subst h
    simp [Nat.mod_one]

/-- A rebased counter reads the same later unless the fraction of a tick that the rebasing dropped
is missing. -/
theorem Rebased.counterAt_later {state state' : PwmState} {later : ℤ} (h : Rebased state state' now)
    (hfits : state.Fits) (henabled : state.enabled = true) (hafter : state.originUs ≤ now)
    (hlater : now ≤ later) :
    state'.counterAt later = state.counterAt later ↔ state.wrap = 0 ∨
      2000 * (now - state.originUs).toNat % state.divider16
        + 2000 * (later - now).toNat % state.divider16 < state.divider16 := by
  have hpos : 0 < state.divider16 := by
    have := hfits.divider_ge
    omega
  have hsum : 2000 * (later - state.originUs).toNat
      = 2000 * (now - state.originUs).toNat + 2000 * (later - now).toNat := by
    omega
  rw [state'.counterAt_eq (h.fits hfits henabled hafter) (h.enabled.trans henabled)
      (h.origin.le.trans hlater), state.counterAt_eq hfits henabled (hafter.trans hlater),
    h.counter, state.counterAt_eq hfits henabled hafter, h.origin, h.divider, h.wrap, hsum,
    div_add_div_carry _ _ hpos, Nat.add_mod_mod]
  generalize 2000 * (now - state.originUs).toNat / state.divider16 = ticks
  generalize 2000 * (later - now).toNat / state.divider16 = more
  split
  · rename_i hcarry
    refine iff_of_true ?_ (Or.inr hcarry)
    congr 1
    omega
  · rename_i hcarry
    rw [show ticks + more + 1 + state.counter = more + (ticks + state.counter) + 1 by omega,
      eq_comm, add_one_mod_eq]
    exact (or_iff_left hcarry).symm

/-- Updates of levels and polarities leave the counter of a running slice as it was read later,
exactly if there is none, the counter has one value only, or the fractions of a tick before and
after them stay below a tick together. -/
theorem updates_keep_counter {updates : List Update} {later : ℤ} (hfits : (b.pwms slice).Fits)
    (henabled : (b.pwms slice).enabled = true) (hafter : (b.pwms slice).originUs ≤ now)
    (hlater : now ≤ later)
    (h : updates.foldlM (fun b u => u.perform fixture slice now b) b = .ok b') :
    b'.pwmCounter slice later = b.pwmCounter slice later ↔
      updates = [] ∨ (b.pwms slice).wrap = 0 ∨
        2000 * (now - (b.pwms slice).originUs).toNat % (b.pwms slice).divider16
          + 2000 * (later - now).toNat % (b.pwms slice).divider16 < (b.pwms slice).divider16 := by
  rcases updates_rebased hfits henabled hafter h with ⟨hnil, rfl⟩ | ⟨hne, hslice, hrebased⟩
  · exact iff_of_true rfl (Or.inl hnil)
  · have hread : ∀ b : Board, b.pwmCounter slice later = .ok ((b.pwms slice).counterAt later) := by
      intro b
      simp [Board.pwmCounter, Board.pwmState, check, hslice, bind, Except.bind, pure, Except.pure]
    rw [hread, hread, Except.ok.injEq, hrebased.counterAt_later hfits henabled hafter hlater]
    exact (or_iff_right hne).symm

/-- A slice whose ticks take more than two microseconds. -/
def slow : Board :=
  { initial with pwms := fun _ => { enabled := true, divider16 := 4095 } }

theorem updates_keep_counter_slow : ∃ b' : Board,
    b'.pwmCounter 0 3 = slow.pwmCounter 0 3 ↔
      [Update.chanLevel 0 1] = [] ∨ (slow.pwms 0).wrap = 0 ∨
        2000 * (2 - (slow.pwms 0).originUs).toNat % (slow.pwms 0).divider16
          + 2000 * ((3 : ℤ) - 2).toNat % (slow.pwms 0).divider16 < (slow.pwms 0).divider16 := by
  obtain ⟨b', h⟩ : ∃ b', [Update.chanLevel 0 1].foldlM
      (fun b u => u.perform ⟨false, fun _ => 0, fun _ => 0⟩ 0 2 b) slow = .ok b' := ⟨_, rfl⟩
  exact ⟨b', updates_keep_counter ⟨by decide, by decide, by decide, by decide⟩ rfl (by decide)
    (by decide) h⟩

/-- A level set two microseconds into a tick delays the tick. -/
theorem lost_fraction :
    ((slow.pwmSetChanLevel ⟨false, fun _ => 0, fun _ => 0⟩ 0 0 1 2).bind
      fun b => b.pwmCounter 0 3).toOption = some 0 ∧
    (slow.pwmCounter 0 3).toOption = some 1 := by
  decide +kernel

end Updates

end RooTesting.PicoBoard
