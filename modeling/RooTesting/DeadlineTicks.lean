import RooTesting.ConditionVariable
import Mathlib.Algebra.Order.Floor.Div
import Mathlib.Tactic.Cases
import Mathlib.Algebra.Group.Int.Defs
import Mathlib.Algebra.Group.Nat.Defs

/-! # The ticks of a timed wait

`wait_until_impl` turns the distance to its deadline into nanoseconds, milliseconds, and ticks,
once before the first block and again whenever a block ends without a notification. The machine of
`ConditionVariable` says who wakes whom; here it is the numbers that count. -/
namespace RooTesting.DeadlineTicks

/-- A port: its `portTICK_PERIOD_MS`, and the width of its `TickType_t`. -/
structure Port where
  tickPeriodMs : ℕ
  tickBits : ℕ
  period_pos : 0 < tickPeriodMs
  period_le : tickPeriodMs ≤ 1000
  bits_pos : 0 < tickBits
  bits_le : tickBits ≤ 64

/-- `TickType_t` is `unsigned long` in the ESP-IDF build. -/
def idfLinux : Port := ⟨1, 64, Nat.one_pos, by decide, by decide, by decide⟩

def picoPosix : Port := ⟨1, 32, Nat.one_pos, by decide, by decide, by decide⟩

def Port.tickSize (port : Port) : ℕ := 2 ^ port.tickBits

/-- `portMAX_DELAY`. -/
def Port.maxDelay (port : Port) : ℕ := port.tickSize - 1

/-- A signed 64-bit result; an overflow is undefined. -/
def int64 (x : ℤ) : Option ℤ := if -2 ^ 63 ≤ x ∧ x < 2 ^ 63 then some x else none

/-- `uint64_t ns = (when - now).count()`. -/
def nanos (left : ℤ) : ℕ := (left % 2 ^ 64).toNat

def millis (ns : ℕ) : ℕ := (ns + 999999) % 2 ^ 64 / 1000000

def Port.ticks (port : Port) (ms : ℕ) : ℕ :=
  (ms + port.tickPeriodMs - 1) % 2 ^ 64 / port.tickPeriodMs % port.tickSize

/-- A block asked of `xTaskNotifyWait`, with the clock reading it was computed from. -/
structure Block where
  now : ℤ
  ms : ℕ
  delay : ℕ
  deriving DecidableEq

def blockFor (port : Port) (deadline now : ℤ) : Option Block :=
  (int64 (deadline - now)).map fun left =>
    ⟨now, millis (nanos left), port.ticks (millis (nanos left))⟩

/-- How a block ends: by a notification, or without one and then the clock is read. -/
inductive Wake | signaled | missed (now : ℤ)
  deriving DecidableEq

inductive Outcome | blocked | noTimeout | timeout (now : ℤ) | undefined
  deriving DecidableEq

structure Run where
  blocks : List Block
  outcome : Outcome
  deriving DecidableEq

/-- The loop, from the clock reading its next delay is computed from. -/
def waitUntilImpl (port : Port) (deadline : ℤ) : ℤ → List Wake → Run
  | now, [] =>
      match blockFor port deadline now with
      | some block => ⟨[block], .blocked⟩
      | none => ⟨[], .undefined⟩
  | now, .signaled :: _ =>
      match blockFor port deadline now with
      | some block => ⟨[block], .noTimeout⟩
      | none => ⟨[], .undefined⟩
  | now, .missed next :: wakes =>
      match blockFor port deadline now with
      | some block =>
          if deadline ≤ next then ⟨[block], .timeout next⟩
          else
            let rest := waitUntilImpl port deadline next wakes
            ⟨block :: rest.blocks, rest.outcome⟩
      | none => ⟨[], .undefined⟩

/-- `wait_for`, whose caller reads the clock first. -/
def waitFor (port : Port) (duration sysNow now : ℤ) (wakes : List Wake) : Run :=
  match int64 (sysNow + duration) with
  | some deadline => waitUntilImpl port deadline now wakes
  | none => ⟨[], .undefined⟩

/-- The milliseconds and the ticks that are left, rounded up, and none of a passed deadline. -/
def millisAhead (left : ℤ) : ℕ := left.toNat ⌈/⌉ 1000000

def Port.ticksAhead (port : Port) (left : ℤ) : ℕ := left.toNat ⌈/⌉ (1000000 * port.tickPeriodMs)

/-- How long a block may last: `portMAX_DELAY` has no end. -/
def Port.Lasts (port : Port) (delay limit : ℕ) : Prop := delay ≠ port.maxDelay ∧ delay ≤ limit

/-- The numbers of a block are the exact ones, and it ends by the deadline rounded up. -/
structure Block.Exact (port : Port) (deadline : ℤ) (block : Block) : Prop where
  ms : block.ms = millisAhead (deadline - block.now)
  delay : block.delay = port.ticksAhead (deadline - block.now)
  lasts : port.Lasts block.delay (port.ticksAhead (deadline - block.now))

/-- A wait that keeps its deadline. -/
structure Run.Kept (port : Port) (deadline : ℤ) (run : Run) : Prop where
  defined : run.outcome ≠ .undefined
  punctual : ∀ now, run.outcome = .timeout now → deadline ≤ now
  exact : ∀ block ∈ run.blocks, block.Exact port deadline

/-- The clock readings that a delay is computed from. -/
def readings (deadline : ℤ) : ℤ → List Wake → List ℤ
  | now, [] => [now]
  | now, .signaled :: _ => [now]
  | now, .missed next :: wakes =>
      if deadline ≤ next then [now] else now :: readings deadline next wakes

/-- The deadline passed less than a millisecond ago, or lies ahead within the ticks of the port. -/
structure Port.InReach (port : Port) (deadline now : ℤ) : Prop where
  past : -999999 ≤ deadline - now
  defined : deadline - now < 2 ^ 63
  ahead : port.ticksAhead (deadline - now) < port.maxDelay

section Ceilings

theorem ceilDiv_ceilDiv (n : ℕ) {a b : ℕ} (ha : 0 < a) (hb : 0 < b) :
    n ⌈/⌉ a ⌈/⌉ b = n ⌈/⌉ (a * b) := by
  apply eq_of_forall_ge_iff
  intro m
  rw [ceilDiv_le_iff_le_mul hb, ceilDiv_le_iff_le_mul ha, ceilDiv_le_iff_le_mul (Nat.mul_pos ha hb),
    Nat.mul_assoc]

theorem ceilDiv_le_self (n : ℕ) {a : ℕ} (ha : 0 < a) : n ⌈/⌉ a ≤ n := by
  rw [ceilDiv_le_iff_le_mul ha]
  exact Nat.le_mul_of_pos_left n ha

end Ceilings

section Conversion
variable {port : Port}

theorem nanos_of_nonneg {left : ℤ} (h : 0 ≤ left) (hlt : left < 2 ^ 63) :
    nanos left = left.toNat := by
  unfold nanos
  omega

theorem nanos_of_neg {left : ℤ} (h : left < 0) (hlt : -2 ^ 63 ≤ left) :
    (nanos left : ℤ) = 2 ^ 64 + left := by
  unfold nanos
  omega

theorem millis_of_ahead {left : ℤ} (h : 0 ≤ left) (hlt : left < 2 ^ 63) :
    millis (nanos left) = millisAhead left := by
  rw [nanos_of_nonneg h hlt, millisAhead, Nat.ceilDiv_eq_add_pred_div, millis]
  omega

/-- Within a millisecond of the deadline both wraps cancel. -/
theorem millis_of_nearPast {left : ℤ} (h : left < 0) (hge : -999999 ≤ left) :
    millis (nanos left) = millisAhead left := by
  have hnanos := nanos_of_neg h (by omega)
  have hzero : left.toNat = 0 := by omega
  rw [millisAhead, hzero, zero_ceilDiv, millis]
  omega

/-- Earlier than that the sum keeps its wrap. -/
theorem millis_of_past {left : ℤ} (h : left < -999999) (hge : -2 ^ 63 ≤ left) :
    millis (nanos left) ≠ millisAhead left := by
  have hnanos := nanos_of_neg (by omega) hge
  have hzero : left.toNat = 0 := by omega
  rw [millisAhead, hzero, zero_ceilDiv, millis]
  omega

theorem millis_iff {left : ℤ} (hge : -2 ^ 63 ≤ left) (hlt : left < 2 ^ 63) :
    millis (nanos left) = millisAhead left ↔ -999999 ≤ left := by
  constructor
  · intro h
    rcases Int.lt_or_le left (-999999) with hpast | hpast
    · exact absurd h (millis_of_past hpast hge)
    · exact hpast
  · intro h
    rcases Int.lt_or_le left 0 with hneg | hneg
    · exact millis_of_nearPast hneg h
    · exact millis_of_ahead hneg hlt

theorem millisAhead_lt {left : ℤ} (hlt : left < 2 ^ 63) : millisAhead left < 2 ^ 63 := by
  have h := ceilDiv_le_self left.toNat (a := 1000000) (by omega)
  unfold millisAhead
  omega

/-- Rounding up twice is rounding up once, and the cut to `TickType_t` is all that is left. -/
theorem ticks_millisAhead {left : ℤ} (hlt : left < 2 ^ 63) :
    port.ticks (millisAhead left) = port.ticksAhead left % port.tickSize := by
  have hms := millisAhead_lt hlt
  have hpos := port.period_pos
  have hle := port.period_le
  have hwrap : (millisAhead left + port.tickPeriodMs - 1) % 2 ^ 64 =
      millisAhead left + port.tickPeriodMs - 1 := Nat.mod_eq_of_lt (by omega)
  have hticks : (millisAhead left + port.tickPeriodMs - 1) / port.tickPeriodMs =
      port.ticksAhead left := by
    rw [← Nat.ceilDiv_eq_add_pred_div, millisAhead, ceilDiv_ceilDiv _ (by omega) hpos]
    rfl
  rw [Port.ticks, hwrap, hticks]

theorem blockFor_of_defined {deadline now : ℤ} (hge : -2 ^ 63 ≤ deadline - now)
    (hlt : deadline - now < 2 ^ 63) :
    blockFor port deadline now = some ⟨now, millis (nanos (deadline - now)),
      port.ticks (millis (nanos (deadline - now)))⟩ := by
  rw [blockFor, int64, if_pos ⟨hge, hlt⟩]
  rfl

theorem blockFor_cases (port : Port) (deadline now : ℤ) :
    (∃ block, blockFor port deadline now = some block ∧ block.now = now ∧
      block.ms = millis (nanos (deadline - now)) ∧
      block.delay = port.ticks (millis (nanos (deadline - now))) ∧
      -2 ^ 63 ≤ deadline - now ∧ deadline - now < 2 ^ 63) ∨
    (blockFor port deadline now = none ∧
      ¬ (-2 ^ 63 ≤ deadline - now ∧ deadline - now < 2 ^ 63)) := by
  rcases Decidable.em (-2 ^ 63 ≤ deadline - now ∧ deadline - now < 2 ^ 63) with h | h
  · left
    exact ⟨_, blockFor_of_defined h.1 h.2, rfl, rfl, rfl, h.1, h.2⟩
  · right
    refine ⟨?_, h⟩
    rw [blockFor, int64, if_neg h]
    rfl

/-- A block is exact when and only when its clock reading has the deadline in reach. -/
theorem exact_iff {deadline now : ℤ} {block : Block} (h : blockFor port deadline now = some block) :
    block.Exact port deadline ↔ port.InReach deadline now := by
  rcases blockFor_cases port deadline now with ⟨b, hb, hnow, hms, hdelay, hge, hlt⟩ | ⟨hnone, -⟩
  · obtain rfl : b = block := Option.some.inj (hb.symm.trans h)
    have hsize : 0 < port.tickSize := Nat.two_pow_pos _
    constructor
    · intro hexact
      have hmillis : millis (nanos (deadline - now)) = millisAhead (deadline - now) := by
        rw [← hms, hexact.ms, hnow]
      have hticks := hexact.delay
      rw [hdelay, hmillis, ticks_millisAhead hlt, hnow] at hticks
      have hcut := Nat.mod_lt (port.ticksAhead (deadline - now)) hsize
      have hmax := hexact.lasts.1
      rw [hdelay, hmillis, ticks_millisAhead hlt, hticks] at hmax
      refine ⟨(millis_iff hge hlt).1 hmillis, hlt, ?_⟩
      unfold Port.maxDelay at *
      omega
    · intro hreach
      have hmillis := (millis_iff hge hlt).2 hreach.past
      have hahead := hreach.ahead
      have hticks : port.ticksAhead (deadline - now) % port.tickSize =
          port.ticksAhead (deadline - now) :=
        Nat.mod_eq_of_lt (by unfold Port.maxDelay at hahead; omega)
      have hexact : b.delay = port.ticksAhead (deadline - b.now) := by
        rw [hdelay, hmillis, ticks_millisAhead hlt, hticks, hnow]
      refine ⟨by rw [hms, hmillis, hnow], hexact, ?_, hexact.le⟩
      rw [hexact, hnow]
      exact hahead.ne
  · rw [hnone] at h
    cases h

theorem inReach_defined {deadline now : ℤ} (h : port.InReach deadline now) :
    ∃ block, blockFor port deadline now = some block := by
  have hpast := h.past
  exact ⟨_, blockFor_of_defined (by omega) h.defined⟩

end Conversion

section Runs
variable {port : Port} {deadline : ℤ}

theorem kept_single {now : ℤ} {block : Block} {outcome : Outcome}
    (h : blockFor port deadline now = some block) (hdefined : outcome ≠ .undefined)
    (hpunctual : ∀ at', outcome = .timeout at' → deadline ≤ at') :
    Run.Kept port deadline ⟨[block], outcome⟩ ↔ port.InReach deadline now := by
  rw [← exact_iff h]
  constructor
  · intro hkept
    exact hkept.exact block (List.mem_singleton_self block)
  · intro hexact
    refine ⟨hdefined, hpunctual, ?_⟩
    intro b hb
    rwa [List.mem_singleton.1 hb]

theorem kept_cons {now : ℤ} {block : Block} {run : Run} (h : blockFor port deadline now = some block) :
    Run.Kept port deadline ⟨block :: run.blocks, run.outcome⟩ ↔
      port.InReach deadline now ∧ Run.Kept port deadline run := by
  rw [← exact_iff h]
  constructor
  · intro hkept
    refine ⟨hkept.exact block List.mem_cons_self, hkept.defined, hkept.punctual, ?_⟩
    intro b hb
    exact hkept.exact b (List.mem_cons_of_mem block hb)
  · rintro ⟨hexact, hkept⟩
    refine ⟨hkept.defined, hkept.punctual, ?_⟩
    intro b hb
    rcases List.mem_cons.1 hb with rfl | hb
    · exact hexact
    · exact hkept.exact b hb

theorem not_kept_undefined : ¬ Run.Kept port deadline ⟨[], .undefined⟩ :=
  fun h => h.defined rfl

theorem not_inReach_of_none {now : ℤ} (h : blockFor port deadline now = none) :
    ¬ port.InReach deadline now := by
  intro hreach
  obtain ⟨block, hblock⟩ := inReach_defined hreach
  rw [h] at hblock
  cases hblock

/-- The clock alone decides when a wait ends without a notification. -/
theorem punctual (port : Port) (deadline now : ℤ) (wakes : List Wake) {at' : ℤ}
    (h : (waitUntilImpl port deadline now wakes).outcome = .timeout at') : deadline ≤ at' := by
  induction wakes generalizing now with
  | nil =>
    unfold waitUntilImpl at h
    cases hblock : blockFor port deadline now <;> rw [hblock] at h <;> cases h
  | cons wake wakes ih =>
    cases wake with
    | signaled =>
      unfold waitUntilImpl at h
      cases hblock : blockFor port deadline now <;> rw [hblock] at h <;> cases h
    | missed next =>
      unfold waitUntilImpl at h
      cases hblock : blockFor port deadline now with
      | none => rw [hblock] at h; cases h
      | some block =>
        rw [hblock] at h
        rcases Int.lt_or_le next deadline with hlt | hle
        · simp only [if_neg (Int.not_le.2 hlt)] at h
          exact ih next h
        · simp only [if_pos hle] at h
          cases h
          exact hle

/-- A timed wait keeps its deadline when and only when every clock reading that it computes a delay
from has the deadline in reach. -/
theorem kept_iff_inReach (port : Port) (deadline now : ℤ) (wakes : List Wake) :
    (waitUntilImpl port deadline now wakes).Kept port deadline ↔
      ∀ reading ∈ readings deadline now wakes, port.InReach deadline reading := by
  induction wakes generalizing now with
  | nil =>
    simp only [readings, List.mem_singleton, forall_eq, waitUntilImpl]
    cases hblock : blockFor port deadline now with
    | none => exact iff_of_false not_kept_undefined (not_inReach_of_none hblock)
    | some block => exact kept_single hblock (by simp) (by simp)
  | cons wake wakes ih =>
    cases wake with
    | signaled =>
      simp only [readings, List.mem_singleton, forall_eq, waitUntilImpl]
      cases hblock : blockFor port deadline now with
      | none => exact iff_of_false not_kept_undefined (not_inReach_of_none hblock)
      | some block => exact kept_single hblock (by simp) (by simp)
    | missed next =>
      simp only [readings, waitUntilImpl]
      cases hblock : blockFor port deadline now with
      | none =>
        apply iff_of_false not_kept_undefined
        intro h
        apply not_inReach_of_none hblock
        apply h
        split <;> simp
      | some block =>
        rcases Int.lt_or_le next deadline with hlt | hle
        · simp only [if_neg (Int.not_le.2 hlt), List.forall_mem_cons]
          rw [kept_cons hblock, ih next]
        · simp only [if_pos hle, List.mem_singleton, forall_eq]
          refine kept_single hblock (by simp) ?_
          intro at' hat
          cases hat
          exact hle

/-- A wait whose deadline passed a millisecond before it began asks for a block of centuries. -/
theorem passed_deadline_blocks :
    ¬ (waitUntilImpl idfLinux 1000000 2000000 [.missed 3000000]).Kept idfLinux 1000000 := by
  intro h
  have hblock := h.exact ⟨2000000, 18446744073709, 18446744073709⟩ (by decide +kernel)
  exact absurd hblock.ms (by decide +kernel)

theorem readings_before (deadline now : ℤ) (wakes : List Wake) {reading : ℤ}
    (h : reading ∈ readings deadline now wakes) : reading = now ∨ reading < deadline := by
  induction wakes generalizing now with
  | nil => exact .inl (List.mem_singleton.1 h)
  | cons wake wakes ih =>
    cases wake with
    | signaled => exact .inl (List.mem_singleton.1 h)
    | missed next =>
      unfold readings at h
      split at h
      · exact .inl (List.mem_singleton.1 h)
      · rename_i hlt
        rcases List.mem_cons.1 h with rfl | h
        · exact .inl rfl
        · rcases ih next h with rfl | h
          · exact .inr (Int.not_le.1 hlt)
          · exact .inr h

theorem ticksAhead_mono (port : Port) {a b : ℤ} (h : a ≤ b) :
    port.ticksAhead a ≤ port.ticksAhead b := by
  have hpos : 0 < 1000000 * port.tickPeriodMs := Nat.mul_pos (by omega) port.period_pos
  exact (gc_mul_ceilDiv hpos).monotone_l (Int.toNat_le_toNat h)

/-- A `wait_for` of a duration within the ticks of the port keeps its deadline, if the clock never
runs back and is read within a millisecond of the end of the duration at first. -/
theorem waitFor_kept {duration sysNow now : ℤ} {wakes : List Wake}
    (hdeadline : int64 (sysNow + duration) = some deadline) (hduration : duration < 2 ^ 63)
    (hticks : port.ticksAhead duration < port.maxDelay) (hfirst : now ≤ deadline + 999999)
    (hclock : ∀ reading ∈ readings deadline now wakes, sysNow ≤ reading) :
    (waitFor port duration sysNow now wakes).Kept port deadline := by
  have hsum : deadline = sysNow + duration := by
    unfold int64 at hdeadline
    split at hdeadline
    · exact (Option.some.inj hdeadline).symm
    · cases hdeadline
  rw [waitFor, hdeadline]
  apply (kept_iff_inReach port deadline now wakes).2
  intro reading hreading
  have hfrom := hclock reading hreading
  have hpast : -999999 ≤ deadline - reading := by
    rcases readings_before deadline now wakes hreading with rfl | hbefore <;> omega
  refine ⟨hpast, by omega, ?_⟩
  have hmono := ticksAhead_mono port (a := deadline - reading) (b := duration) (by omega)
  omega

/-- The machine's delays are those of a 32-bit tick. -/
theorem delayUntil_eq_ticks (h : port.tickBits = 32) (deadline now : ℤ) :
    ConditionVariable.delayUntil port.tickPeriodMs deadline now =
      port.ticks (millis (nanos (deadline - now))) := by
  have hle := port.period_le
  have hlt : millis (nanos (deadline - now)) < 2 ^ 45 := by
    unfold millis
    omega
  have hwrap : (millis (nanos (deadline - now)) + port.tickPeriodMs - 1) % 2 ^ 64 =
      millis (nanos (deadline - now)) + port.tickPeriodMs - 1 := Nat.mod_eq_of_lt (by omega)
  rw [Port.ticks, hwrap, Port.tickSize, h]
  rfl

end Runs
end RooTesting.DeadlineTicks
