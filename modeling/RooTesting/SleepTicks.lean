import RooTesting.DeadlineTicks

/-! # The ticks of a sleep

`sleep_ns` rounds its duration up to microseconds, which give the deadline, and what is left of
them up to milliseconds and to ticks before every task delay. The conversion to ticks is the one of
the timed wait; the first sum is signed, and all that follow are not. -/
namespace RooTesting.SleepTicks
open DeadlineTicks

/-- `delay_micros` at the start: the sum is `int64_t`, its quotient is stored as `uint64_t`. -/
def delayMicros (ns : ℤ) : Option ℕ :=
  (int64 (ns + 999)).map fun sum => (sum.tdiv 1000 % 2 ^ 64).toNat

def delayMs (micros : ℕ) : ℕ := (micros + 999) % 2 ^ 64 / 1000

/-- A delay asked of `vTaskDelay`, with what it was computed from. -/
structure Delay where
  now : ℕ
  micros : ℕ
  ms : ℕ
  ticks : ℕ
  deriving DecidableEq

def delayFor (port : Port) (now micros : ℕ) : Delay :=
  ⟨now, micros, delayMs micros, port.ticks (delayMs micros)⟩

inductive Outcome | delayed | returned (now : ℕ) | undefined
  deriving DecidableEq

structure Sleep where
  delays : List Delay
  outcome : Outcome
  deriving DecidableEq

/-- The loop, from the clock reading `micros` was computed from; the list holds the readings after
the delays to come. -/
def delayLoop (port : Port) (deadline : ℕ) : ℕ → ℕ → List ℕ → Sleep
  | now, micros, [] =>
      if delayMs micros = 0 then ⟨[], .returned now⟩ else ⟨[delayFor port now micros], .delayed⟩
  | now, micros, next :: readings =>
      if delayMs micros = 0 then ⟨[], .returned now⟩
      else if deadline ≤ next then ⟨[delayFor port now micros], .returned next⟩
      else
        let rest := delayLoop port deadline next (deadline - next) readings
        ⟨delayFor port now micros :: rest.delays, rest.outcome⟩

def sleepNs (port : Port) (ns : ℤ) (now : ℕ) (readings : List ℕ) : Sleep :=
  match delayMicros ns with
  | some micros => delayLoop port ((now + micros) % 2 ^ 64) now micros readings
  | none => ⟨[], .undefined⟩

/-- The last reading of `system_time_get_micros`: the uptime is an `int64_t` of nanoseconds. -/
def lastMicros : ℕ := (2 ^ 63 - 1) / 1000

/-- The uptime before which a sleep may not return. -/
def wakeTime (start : ℕ) (ns : ℤ) : ℕ := start + ns.toNat ⌈/⌉ 1000

/-- Every number behind a delay is the exact one: no sum and no conversion has wrapped. -/
structure Delay.Exact (port : Port) (deadline : ℕ) (delay : Delay) : Prop where
  micros : delay.micros = deadline - delay.now
  ms : delay.ms = (deadline - delay.now) ⌈/⌉ 1000
  ticks : delay.ticks = (deadline - delay.now) ⌈/⌉ 1000 ⌈/⌉ port.tickPeriodMs

/-- A sleep that keeps its deadline. -/
structure Sleep.Kept (port : Port) (deadline : ℕ) (sleep : Sleep) : Prop where
  defined : sleep.outcome ≠ .undefined
  punctual : ∀ now, sleep.outcome = .returned now → deadline ≤ now
  exact : ∀ delay ∈ sleep.delays, delay.Exact port deadline

section Conversion
variable {port : Port}

theorem delayMicros_of_le {ns : ℤ} (hpos : 0 < ns) (hle : ns ≤ 2 ^ 63 - 1000) :
    delayMicros ns = some (ns.toNat ⌈/⌉ 1000) := by
  have hsum : int64 (ns + 999) = some (ns + 999) := by
    rw [int64, if_pos (by omega)]
  rw [delayMicros, hsum, Option.map_some, Nat.ceilDiv_eq_add_pred_div]
  congr 1
  rw [Int.tdiv_eq_ediv_of_nonneg (by omega)]
  omega

theorem delayMicros_of_lt {ns : ℤ} (hlt : 2 ^ 63 - 1000 < ns) : delayMicros ns = none := by
  rw [delayMicros, int64, if_neg (by omega)]
  rfl

theorem delayMs_eq {micros : ℕ} (h : micros < 2 ^ 63) : delayMs micros = micros ⌈/⌉ 1000 := by
  rw [delayMs, Nat.ceilDiv_eq_add_pred_div]
  omega

theorem delayMs_pos {micros : ℕ} (hpos : 0 < micros) (h : micros < 2 ^ 63) :
    delayMs micros ≠ 0 := by
  unfold delayMs
  omega

variable (port) in
theorem ticks_eq {ms : ℕ} (h : ms < 2 ^ 63) :
    port.ticks ms = ms ⌈/⌉ port.tickPeriodMs % port.tickSize := by
  have hle := port.period_le
  have hwrap : (ms + port.tickPeriodMs - 1) % 2 ^ 64 = ms + port.tickPeriodMs - 1 :=
    Nat.mod_eq_of_lt (by omega)
  rw [Port.ticks, hwrap, ← Nat.ceilDiv_eq_add_pred_div]

variable (port) in
/-- Only the cut to `TickType_t` can make a delay inexact. -/
theorem delayFor_exact_iff {deadline now : ℕ} (h : deadline - now < 2 ^ 63) :
    (delayFor port now (deadline - now)).Exact port deadline ↔
      (deadline - now) ⌈/⌉ 1000 ⌈/⌉ port.tickPeriodMs < port.tickSize := by
  have hms := delayMs_eq h
  have hle := ceilDiv_le_self (deadline - now) (a := 1000) (by omega)
  have hticks := ticks_eq port (show (deadline - now) ⌈/⌉ 1000 < 2 ^ 63 by omega)
  constructor
  · intro hexact
    have hcut : port.ticks (delayMs (deadline - now)) =
        (deadline - now) ⌈/⌉ 1000 ⌈/⌉ port.tickPeriodMs := hexact.ticks
    rw [hms, hticks] at hcut
    rw [← hcut]
    exact Nat.mod_lt _ (Nat.two_pow_pos port.tickBits)
  · intro hlt
    refine ⟨rfl, hms, ?_⟩
    change port.ticks (delayMs (deadline - now)) = _
    rw [hms, hticks, Nat.mod_eq_of_lt hlt]
    rfl

theorem ceilDiv_mono {a b : ℕ} (c : ℕ) (hc : 0 < c) (h : a ≤ b) : a ⌈/⌉ c ≤ b ⌈/⌉ c :=
  (gc_mul_ceilDiv hc).monotone_l h

end Conversion

section Loop
variable {port : Port} {deadline : ℕ}

theorem kept_single {delay : Delay} {outcome : Outcome} (hdefined : outcome ≠ .undefined)
    (hpunctual : ∀ now, outcome = .returned now → deadline ≤ now)
    (hexact : delay.Exact port deadline) : Sleep.Kept port deadline ⟨[delay], outcome⟩ := by
  refine ⟨hdefined, hpunctual, ?_⟩
  intro d hd
  rwa [List.mem_singleton.1 hd]

theorem kept_cons {delay : Delay} {rest : Sleep} (hexact : delay.Exact port deadline)
    (hrest : rest.Kept port deadline) :
    Sleep.Kept port deadline ⟨delay :: rest.delays, rest.outcome⟩ := by
  refine ⟨hrest.defined, hrest.punctual, ?_⟩
  intro d hd
  rcases List.mem_cons.1 hd with rfl | hd
  · exact hexact
  · exact hrest.exact d hd

/-- From a reading before the deadline, with all that is left within the ticks of the port. -/
theorem delayLoop_kept {start : ℕ} (hreach : deadline - start < 2 ^ 63)
    (hticks : (deadline - start) ⌈/⌉ 1000 ⌈/⌉ port.tickPeriodMs < port.tickSize)
    (readings : List ℕ) (hclock : ∀ reading ∈ readings, start ≤ reading) {now : ℕ}
    (hnow : start ≤ now) (hbefore : now < deadline) :
    (delayLoop port deadline now (deadline - now) readings).Kept port deadline := by
  have hexact : ∀ {at' : ℕ}, start ≤ at' →
      (delayFor port at' (deadline - at')).Exact port deadline := by
    intro at' hat
    rw [delayFor_exact_iff port (by omega)]
    have hms := ceilDiv_mono 1000 (by omega) (show deadline - at' ≤ deadline - start by omega)
    exact (ceilDiv_mono port.tickPeriodMs port.period_pos hms).trans_lt hticks
  induction readings generalizing now with
  | nil =>
    rw [delayLoop, if_neg (delayMs_pos (by omega) (by omega))]
    exact kept_single (by simp) (by simp) (hexact hnow)
  | cons next readings ih =>
    obtain ⟨hnext, hclock⟩ := List.forall_mem_cons.1 hclock
    rw [delayLoop, if_neg (delayMs_pos (by omega) (by omega))]
    rcases Nat.lt_or_ge next deadline with hlt | hle
    · rw [if_neg (Nat.not_le.2 hlt)]
      exact kept_cons (hexact hnow) (ih hclock hnext hlt)
    · rw [if_pos hle]
      refine kept_single (by simp) ?_ (hexact hnow)
      intro now' hreturned
      cases hreturned
      exact hle

/-- The first delay is asked for whatever the clock says later. -/
theorem first_delay {now micros : ℕ} (hpos : delayMs micros ≠ 0) (readings : List ℕ) :
    delayFor port now micros ∈ (delayLoop port deadline now micros readings).delays := by
  cases readings with
  | nil => simp [delayLoop, hpos]
  | cons next readings =>
    rw [delayLoop, if_neg hpos]
    split <;> exact List.mem_cons_self

/-- A clock that reaches the deadline ends the sleep. -/
theorem delayLoop_returns (readings : List ℕ) (now micros : ℕ)
    (h : ∃ reading ∈ readings, deadline ≤ reading) :
    ∃ at', (delayLoop port deadline now micros readings).outcome = .returned at' := by
  induction readings generalizing now micros with
  | nil =>
    obtain ⟨reading, hmem, -⟩ := h
    cases hmem
  | cons next readings ih =>
    rw [delayLoop]
    split
    · exact ⟨now, rfl⟩
    · split
      · exact ⟨next, rfl⟩
      · rename_i hlt
        obtain ⟨reading, hmem, hreading⟩ := h
        apply ih
        rcases List.mem_cons.1 hmem with rfl | hmem
        · exact absurd hreading hlt
        · exact ⟨reading, hmem, hreading⟩

end Loop

section Sleeps
variable {port : Port}

theorem sleepNs_of_le {ns : ℤ} (hpos : 0 < ns) (hle : ns ≤ 2 ^ 63 - 1000) {start : ℕ}
    (hstart : start ≤ lastMicros) (readings : List ℕ) :
    sleepNs port ns start readings =
      delayLoop port (wakeTime start ns) start (wakeTime start ns - start) readings := by
  have hmicros := ceilDiv_le_self ns.toNat (a := 1000) (by omega)
  have hwrap : (start + ns.toNat ⌈/⌉ 1000) % 2 ^ 64 = wakeTime start ns := by
    unfold wakeTime
    apply Nat.mod_eq_of_lt
    unfold lastMicros at hstart
    omega
  rw [sleepNs, delayMicros_of_le hpos hle]
  simp only [hwrap]
  rw [wakeTime, Nat.add_sub_cancel_left]

theorem wakeTime_sub (start : ℕ) (ns : ℤ) :
    wakeTime start ns - start = ns.toNat ⌈/⌉ 1000 :=
  Nat.add_sub_cancel_left start (ns.toNat ⌈/⌉ 1000)

theorem micros_pos {ns : ℤ} (hpos : 0 < ns) : 0 < ns.toNat ⌈/⌉ 1000 := by
  rw [Nat.ceilDiv_eq_add_pred_div]
  omega

/-- Three times rounded up is once rounded up. -/
theorem ticks_of_ns (ns : ℕ) : ns ⌈/⌉ 1000 ⌈/⌉ 1000 ⌈/⌉ port.tickPeriodMs =
    ns ⌈/⌉ (1000000 * port.tickPeriodMs) := by
  rw [ceilDiv_ceilDiv ns (by omega) (by omega), ceilDiv_ceilDiv ns (by omega) port.period_pos]

/-- A sleep keeps its deadline when and only when its first sum is within `int64_t` and its ticks
are within `TickType_t`, whatever the clock does while its task is delayed. -/
theorem sleepNs_kept_iff (port : Port) {ns : ℤ} (hpos : 0 < ns) {start : ℕ}
    (hstart : start ≤ lastMicros) (readings : List ℕ)
    (hclock : ∀ reading ∈ readings, start ≤ reading) :
    (sleepNs port ns start readings).Kept port (wakeTime start ns) ↔
      ns ≤ 2 ^ 63 - 1000 ∧ ns.toNat ⌈/⌉ (1000000 * port.tickPeriodMs) < port.tickSize := by
  rcases Int.lt_or_le (2 ^ 63 - 1000) ns with hlarge | hle
  · apply iff_of_false
    · intro hkept
      apply hkept.defined
      rw [sleepNs, delayMicros_of_lt hlarge]
    · intro h
      omega
  · have hmicros := ceilDiv_le_self ns.toNat (a := 1000) (by omega)
    have hreach : wakeTime start ns - start < 2 ^ 63 := by
      rw [wakeTime_sub]
      omega
    have hexact := delayFor_exact_iff port hreach
    rw [sleepNs_of_le hpos hle hstart]
    rw [wakeTime_sub start ns, ticks_of_ns] at hexact
    constructor
    · intro hkept
      refine ⟨hle, hexact.1 ?_⟩
      apply hkept.exact
      rw [wakeTime_sub]
      apply first_delay
      rw [wakeTime_sub] at hreach
      exact delayMs_pos (micros_pos hpos) hreach
    · rintro ⟨-, hticks⟩
      apply delayLoop_kept hreach _ readings hclock le_rfl
      · have := micros_pos hpos
        unfold wakeTime
        omega
      · rw [wakeTime_sub, ticks_of_ns]
        exact hticks

/-- A sleep returns once the clock has reached its deadline. -/
theorem sleepNs_returns (port : Port) {ns : ℤ} (hpos : 0 < ns) (hle : ns ≤ 2 ^ 63 - 1000)
    {start : ℕ} (hstart : start ≤ lastMicros) (readings : List ℕ)
    (h : ∃ reading ∈ readings, wakeTime start ns ≤ reading) :
    ∃ now, (sleepNs port ns start readings).outcome = .returned now := by
  rw [sleepNs_of_le hpos hle hstart]
  exact delayLoop_returns readings start (wakeTime start ns - start) h

/-- An hour that wakes early once. -/
theorem sleepNs_hour : (sleepNs picoPosix 3600000000000 5 [7, 3600000005]).Kept picoPosix
    (wakeTime 5 3600000000000) :=
  (sleepNs_kept_iff picoPosix (by decide) (by decide) [7, 3600000005] (by decide)).2
    ⟨by decide, by decide +kernel⟩

/-- Forty-nine days and seventeen hours are no ticks at all of a 32-bit port, and the longest
duration overflows its first sum on every port. -/
theorem long_sleeps_not_kept :
    ¬ (sleepNs picoPosix 4294967296000000 0 []).Kept picoPosix (wakeTime 0 4294967296000000) ∧
    ¬ (sleepNs idfLinux 9223372036854775807 0 []).Kept idfLinux
      (wakeTime 0 9223372036854775807) := by
  constructor
  · intro h
    have hdelay := h.exact ⟨0, 4294967296000, 4294967296, 0⟩ (by decide +kernel)
    exact absurd hdelay.ticks (by decide +kernel)
  · intro h
    exact h.defined (by decide +kernel)

end Sleeps
end RooTesting.SleepTicks
