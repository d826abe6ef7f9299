import RooTesting.Stopwatch
import RooTesting.Transition

/-! # The Arduino hardware timer

`timerStop` keeps the whole ticks that `readLocked` has counted, and a read of a running timer adds
those of the time since `timerStart`. Products and sums are `uint64_t`. -/
namespace RooTesting.ArduinoTimers

open Stopwatches Transition

/-- The members of `timer_struct_t` that the counter uses. -/
structure Timer where
  frequency : ℕ
  value : ℕ
  startedAt : ℤ
  running : Bool
  deriving DecidableEq

namespace Timer

variable (t : Timer) (now : ℤ)

def elapsedUs : ℕ := (max 0 (now - t.startedAt)).toNat

def readLocked : ℕ :=
  if t.running then (t.value + t.elapsedUs now * t.frequency % 2 ^ 64 / 1000000) % 2 ^ 64
  else t.value

end Timer

def timerBegin (frequency : ℕ) (now : ℤ) : Option Timer :=
  if frequency = 0 then none else some ⟨frequency, 0, now, true⟩

def timerStart (timer : Option Timer) (now : ℤ) : Option Timer :=
  timer.map fun t => if t.running then t else { t with startedAt := now, running := true }

def timerStop (timer : Option Timer) (now : ℤ) : Option Timer :=
  timer.map fun t => if t.running then { t with value := t.readLocked now, running := false } else t

def timerRead (timer : Option Timer) (now : ℤ) : ℕ :=
  match timer with
  | none => 0
  | some t => t.readLocked now

def timerReadMicros (timer : Option Timer) (now : ℤ) : ℕ :=
  match timer with
  | none => 0
  | some t =>
    if t.frequency = 0 then 0 else timerRead (some t) now * 1000000 % 2 ^ 64 / t.frequency

inductive Function
  | timerStart
  | timerStop
  | timerRead
  deriving DecidableEq

/-- A call at an uptime. -/
structure Call where
  function : Function
  now : ℤ

/-- What a read returned, with the running time until then and the number of laps that had been
stopped. -/
structure Reading where
  ticks : ℕ
  total : ℕ
  stops : ℕ

/-- A timer beside a stopwatch that is started and stopped with it. The last reading is the first of
the list. -/
structure Session where
  timer : Option Timer
  uptime : ℤ
  watch : Stopwatch
  readings : List Reading

namespace Session

def begin (frequency : ℕ) (now : ℤ) : Session :=
  ⟨timerBegin frequency now, now, ⟨[], some now⟩, []⟩

variable (x : Session)

def read (now : ℤ) : Reading := ⟨timerRead x.timer now, x.watch.total now, x.watch.laps.length⟩

def after (c : Call) : Session :=
  match c.function with
  | .timerStart =>
    { x with timer := timerStart x.timer c.now, uptime := c.now, watch := x.watch.start c.now }
  | .timerStop =>
    { x with timer := timerStop x.timer c.now, uptime := c.now, watch := x.watch.stop c.now }
  | .timerRead => { x with uptime := c.now, readings := x.read c.now :: x.readings }

/-- Uptimes do not go back. -/
def step (c : Call) : Option Session := if x.uptime ≤ c.now then some (x.after c) else none

end Session

/-- The product and the sum of a read fit 64 bits. -/
def Timer.NoWrap (t : Timer) (now : ℤ) : Prop :=
  t.running = true → t.elapsedUs now * t.frequency < 2 ^ 64 ∧
    t.value + t.elapsedUs now * t.frequency / 1000000 < 2 ^ 64

/-- Neither a read nor a stop wraps. -/
def Session.Within (x : Session) (c : Call) : Prop :=
  c.function ≠ .timerStart → ∀ t ∈ x.timer, t.NoWrap c.now

/-- The ticks of the running time without a part of a tick for each stop. -/
def Reading.Exact (frequency : ℕ) (r : Reading) : Prop :=
  ∃ lost : List ℕ, lost.length = r.stops ∧ (∀ part ∈ lost, part < 1000000) ∧
    lost.sum ≤ r.total * frequency ∧ r.ticks = (r.total * frequency - lost.sum) / 1000000

/-- The whole ticks of the laps, and those of the lap that is running. -/
def Session.ticks (frequency : ℕ) (x : Session) (now : ℤ) : ℕ :=
  counted frequency 1000000 x.watch.laps + x.watch.lap now * frequency / 1000000

/-- The timer counts what its stopwatch runs. -/
structure Counts (frequency : ℕ) (t : Timer) (w : Stopwatch) : Prop where
  rate : t.frequency = frequency
  value : t.value = counted frequency 1000000 w.laps
  running : t.running = w.since.isSome
  startedAt : ∀ since ∈ w.since, t.startedAt = since

structure Tracks (frequency : ℕ) (x : Session) : Prop where
  absent : x.timer = none → frequency = 0
  present : ∀ t ∈ x.timer, Counts frequency t x.watch
  sorted : (x.readings.map Reading.ticks).Pairwise (· ≥ ·)
  past : ∀ r ∈ x.readings, r.ticks ≤ x.ticks frequency x.uptime
  exact' : ∀ r ∈ x.readings, r.Exact frequency

section Steps

variable {frequency : ℕ} {t : Timer} {w : Stopwatch} {now : ℤ}

theorem Counts.elapsed (h : Counts frequency t w) (hrunning : t.running = true) :
    t.elapsedUs now = w.lap now := by
  rw [h.running] at hrunning
  obtain ⟨since, hsince⟩ := Option.isSome_iff_exists.mp hrunning
  rw [Timer.elapsedUs, h.startedAt since hsince, Stopwatch.lap, hsince]
  dsimp only
  omega

theorem Counts.stopped (h : Counts frequency t w) (hstopped : t.running = false) :
    w.lap now = 0 := by
  rw [h.running, Option.isSome_eq_false_iff, Option.isNone_iff_eq_none] at hstopped
  rw [Stopwatch.lap, hstopped]

/-- A read that does not wrap is what the laps have counted. -/
theorem Counts.read (h : Counts frequency t w) (hwrap : t.NoWrap now) :
    t.readLocked now = counted frequency 1000000 w.laps + w.lap now * frequency / 1000000 := by
  unfold Timer.readLocked
  cases hrunning : t.running with
  | false =>
    rw [if_neg Bool.false_ne_true, h.value, h.stopped hrunning, Nat.zero_mul, Nat.zero_div]
    rfl
  | true =>
    obtain ⟨hproduct, hsum⟩ := hwrap hrunning
    rw [if_pos rfl, Nat.mod_eq_of_lt hproduct, Nat.mod_eq_of_lt hsum, h.value, h.rate,
      h.elapsed hrunning]

theorem Counts.start (h : Counts frequency t w) :
    Counts frequency (if t.running then t else { t with startedAt := now, running := true })
      (w.start now) := by
  unfold Stopwatch.start
  cases hrunning : t.running with
  | false =>
    rw [h.running] at hrunning
    rw [if_neg Bool.false_ne_true, hrunning, if_neg Bool.false_ne_true]
    exact ⟨h.rate, h.value, rfl, fun since hsince => Option.some.inj hsince⟩
  | true =>
    rw [h.running] at hrunning
    rw [if_pos rfl, hrunning, if_pos rfl]
    exact h

theorem Counts.stop (h : Counts frequency t w) (hwrap : t.NoWrap now) :
    Counts frequency
      (if t.running then { t with value := t.readLocked now, running := false } else t)
      (w.stop now) := by
  have hread := h.read hwrap
  unfold Stopwatch.stop
  cases hrunning : t.running with
  | false =>
    rw [h.running] at hrunning
    rw [if_neg Bool.false_ne_true, hrunning, if_neg Bool.false_ne_true]
    exact h
  | true =>
    rw [h.running] at hrunning
    rw [if_pos rfl, hrunning, if_pos rfl]
    refine ⟨h.rate, ?_, rfl, fun since hsince => by cases hsince⟩
    rw [counted_append]
    exact hread

theorem begin_tracks (frequency : ℕ) (now : ℤ) : Tracks frequency (.begin frequency now) := by
  refine ⟨fun hnone => ?_, fun t ht => ?_, List.Pairwise.nil, fun r hr => (by cases hr),
    fun r hr => (by cases hr)⟩
  · by_contra hne
    rw [Session.begin, timerBegin, if_neg hne] at hnone
    cases hnone
  · rw [Session.begin, timerBegin] at ht
    split at ht
    · cases ht
    · obtain rfl := Option.some.inj ht
      exact ⟨rfl, rfl, rfl, fun since hsince => Option.some.inj hsince⟩

variable {x y : Session} {c : Call}

theorem ticks_mono (frequency : ℕ) {now later : ℤ} (h : now ≤ later) :
    x.ticks frequency now ≤ x.ticks frequency later :=
  Nat.add_le_add_left (Nat.div_le_div_right (Nat.mul_le_mul_right _ (lap_mono h))) _

/-- A read that does not wrap returns the ticks of the session. -/
theorem Tracks.read (h : Tracks frequency x) (hwrap : ∀ t ∈ x.timer, t.NoWrap now) :
    timerRead x.timer now = x.ticks frequency now := by
  cases htimer : x.timer with
  | none =>
    have hzero := h.absent htimer
    subst hzero
    simp [timerRead, Session.ticks, counted]
  | some t => exact (h.present t htimer).read (hwrap t htimer)

theorem start_ticks :
    Session.ticks frequency { x with watch := x.watch.start now } now = x.ticks frequency now := by
  unfold Session.ticks Stopwatch.start
  cases hsince : x.watch.since with
  | none =>
    rw [if_neg (by decide), Stopwatch.lap, Stopwatch.lap, hsince]
    dsimp only
    rw [Int.sub_self]
    rfl
  | some since => rfl

theorem stop_ticks :
    Session.ticks frequency { x with watch := x.watch.stop now } now = x.ticks frequency now := by
  unfold Session.ticks Stopwatch.stop
  cases hsince : x.watch.since with
  | none => rfl
  | some since =>
    simp only [Option.isSome_some, if_true, counted_append]
    simp [Stopwatch.lap]

/-- What a read is without wrapping: the ticks of the running time, less what each lap left over. -/
theorem Tracks.read_exact (h : Tracks frequency x) (hwrap : ∀ t ∈ x.timer, t.NoWrap now) :
    (x.read now).Exact frequency := by
  refine ⟨leftOver frequency 1000000 x.watch.laps, leftOver_length _ _ _,
    fun part hpart => leftOver_lt _ (by decide) hpart, ?_, ?_⟩
  · have hsum := counted_leftOver frequency 1000000 x.watch.laps
    rw [Session.read, Stopwatch.total, Nat.add_mul]
    omega
  · exact (h.read hwrap).trans (counted_eq frequency (by decide) _ _)

theorem Tracks.step (h : Tracks frequency x) (hwithin : x.Within c) (hs : x.step c = some y) :
    Tracks frequency y := by
  unfold Session.step at hs
  split at hs
  · rename_i huptime
    obtain rfl := Option.some.inj hs
    have hpast : ∀ r ∈ x.readings, r.ticks ≤ x.ticks frequency c.now :=
      fun r hr => (h.past r hr).trans (ticks_mono frequency huptime)
    obtain ⟨function, now⟩ := c
    cases function with
    | timerStart =>
      refine ⟨fun hnone => h.absent (Option.map_eq_none_iff.mp hnone), fun t ht => ?_, h.sorted,
        fun r hr => ?_, h.exact'⟩
      · obtain ⟨u, hu, rfl⟩ := Option.map_eq_some_iff.mp ht
        exact (h.present u hu).start
      · exact (hpast r hr).trans start_ticks.ge
    | timerStop =>
      have hwrap := hwithin fun hstart => nomatch hstart
      refine ⟨fun hnone => h.absent (Option.map_eq_none_iff.mp hnone), fun t ht => ?_, h.sorted,
        fun r hr => ?_, h.exact'⟩
      · obtain ⟨u, hu, rfl⟩ := Option.map_eq_some_iff.mp ht
        exact (h.present u hu).stop (hwrap u hu)
      · exact (hpast r hr).trans stop_ticks.ge
    | timerRead =>
      have hwrap := hwithin fun hstart => nomatch hstart
      have hread : (x.read now).ticks = x.ticks frequency now := h.read hwrap
      refine ⟨h.absent, h.present, ?_, fun r hr => ?_, fun r hr => ?_⟩
      · refine List.Pairwise.cons (fun ticks hticks => ?_) h.sorted
        obtain ⟨r, hr, rfl⟩ := List.mem_map.mp hticks
        exact (hpast r hr).trans hread.ge
      · rcases List.mem_cons.mp hr with rfl | hr
        · exact hread.le
        · exact hpast r hr
      · rcases List.mem_cons.mp hr with rfl | hr
        · exact h.read_exact hwrap
        · exact h.exact' r hr
  · cases hs

/-- A tick count is converted exactly when its product fits 64 bits. -/
theorem Tracks.readMicros (h : Tracks frequency x)
    (hfits : timerRead x.timer now * 1000000 < 2 ^ 64) :
    timerReadMicros x.timer now = timerRead x.timer now * 1000000 / frequency := by
  unfold timerReadMicros
  cases htimer : x.timer with
  | none =>
    rw [timerRead, Nat.zero_mul, Nat.zero_div]
  | some t =>
    dsimp only
    rw [htimer] at hfits
    rw [(h.present t htimer).rate, Nat.mod_eq_of_lt hfits]
    split
    · rename_i hzero
      rw [hzero, Nat.div_zero]
    · rfl

end Steps

section Runs

variable {frequency : ℕ} {began : ℤ} {calls : List Call} {x : Session}

theorem Reading.Exact.bounds {r : Reading} (h : r.Exact frequency) :
    r.ticks ≤ r.total * frequency / 1000000 ∧
      r.total * frequency / 1000000 ≤ r.ticks + r.stops := by
  obtain ⟨lost, hlength, hparts, -, hticks⟩ := h
  rw [hticks, ← hlength]
  exact ⟨Nat.div_le_div_right (Nat.sub_le _ _), floor_lost (by decide) hparts⟩

/-- In every run whose reads and stops do not wrap, reads never decrease, each one is the ticks of
the running time less a part of a tick for each stop, and tick counts whose product fits 64 bits are
converted exactly. -/
theorem reads_exact (hm : Meets Session.step Session.Within (.begin frequency began) calls)
    (hr : run Session.step (.begin frequency began) calls = some x) :
    (x.readings.map Reading.ticks).Pairwise (· ≥ ·) ∧
      (∀ r ∈ x.readings, r.Exact frequency ∧ r.ticks ≤ r.total * frequency / 1000000 ∧
        r.total * frequency / 1000000 ≤ r.ticks + r.stops) ∧
      ∀ now, timerRead x.timer now * 1000000 < 2 ^ 64 →
        timerReadMicros x.timer now = timerRead x.timer now * 1000000 / frequency := by
  have hstep : PreservesWhen Session.step Session.Within (Tracks frequency) :=
    fun x c y hwithin hs h => h.step hwithin hs
  have htracks := hstep.run hm hr (begin_tracks frequency began)
  refine ⟨htracks.sorted, fun r hr => ?_, fun now hfits => htracks.readMicros hfits⟩
  have hexact := htracks.exact' r hr
  exact ⟨hexact, hexact.bounds⟩

end Runs

/-- A microsecond before a stop, and one after it. -/
def halves : List Call := [⟨.timerStop, 1⟩, ⟨.timerStart, 1⟩, ⟨.timerRead, 2⟩]

theorem reads_exact_halves :
    ∃ x, run Session.step (.begin 600000 0) halves = some x ∧
      Meets Session.step Session.Within (.begin 600000 0) halves ∧
      (x.readings.map Reading.ticks).Pairwise (· ≥ ·) := by
  have hwrap : ∀ (t : Timer) (timer : Option Timer) (now : ℤ), timer = some t →
      t.elapsedUs now * t.frequency < 2 ^ 64 ∧
        t.value + t.elapsedUs now * t.frequency / 1000000 < 2 ^ 64 →
      ∀ u ∈ timer, u.NoWrap now := by
    intro t timer now htimer hfits u hu _
    obtain rfl := Option.some.inj (htimer.symm.trans hu)
    exact hfits
  have hmeets : Meets Session.step Session.Within (.begin 600000 0) halves := by
    refine Meets.cons (fun _ => hwrap ⟨600000, 0, 0, true⟩ _ _ rfl (by decide)) rfl ?_
    refine Meets.cons (fun hno => absurd rfl hno) rfl ?_
    exact Meets.cons (fun _ => hwrap ⟨600000, 0, 1, true⟩ _ _ rfl (by decide)) rfl trivial
  exact ⟨_, rfl, hmeets, (reads_exact hmeets rfl).1⟩

/-- A stop can cost a whole tick of the next read, and a product of 64 bits wraps after 64 hours at
80 MHz. -/
theorem stop_costs_tick_and_reads_decrease :
    (¬∀ (frequency : ℕ) (began : ℤ) (calls : List Call) (x : Session), frequency < 2 ^ 32 →
      run Session.step (.begin frequency began) calls = some x → ∀ r ∈ x.readings,
        r.ticks = r.total * frequency / 1000000 ∨
          r.total * frequency / 1000000 < r.ticks + r.stops) ∧
    ¬∀ (frequency : ℕ) (began : ℤ) (calls : List Call) (x : Session), frequency < 2 ^ 32 →
      run Session.step (.begin frequency began) calls = some x →
        (x.readings.map Reading.ticks).Pairwise (· ≥ ·) := by
  constructor
  · intro h
    have hlast := h 600000 0 halves _ (by decide) rfl ⟨0, 2, 1⟩ List.mem_cons_self
    exact absurd hlast (by decide)
  · intro h
    have hsorted := h 80000000 0 [⟨.timerRead, 230584300921⟩, ⟨.timerRead, 230584300922⟩] _
      (by decide) rfl
    exact absurd hsorted (by decide)

end RooTesting.ArduinoTimers
