import Mathlib.Algebra.Group.Int.Defs
import Mathlib.Algebra.Group.Nat.Defs
import Mathlib.Algebra.Order.Group.Nat
import Mathlib.Tactic.Common

/-! # The clock of the SPI controllers

The divider register for a requested frequency is the result of a search through all divider counts
with a few prescalers each. A division by zero and a value too large for its field are undefined. -/
namespace RooTesting.SpiClock

/-- The fields of the clock register. -/
structure ClockDivider where
  clkcntL : ℕ := 0
  clkcntH : ℕ := 0
  clkcntN : ℕ := 0
  clkdivPre : ℕ := 0
  clkEquSysclk : ℕ := 0

def ClockDivider.value (d : ClockDivider) : ℕ :=
  d.clkcntL + 64 * d.clkcntH + 4096 * d.clkcntN + 262144 * d.clkdivPre + 2147483648 * d.clkEquSysclk

def quotient (a b : ℕ) : Option ℕ :=
  if b = 0 then none else some (a / b)

/-- A value stored in a field with so many values. -/
def field (size value : ℕ) : Option ℕ :=
  if value < size then some value else none

def getApbFrequency (cpuFrequencyMhz : ℕ) : ℕ := min cpuFrequencyMhz 80 * 1000000

def ClockDivider.frequency (source : ℕ) (d : ClockDivider) : Option ℕ :=
  quotient source ((d.clkdivPre + 1) * (d.clkcntN + 1))

/-- The fields of 0x7ffff000. -/
def minimum : ClockDivider where
  clkcntN := 63
  clkdivPre := 8191

structure Search where
  best : ClockDivider := {}
  bestFrequency : ℕ := 0

/-- The candidate for a clock count and a variation of its prescaler. -/
def candidate (source frequency clockCount : ℕ) (preVariation : ℤ) : Option ClockDivider := do
  let clkcntN ← field 64 clockCount
  let counted ← quotient source (clkcntN + 1)
  let ratio ← quotient counted frequency
  let pre : ℤ := ratio - 1 + preVariation
  let clkdivPre ← field 8192 (if pre > 0x1fff then 0x1fff else if pre ≤ 0 then 0 else pre.toNat)
  let clkcntL ← field 64 ((clkcntN + 1) / 2)
  return { clkcntL, clkcntN, clkdivPre }

/-- A candidate below the frequency replaces one that is further away. -/
def Search.offer (frequency : ℕ) (s : Search) (c : ClockDivider) (candidateFrequency : ℕ) : Search :=
  if candidateFrequency < frequency ∧ (s.bestFrequency = 0 ∨
      frequency - candidateFrequency < frequency - s.bestFrequency) then
    ⟨c, candidateFrequency⟩
  else s

/-- The inner loop: the best candidate so far and the frequency of the last one. -/
def vary (source frequency clockCount : ℕ) : List ℤ → Search → ℕ → Option (Search × ℕ)
  | [], s, last => some (s, last)
  | preVariation :: rest, s, _ => do
    let c ← candidate source frequency clockCount preVariation
    let candidateFrequency ← c.frequency source
    if candidateFrequency = frequency then some ({ s with best := c }, candidateFrequency)
    else
      vary source frequency clockCount rest (s.offer frequency c candidateFrequency)
        candidateFrequency

/-- The values of `pre_variation` in the body of the inner loop. -/
def preVariations : List ℤ := [-1, 0, 1, 2]

/-- The outer loop. -/
def search (source frequency : ℕ) : List ℕ → Search → Option Search
  | [], s => some s
  | clockCount :: rest, s => do
    let (s, candidateFrequency) ← vary source frequency clockCount preVariations s 0
    if candidateFrequency = frequency then some s else search source frequency rest s

/-- The values of `clock_count`: one to 0x3f. -/
def clockCounts : List ℕ := (List.range 0x3f).map (· + 1)

def spiFrequencyToClockDiv (cpuFrequencyMhz frequency : ℕ) : Option ℕ := do
  let sourceFrequency := getApbFrequency cpuFrequencyMhz
  if sourceFrequency ≤ frequency then return 2147483648
  let minimumFrequency ← minimum.frequency sourceFrequency
  if frequency < minimumFrequency then return minimum.value
  let s ← search sourceFrequency frequency clockCounts {}
  return s.best.value

def spiClockDivToFrequency (cpuFrequencyMhz divider : ℕ) : Option ℕ :=
  if divider / 2147483648 % 2 = 1 then some (getApbFrequency cpuFrequencyMhz)
  else
    let n := divider / 4096 % 64 + 1
    let pre := divider / 262144 % 8192 + 1
    quotient (getApbFrequency cpuFrequencyMhz) (n * pre)

/-- A divider register of the search: every divider from two to 64, every prescaler. -/
structure Admissible (d : ClockDivider) : Prop where
  low : d.clkcntL < 64
  high : d.clkcntH = 0
  count_pos : 0 < d.clkcntN
  count_lt : d.clkcntN < 64
  pre_lt : d.clkdivPre < 8192
  divided : d.clkEquSysclk = 0

/-- The frequency of a prescaler and a divider. -/
def rate (source pre count : ℕ) : ℕ := source / ((pre + 1) * (count + 1))

section Candidates

variable {source frequency clockCount : ℕ}

theorem frequency_eq (source : ℕ) (d : ClockDivider) :
    d.frequency source = some (rate source d.clkdivPre d.clkcntN) := by
  have hne : (d.clkdivPre + 1) * (d.clkcntN + 1) ≠ 0 :=
    Nat.mul_ne_zero (Nat.succ_ne_zero _) (Nat.succ_ne_zero _)
  rw [ClockDivider.frequency, quotient, if_neg hne, rate]

/-- The prescaler of a candidate: clamped to its field. -/
def clampPre (ratio : ℕ) (preVariation : ℤ) : ℕ :=
  if (ratio : ℤ) - 1 + preVariation > 0x1fff then 0x1fff
  else if (ratio : ℤ) - 1 + preVariation ≤ 0 then 0
  else ((ratio : ℤ) - 1 + preVariation).toNat

theorem clampPre_lt (ratio : ℕ) (preVariation : ℤ) : clampPre ratio preVariation < 8192 := by
  unfold clampPre
  split
  · omega
  split <;> omega

/-- The register of a candidate. -/
def tried (source frequency clockCount : ℕ) (preVariation : ℤ) : ClockDivider where
  clkcntL := (clockCount + 1) / 2
  clkcntN := clockCount
  clkdivPre := clampPre (source / (clockCount + 1) / frequency) preVariation

theorem candidate_eq (hfrequency : 0 < frequency) (hcount : clockCount < 64) (preVariation : ℤ) :
    candidate source frequency clockCount preVariation
      = some (tried source frequency clockCount preVariation) := by
  have hpre : field 8192 (clampPre (source / (clockCount + 1) / frequency) preVariation)
      = some (clampPre (source / (clockCount + 1) / frequency) preVariation) :=
    if_pos (clampPre_lt _ _)
  have hlow : field 64 ((clockCount + 1) / 2) = some ((clockCount + 1) / 2) := if_pos (by omega)
  unfold clampPre at hpre
  simp only [candidate, field, quotient, hcount, if_true, Nat.succ_ne_zero, if_false,
    hfrequency.ne', Option.bind_eq_bind, Option.bind_some] at hpre hlow ⊢
  rw [hpre, hlow]
  rfl

theorem rate_anti {pre pre' : ℕ} (h : pre ≤ pre') (count : ℕ) :
    rate source pre' count ≤ rate source pre count :=
  Nat.div_le_div_left (Nat.mul_le_mul_right _ (Nat.succ_le_succ h))
    (Nat.mul_pos (Nat.succ_pos _) (Nat.succ_pos _))

theorem rate_lt_iff (hfrequency : 0 < frequency) (pre count : ℕ) :
    rate source pre count < frequency ↔ source / (count + 1) / frequency < pre + 1 := by
  rw [rate, Nat.div_lt_iff_lt_mul (Nat.mul_pos (Nat.succ_pos _) (Nat.succ_pos _)),
    Nat.div_div_eq_div_mul, Nat.div_lt_iff_lt_mul (Nat.mul_pos (Nat.succ_pos _) hfrequency)]
  rw [show frequency * ((pre + 1) * (count + 1)) = (pre + 1) * ((count + 1) * frequency) by
    rw [Nat.mul_comm frequency, Nat.mul_assoc]]

/-- A prescaler that hits the frequency is found without variation. -/
theorem rate_clamp_zero (hfrequency : 0 < frequency) {pre : ℕ} (hpre : pre < 8192)
    (h : rate source pre clockCount = frequency) :
    rate source (clampPre (source / (clockCount + 1) / frequency) 0) clockCount = frequency := by
  have hle : ¬ rate source pre clockCount < frequency := by omega
  rw [rate_lt_iff hfrequency] at hle
  obtain ⟨ratio, hratio⟩ : ∃ ratio, ratio = source / (clockCount + 1) / frequency := ⟨_, rfl⟩
  have hclamp : pre ≤ clampPre ratio 0 ∧ clampPre ratio 0 + 1 ≤ ratio := by
    unfold clampPre
    split
    · omega
    split <;> omega
  have hnot : ¬ rate source (clampPre ratio 0) clockCount < frequency := by
    rw [rate_lt_iff hfrequency]
    omega
  have hanti : rate source (clampPre ratio 0) clockCount ≤ rate source pre clockCount :=
    rate_anti hclamp.1 clockCount
  rw [← hratio]
  omega

/-- The next prescaler is below the frequency, and the closest of them. -/
theorem rate_clamp_one (hfrequency : 0 < frequency) {pre : ℕ} (hpre : pre < 8192)
    (h : rate source pre clockCount < frequency) :
    rate source (clampPre (source / (clockCount + 1) / frequency) 1) clockCount < frequency ∧
    rate source pre clockCount
      ≤ rate source (clampPre (source / (clockCount + 1) / frequency) 1) clockCount := by
  rw [rate_lt_iff hfrequency] at h
  rw [rate_lt_iff hfrequency]
  generalize source / (clockCount + 1) / frequency = ratio at h ⊢
  have hclamp : clampPre ratio 1 = ratio := by
    unfold clampPre
    split
    · omega
    split <;> omega
  rw [hclamp]
  exact ⟨by omega, rate_anti (by omega) clockCount⟩

end Candidates

section Search

variable {source frequency clockCount : ℕ}

/-- The frequency of a register. -/
def ClockDivider.achieved (source : ℕ) (d : ClockDivider) : ℕ := rate source d.clkdivPre d.clkcntN

/-- The search has found the frequency itself. -/
def Exact (source frequency : ℕ) (s : Search) : Prop :=
  Admissible s.best ∧ s.best.achieved source = frequency

/-- The search has found nothing yet, or a register below the frequency. -/
structure Below (source frequency : ℕ) (s : Search) : Prop where
  lt : s.bestFrequency < frequency
  found : s.bestFrequency = 0 ∨ Admissible s.best ∧ s.best.achieved source = s.bestFrequency

/-- None of the rates is the frequency, and none of those below it is above what was found. -/
def Covers (frequency : ℕ) (s : Search) (rates : ℕ → Prop) : Prop :=
  ∀ r, rates r → r ≠ frequency ∧ (r < frequency → r ≤ s.bestFrequency)

/-- What a loop without an exact candidate makes of the search. -/
structure Outcome (source frequency : ℕ) (s s' : Search) (rates : ℕ → Prop) : Prop where
  below : Below source frequency s'
  grows : s.bestFrequency ≤ s'.bestFrequency
  covers : Covers frequency s' rates

theorem admissible_tried (hpos : 0 < clockCount) (hcount : clockCount < 64) (preVariation : ℤ) :
    Admissible (tried source frequency clockCount preVariation) :=
  ⟨show (clockCount + 1) / 2 < 64 by omega, rfl, hpos, hcount, clampPre_lt _ _, rfl⟩

theorem offer_below {s : Search} {c : ClockDivider} (hs : Below source frequency s)
    (hc : Admissible c) :
    Below source frequency (s.offer frequency c (c.achieved source)) ∧
    s.bestFrequency ≤ (s.offer frequency c (c.achieved source)).bestFrequency ∧
    (c.achieved source < frequency →
      c.achieved source ≤ (s.offer frequency c (c.achieved source)).bestFrequency) := by
  have hlt := hs.lt
  unfold Search.offer
  split
  · rename_i hbetter
    refine ⟨⟨hbetter.1, Or.inr ⟨hc, rfl⟩⟩, ?_, fun _ => le_rfl⟩
    show s.bestFrequency ≤ c.achieved source
    omega
  · rename_i hworse
    refine ⟨hs, le_rfl, fun hbelow => ?_⟩
    by_contra hgt
    exact hworse ⟨hbelow, by omega⟩

theorem vary_cons (hfrequency : 0 < frequency) (hcount : clockCount < 64) (v : ℤ) (rest : List ℤ)
    (s : Search) (last : ℕ) :
    vary source frequency clockCount (v :: rest) s last =
      if (tried source frequency clockCount v).achieved source = frequency then
        some ({ s with best := tried source frequency clockCount v },
          (tried source frequency clockCount v).achieved source)
      else vary source frequency clockCount rest
        (s.offer frequency (tried source frequency clockCount v)
          ((tried source frequency clockCount v).achieved source))
        ((tried source frequency clockCount v).achieved source) := by
  rw [vary, candidate_eq hfrequency hcount]
  simp only [Option.bind_eq_bind, Option.bind_some, frequency_eq]
  rfl

/-- The inner loop stops at the frequency or offers every candidate. -/
theorem vary_spec (hfrequency : 0 < frequency) (hpos : 0 < clockCount) (hcount : clockCount < 64)
    (variations : List ℤ) {s : Search} (hs : Below source frequency s) {last : ℕ}
    (hlast : last ≠ frequency) :
    ∃ s' f, vary source frequency clockCount variations s last = some (s', f) ∧
      (f = frequency ∧ Exact source frequency s' ∨
        f ≠ frequency ∧ Outcome source frequency s s' fun r =>
          ∃ v ∈ variations, r = (tried source frequency clockCount v).achieved source) := by
  induction variations generalizing s last with
  | nil =>
    refine ⟨s, last, rfl, Or.inr ⟨hlast, hs, le_rfl, ?_⟩⟩
    intro r h
    obtain ⟨v, hv, -⟩ := h
    exact absurd hv List.not_mem_nil
  | cons v rest ih =>
    have hadmissible : Admissible (tried source frequency clockCount v) :=
      admissible_tried hpos hcount v
    rw [vary_cons hfrequency hcount]
    by_cases hexact : (tried source frequency clockCount v).achieved source = frequency
    · rw [if_pos hexact]
      exact ⟨_, _, rfl, Or.inl ⟨hexact, hadmissible, hexact⟩⟩
    · rw [if_neg hexact]
      obtain ⟨hbelow, hgrows, hcovers⟩ := offer_below hs hadmissible
      obtain ⟨s', f, heq, hend⟩ := ih hbelow hexact
      refine ⟨s', f, heq, hend.imp_right fun h => ⟨h.1, h.2.below, hgrows.trans h.2.grows, ?_⟩⟩
      intro r hr
      obtain ⟨w, hw, hr⟩ := hr
      rcases List.mem_cons.mp hw with rfl | hw
      · rw [hr]
        exact ⟨hexact, fun hlt => (hcovers hlt).trans h.2.grows⟩
      · exact h.2.covers r ⟨w, hw, hr⟩

/-- The rates of a clock count with any prescaler. -/
def ratesOf (source clockCount r : ℕ) : Prop :=
  ∃ pre, pre < 8192 ∧ r = rate source pre clockCount

/-- The variations of a prescaler stand for all of them. -/
theorem covers_all (hfrequency : 0 < frequency) {s : Search}
    (h : Covers frequency s fun r =>
      ∃ v ∈ preVariations, r = (tried source frequency clockCount v).achieved source) :
    Covers frequency s (ratesOf source clockCount) := by
  intro r hr
  obtain ⟨pre, hpre, rfl⟩ := hr
  constructor
  · intro hexact
    exact (h _ ⟨0, by decide, rfl⟩).1 (rate_clamp_zero hfrequency hpre hexact)
  · intro hlt
    obtain ⟨hnext, hle⟩ := rate_clamp_one hfrequency hpre hlt
    exact hle.trans ((h _ ⟨1, by decide, rfl⟩).2 hnext)

/-- The outer loop stops at the frequency or covers every prescaler of every count. -/
theorem search_spec (hfrequency : 0 < frequency) (counts : List ℕ)
    (hcounts : ∀ n ∈ counts, 0 < n ∧ n < 64) {s : Search} (hs : Below source frequency s) :
    ∃ s', search source frequency counts s = some s' ∧
      (Exact source frequency s' ∨
        Outcome source frequency s s' fun r => ∃ n ∈ counts, ratesOf source n r) := by
  induction counts generalizing s with
  | nil =>
    refine ⟨s, rfl, Or.inr ⟨hs, le_rfl, ?_⟩⟩
    intro r h
    obtain ⟨n, hn, -⟩ := h
    exact absurd hn List.not_mem_nil
  | cons n rest ih =>
    obtain ⟨hpos, hcount⟩ := hcounts n List.mem_cons_self
    obtain ⟨s', f, heq, hend⟩ := vary_spec hfrequency hpos hcount preVariations hs hfrequency.ne
    rw [search, heq, Option.bind_eq_bind, Option.bind_some]
    dsimp only
    rcases hend with ⟨hf, hexact⟩ | ⟨hf, hoffered⟩
    · rw [if_pos hf]
      exact ⟨s', rfl, Or.inl hexact⟩
    · rw [if_neg hf]
      obtain ⟨s'', hrest, hend⟩ := ih (fun m hm => hcounts m (List.mem_cons_of_mem _ hm))
        hoffered.below
      refine ⟨s'', hrest, hend.imp_right fun h => ⟨h.below, hoffered.grows.trans h.grows, ?_⟩⟩
      intro r hr
      obtain ⟨m, hm, hr⟩ := hr
      rcases List.mem_cons.mp hm with rfl | hm
      · obtain ⟨hne, hle⟩ := covers_all hfrequency hoffered.covers r hr
        exact ⟨hne, fun hlt => (hle hlt).trans h.grows⟩
      · exact h.covers r ⟨m, hm, hr⟩

theorem mem_clockCounts {n : ℕ} : n ∈ clockCounts ↔ 0 < n ∧ n < 64 := by
  simp only [clockCounts, List.mem_map, List.mem_range]
  constructor
  · intro h
    obtain ⟨m, hm, rfl⟩ := h
    omega
  · intro h
    exact ⟨n - 1, by omega, by omega⟩

end Search

section Requests

variable {cpuFrequencyMhz frequency : ℕ}

theorem Admissible.decoded {d : ClockDivider} (h : Admissible d) (cpuFrequencyMhz : ℕ) :
    spiClockDivToFrequency cpuFrequencyMhz d.value
      = some (d.achieved (getApbFrequency cpuFrequencyMhz)) := by
  obtain ⟨hlow, hhigh, -, hcount, hpre, hdivided⟩ := h
  have hvalue : d.value = d.clkcntL + 4096 * d.clkcntN + 262144 * d.clkdivPre := by
    simp [ClockDivider.value, hhigh, hdivided]
  have hsysclk : d.value / 2147483648 % 2 = 0 := by omega
  have hn : d.value / 4096 % 64 = d.clkcntN := by omega
  have hdiv : d.value / 262144 % 8192 = d.clkdivPre := by omega
  have hne : (d.clkcntN + 1) * (d.clkdivPre + 1) ≠ 0 :=
    Nat.mul_ne_zero (Nat.succ_ne_zero _) (Nat.succ_ne_zero _)
  rw [spiClockDivToFrequency, if_neg (by omega), hn, hdiv, quotient, if_neg hne,
    ClockDivider.achieved, rate, Nat.mul_comm]

theorem decoded_source (cpuFrequencyMhz : ℕ) :
    spiClockDivToFrequency cpuFrequencyMhz 2147483648 = some (getApbFrequency cpuFrequencyMhz) :=
  rfl

theorem getApbFrequency_ge (h : 0 < cpuFrequencyMhz) : 1000000 ≤ getApbFrequency cpuFrequencyMhz := by
  unfold getApbFrequency
  omega

theorem minimum_frequency (source : ℕ) : minimum.frequency source = some (rate source 8191 63) :=
  frequency_eq source minimum

theorem spiFrequencyToClockDiv_eq {slowest : ℕ}
    (h : minimum.frequency (getApbFrequency cpuFrequencyMhz) = some slowest) (frequency : ℕ) :
    spiFrequencyToClockDiv cpuFrequencyMhz frequency =
      if getApbFrequency cpuFrequencyMhz ≤ frequency then some 2147483648
      else if frequency < slowest then some minimum.value
      else (search (getApbFrequency cpuFrequencyMhz) frequency clockCounts {}).bind
        fun s => some s.best.value := by
  simp only [spiFrequencyToClockDiv, h, Option.bind_eq_bind, Option.bind_some, Option.pure_def]

/-- What the search of a request above the minimum ends with. -/
theorem search_best {source : ℕ} (hsource : 524288 ≤ source) (hmin : rate source 8191 63 ≤ frequency) :
    ∃ s, search source frequency clockCounts {} = some s ∧ Admissible s.best ∧
      s.best.achieved source ≤ frequency ∧
      ∀ pre count, pre < 8192 → 0 < count → count < 64 → rate source pre count ≤ frequency →
        rate source pre count ≤ s.best.achieved source := by
  have hslowest : 0 < rate source 8191 63 := Nat.div_pos hsource (by decide)
  have hfrequency := hslowest.trans_le hmin
  have hcounts : ∀ n ∈ clockCounts, 0 < n ∧ n < 64 := fun n hn => mem_clockCounts.mp hn
  obtain ⟨s, heq, hend⟩ := search_spec hfrequency clockCounts hcounts
    (show Below source frequency {} from ⟨hfrequency, Or.inl rfl⟩)
  refine ⟨s, heq, ?_⟩
  rcases hend with ⟨hadmissible, hexact⟩ | ⟨hbelow, -, hcovers⟩
  · exact ⟨hadmissible, hexact.le, fun _ _ _ _ _ hle => hexact ▸ hle⟩
  · obtain ⟨hne, hfound⟩ := hcovers (rate source 8191 63)
      ⟨63, mem_clockCounts.mpr (by omega), 8191, by omega, rfl⟩
    have hpos := hslowest.trans_le (hfound (lt_of_le_of_ne hmin hne))
    obtain ⟨hadmissible, hachieved⟩ := hbelow.found.resolve_left hpos.ne'
    rw [hachieved]
    refine ⟨hadmissible, hbelow.lt.le, fun pre count hpre hzero hcount hle => ?_⟩
    obtain ⟨hne, hbest⟩ := hcovers _ ⟨count, mem_clockCounts.mpr ⟨hzero, hcount⟩, pre, hpre, rfl⟩
    exact hbest (lt_of_le_of_ne hle hne)

/-- Every request has a register, without a division by zero or a field that overflows. From the
slowest register to the source clock its frequency is at most the request, and no register of the
search is closer from below. -/
theorem spiFrequencyToClockDiv_best (hcpu : 0 < cpuFrequencyMhz) (frequency : ℕ) :
    ∃ divider, spiFrequencyToClockDiv cpuFrequencyMhz frequency = some divider ∧
      (getApbFrequency cpuFrequencyMhz / ((8191 + 1) * (63 + 1)) ≤ frequency →
        frequency ≤ getApbFrequency cpuFrequencyMhz →
        ∃ achieved, spiClockDivToFrequency cpuFrequencyMhz divider = some achieved ∧
          achieved ≤ frequency ∧
          ∀ pre count, pre < 8192 → 0 < count → count < 64 →
            getApbFrequency cpuFrequencyMhz / ((pre + 1) * (count + 1)) ≤ frequency →
            getApbFrequency cpuFrequencyMhz / ((pre + 1) * (count + 1)) ≤ achieved) := by
  have hsource := getApbFrequency_ge hcpu
  rw [spiFrequencyToClockDiv_eq (minimum_frequency _)]
  by_cases hfast : getApbFrequency cpuFrequencyMhz ≤ frequency
  · rw [if_pos hfast]
    refine ⟨_, rfl, fun _ hle => ⟨_, decoded_source cpuFrequencyMhz, hfast, ?_⟩⟩
    intro pre count _ _ _ _
    exact Nat.div_le_self _ _
  rw [if_neg hfast]
  by_cases hmin : frequency < rate (getApbFrequency cpuFrequencyMhz) 8191 63
  · rw [if_pos hmin]
    exact ⟨_, rfl, fun hle => absurd hle (not_le.mpr hmin)⟩
  · rw [if_neg hmin]
    obtain ⟨s, heq, hadmissible, hle, hbest⟩ := search_best (by omega) (not_lt.mp hmin)
    rw [heq, Option.bind_some]
    exact ⟨_, rfl, fun _ _ => ⟨_, hadmissible.decoded cpuFrequencyMhz, hle, hbest⟩⟩

/-- A request of 26 MHz at 240 MHz. -/
theorem spiFrequencyToClockDiv_best_26MHz :
    ∃ divider, spiFrequencyToClockDiv 240 26000000 = some divider ∧
      (getApbFrequency 240 / ((8191 + 1) * (63 + 1)) ≤ 26000000 → 26000000 ≤ getApbFrequency 240 →
        ∃ achieved, spiClockDivToFrequency 240 divider = some achieved ∧ achieved ≤ 26000000 ∧
          ∀ pre count, pre < 8192 → 0 < count → count < 64 →
            getApbFrequency 240 / ((pre + 1) * (count + 1)) ≤ 26000000 →
            getApbFrequency 240 / ((pre + 1) * (count + 1)) ≤ achieved) :=
  spiFrequencyToClockDiv_best (by decide) 26000000

example : spiFrequencyToClockDiv 240 20000000 = some 0x00041001 := by decide +kernel

end Requests

end RooTesting.SpiClock
