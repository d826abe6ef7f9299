import Mathlib.Algebra.Order.Floor.Div
import Mathlib.GroupTheory.GroupAction.Ring
import Mathlib.Tactic.Cases

/-! # Waiting through interruptions

A call with a timeout is made again whenever it is interrupted, each time for what is left until
the deadline, rounded up to the unit of the timeout. Two such waits in one environment go in step
until the earlier deadline tells them apart. -/
namespace RooTesting.InterruptedWait

/-- What the nth call does when it begins at a given time, with a timeout in units or with none: its
reply, and when it ends. -/
abbrev Call (Reply : Type) := ℕ → ℕ → Option ℕ → Reply × ℕ

/-- The time that passes from a reading of the clock to the nth call, from the end of the call to
the next reading, and from there to the reading that the next timeout is computed from. -/
structure Pace where
  begins : ℕ → ℕ
  notices : ℕ → ℕ
  resumes : ℕ → ℕ

structure Attempt (Reply : Type) where
  now : ℕ
  timeout : Option ℕ
  reply : Reply

inductive Outcome (Reply : Type)
  | waiting
  | replied (reply : Reply) (now : ℕ)
  | expired (now : ℕ)

def Outcome.returnedAt {Reply : Type} : Outcome Reply → Option ℕ
  | .waiting => none
  | .replied _ now => some now
  | .expired now => some now

structure Run (Reply : Type) where
  attempts : List (Attempt Reply)
  outcome : Outcome Reply

/-- What is left until the deadline, in units rounded up. -/
def left (unit now deadline : ℕ) : ℕ := (deadline - now) ⌈/⌉ unit

def passed (deadline : Option ℕ) (now : ℕ) : Bool := deadline.any fun d => decide (d ≤ now)

/-- A call that is made `fuel` times at most. -/
def loop {Reply : Type} (call : Call Reply) (pace : Pace) (interrupted : Reply → Bool) (unit : ℕ)
    (deadline : Option ℕ) : ℕ → ℕ → ℕ → Run Reply
  | 0, _, _ => ⟨[], .waiting⟩
  | fuel + 1, n, now =>
      let timeout := deadline.map (left unit now)
      let answer := call n (now + pace.begins n) timeout
      let noticed := answer.2 + pace.notices n
      if interrupted answer.1 then
        if passed deadline noticed then ⟨[⟨now, timeout, answer.1⟩], .expired noticed⟩
        else
          let rest := loop call pace interrupted unit deadline fuel (n + 1)
            (noticed + pace.resumes n)
          ⟨⟨now, timeout, answer.1⟩ :: rest.attempts, rest.outcome⟩
      else ⟨[⟨now, timeout, answer.1⟩], .replied answer.1 noticed⟩

/-- A call that minds its timeout: it never expires early, and a longer timeout only makes a
difference where the shorter one expires. -/
structure Specified {Reply : Type} (interrupted expired : Reply → Bool) (unit : ℕ)
    (call : Call Reply) : Prop where
  ends : ∀ n start timeout, start ≤ (call n start timeout).2
  final : ∀ reply, expired reply → interrupted reply = false
  endless : ∀ n start, expired (call n start none).1 = false
  punctual : ∀ n start timeout, expired (call n start (some timeout)).1 →
    start + timeout * unit ≤ (call n start (some timeout)).2
  longer : ∀ n start timeout longer, (∀ t ∈ longer, timeout ≤ t) →
    call n start longer = call n start (some timeout) ∨
    expired (call n start (some timeout)).1 ∧
      (call n start (some timeout)).2 ≤ (call n start longer).2

/-- From the nth call on there are no interruptions. -/
def Calm {Reply : Type} (interrupted : Reply → Bool) (call : Call Reply) (n : ℕ) : Prop :=
  ∀ m, n ≤ m → ∀ start timeout, interrupted (call m start timeout).1 = false

/-- A wait that no interruption shows in. -/
structure Run.Transparent {Reply : Type} (interrupted expired : Reply → Bool) (unit : ℕ)
    (deadline : Option ℕ) (run : Run Reply) : Prop where
  asked : ∀ attempt ∈ run.attempts, attempt.timeout = deadline.map (left unit attempt.now)
  replied : ∀ reply now, run.outcome = .replied reply now → interrupted reply = false ∧
    ∃ before last, run.attempts = before ++ [last] ∧ last.reply = reply ∧
      ∀ attempt ∈ before, interrupted attempt.reply
  ranOut : ∀ now, run.outcome = .expired now → passed deadline now ∧
    ∀ attempt ∈ run.attempts, interrupted attempt.reply
  timely : ∀ reply now, run.outcome = .replied reply now → expired reply → passed deadline now

theorem passed_some {d now : ℕ} : passed (some d) now = true ↔ d ≤ now := by
  simp [passed]

theorem passed_iff {deadline : Option ℕ} {now : ℕ} :
    passed deadline now = true ↔ ∃ d ∈ deadline, d ≤ now := by
  cases deadline <;> simp [passed]

theorem passed_of_later {d now : ℕ} {deadline : Option ℕ} (hlater : ∀ d' ∈ deadline, d ≤ d')
    (h : passed deadline now = true) : passed (some d) now = true := by
  cases deadline with
  | none => cases h
  | some d' => exact passed_some.2 ((hlater d' rfl).trans (passed_some.1 h))

theorem le_of_left {unit now deadline start ends : ℕ} (hunit : 0 < unit) (hstart : now ≤ start)
    (h : start + left unit now deadline * unit ≤ ends) : deadline ≤ ends := by
  have hle := (ceilDiv_le_iff_le_mul hunit).1 (le_refl (left unit now deadline))
  rw [Nat.mul_comm] at hle
  omega

theorem left_mono {unit now d d' : ℕ} (hunit : 0 < unit) (h : d ≤ d') :
    left unit now d ≤ left unit now d' :=
  (gc_mul_ceilDiv hunit).monotone_l (Nat.sub_le_sub_right h now)

theorem left_eq_zero {unit now deadline : ℕ} (hunit : 0 < unit) :
    left unit now deadline = 0 ↔ deadline ≤ now := by
  rw [← Nat.le_zero, left, ceilDiv_le_iff_le_mul hunit]
  omega

section Loop
variable {Reply : Type} {call : Call Reply} {pace : Pace} {interrupted expired : Reply → Bool}
  {unit : ℕ} {deadline : Option ℕ}

variable (call pace interrupted unit deadline) in
/-- The reply of the nth attempt, and the reading after it. -/
theorem loop_cases (fuel n now : ℕ) :
    ∃ answer, answer = call n (now + pace.begins n) (deadline.map (left unit now)) ∧
      ((interrupted answer.1 = false ∧
        loop call pace interrupted unit deadline (fuel + 1) n now =
          ⟨[⟨now, deadline.map (left unit now), answer.1⟩],
            .replied answer.1 (answer.2 + pace.notices n)⟩) ∨
      (interrupted answer.1 = true ∧ passed deadline (answer.2 + pace.notices n) = true ∧
        loop call pace interrupted unit deadline (fuel + 1) n now =
          ⟨[⟨now, deadline.map (left unit now), answer.1⟩],
            .expired (answer.2 + pace.notices n)⟩) ∨
      (interrupted answer.1 = true ∧ passed deadline (answer.2 + pace.notices n) = false ∧
        ∃ rest, rest = loop call pace interrupted unit deadline fuel (n + 1)
            (answer.2 + pace.notices n + pace.resumes n) ∧
          loop call pace interrupted unit deadline (fuel + 1) n now =
            ⟨⟨now, deadline.map (left unit now), answer.1⟩ :: rest.attempts, rest.outcome⟩)) := by
  refine ⟨_, rfl, ?_⟩
  rw [loop]
  simp only
  split
  · rename_i hint
    split
    · rename_i hpassed
      exact .inr (.inl ⟨hint, hpassed, rfl⟩)
    · rename_i hpassed
      exact .inr (.inr ⟨hint, Bool.eq_false_iff.2 hpassed, _, rfl, rfl⟩)
  · rename_i hint
    exact .inl ⟨Bool.eq_false_iff.2 hint, rfl⟩

variable (pace unit deadline) in
theorem loop_returns {calls : ℕ} (hcalm : Calm interrupted call calls) (fuel n now : ℕ)
    (hn : n ≤ calls) (hfuel : calls < n + fuel) :
    ∃ t, (loop call pace interrupted unit deadline fuel n now).outcome.returnedAt = some t := by
  induction fuel generalizing n now with
  | zero => omega
  | succ fuel ih =>
    obtain ⟨answer, hanswer, ⟨-, hrun⟩ | ⟨-, -, hrun⟩ | ⟨hint, -, rest, hrest, hrun⟩⟩ :=
      loop_cases call pace interrupted unit deadline fuel n now
    · rw [hrun]
      exact ⟨_, rfl⟩
    · rw [hrun]
      exact ⟨_, rfl⟩
    · have hlt : n ≠ calls := by
        rintro rfl
        rw [hanswer, hcalm n le_rfl] at hint
        cases hint
      rw [hrun, hrest]
      exact ih (n + 1) _ (by omega) (by omega)

variable (h : Specified interrupted expired unit call)
include h

variable (pace deadline) in
theorem loop_transparent (hunit : 0 < unit) (fuel n now : ℕ) :
    (loop call pace interrupted unit deadline fuel n now).Transparent interrupted expired unit
      deadline := by
  induction fuel generalizing n now with
  | zero => exact ⟨by simp [loop], by simp [loop], by simp [loop], by simp [loop]⟩
  | succ fuel ih =>
    obtain ⟨answer, hanswer, ⟨hint, hrun⟩ | ⟨hint, hpassed, hrun⟩ |
      ⟨hint, -, rest, hrest, hrun⟩⟩ :=
      loop_cases call pace interrupted unit deadline fuel n now
    · rw [hrun]
      refine ⟨by simp, ?_, by simp, ?_⟩
      · intro reply at' heq
        cases heq
        exact ⟨hint, [], _, rfl, rfl, by simp⟩
      · intro reply at' heq hexpired
        cases heq
        -- An expiry needs a timeout, and the timeout covers what was left.
        cases deadline with
        | none =>
          rw [hanswer, Option.map_none, h.endless] at hexpired
          cases hexpired
        | some d =>
          rw [hanswer, Option.map_some] at hexpired
          have hpunctual := h.punctual n _ _ hexpired
          have hle := le_of_left hunit (Nat.le_add_right now (pace.begins n)) hpunctual
          rw [passed_some, hanswer, Option.map_some]
          omega
    · rw [hrun]
      refine ⟨by simp, by simp, ?_, by simp⟩
      intro at' heq
      cases heq
      refine ⟨hpassed, ?_⟩
      intro attempt hmem
      rw [List.mem_singleton.1 hmem]
      exact hint
    · have hih := ih (n + 1) (answer.2 + pace.notices n + pace.resumes n)
      rw [← hrest] at hih
      rw [hrun]
      refine ⟨?_, ?_, ?_, hih.timely⟩
      · intro attempt hmem
        rcases List.mem_cons.1 hmem with rfl | hmem
        · rfl
        · exact hih.asked attempt hmem
      · intro reply at' heq
        obtain ⟨hreply, before, last, hattempts, hlast, hbefore⟩ := hih.replied reply at' heq
        refine ⟨hreply, ⟨now, deadline.map (left unit now), answer.1⟩ :: before, last, ?_, hlast, ?_⟩
        · rw [hattempts]
          rfl
        · intro attempt hmem
          rcases List.mem_cons.1 hmem with rfl | hmem
          · exact hint
          · exact hbefore attempt hmem
      · intro at' heq
        obtain ⟨hpassed, hattempts⟩ := hih.ranOut at' heq
        refine ⟨hpassed, ?_⟩
        intro attempt hmem
        rcases List.mem_cons.1 hmem with rfl | hmem
        · exact hint
        · exact hattempts attempt hmem

theorem le_returnedAt (fuel n now : ℕ) {t : ℕ}
    (hreturned : (loop call pace interrupted unit deadline fuel n now).outcome.returnedAt = some t) :
    now ≤ t := by
  induction fuel generalizing n now with
  | zero => cases hreturned
  | succ fuel ih =>
    obtain ⟨answer, hanswer, hcases⟩ :=
      loop_cases call pace interrupted unit deadline fuel n now
    have hends := h.ends n (now + pace.begins n) (deadline.map (left unit now))
    rw [← hanswer] at hends
    obtain ⟨-, hrun⟩ | ⟨-, -, hrun⟩ | ⟨-, -, rest, hrest, hrun⟩ := hcases
    · rw [hrun] at hreturned
      cases hreturned
      omega
    · rw [hrun] at hreturned
      cases hreturned
      omega
    · rw [hrun, hrest] at hreturned
      have hle := ih (n + 1) _ hreturned
      omega

/-- After its nth call a wait is over no sooner than its next reading. -/
theorem noticed_le_returnedAt (fuel n now : ℕ) {t : ℕ}
    (hreturned :
      (loop call pace interrupted unit deadline (fuel + 1) n now).outcome.returnedAt = some t) :
    (call n (now + pace.begins n) (deadline.map (left unit now))).2 + pace.notices n ≤ t := by
  obtain ⟨answer, hanswer, ⟨-, hrun⟩ | ⟨-, -, hrun⟩ | ⟨-, -, rest, hrest, hrun⟩⟩ :=
    loop_cases call pace interrupted unit deadline fuel n now
  · rw [hrun] at hreturned
    cases hreturned
    rw [← hanswer]
  · rw [hrun] at hreturned
    cases hreturned
    rw [← hanswer]
  · rw [hrun, hrest] at hreturned
    have hle := le_returnedAt h fuel (n + 1) _ hreturned
    rw [← hanswer]
    omega

/-- A wait with a later deadline, or with none, returns no earlier. -/
theorem loop_mono (hunit : 0 < unit) {d : ℕ} (hlater : ∀ d' ∈ deadline, d ≤ d') (fuel n now : ℕ)
    {t t' : ℕ}
    (hfirst : (loop call pace interrupted unit (some d) fuel n now).outcome.returnedAt = some t)
    (hsecond : (loop call pace interrupted unit deadline fuel n now).outcome.returnedAt = some t') :
    t ≤ t' := by
  induction fuel generalizing n now with
  | zero => cases hfirst
  | succ fuel ih =>
    have hleft : ∀ m ∈ deadline.map (left unit now), left unit now d ≤ m := by
      intro m hm
      obtain ⟨d', hd', rfl⟩ := Option.mem_map.1 hm
      exact left_mono hunit (hlater d' hd')
    have hnoticed := noticed_le_returnedAt h fuel n now hsecond
    obtain ⟨answer, hanswer, hcases⟩ :=
      loop_cases call pace interrupted unit (some d) fuel n now
    rw [Option.map_some] at hanswer
    rcases h.longer n (now + pace.begins n) (left unit now d) _ hleft with hsame | ⟨hexpired, hle⟩
    · rw [hsame, ← hanswer] at hnoticed
      obtain ⟨-, hrun⟩ | ⟨-, -, hrun⟩ | ⟨hint, hpassed, rest, hrest, hrun⟩ := hcases
      · rw [hrun] at hfirst
        cases hfirst
        exact hnoticed
      · rw [hrun] at hfirst
        cases hfirst
        exact hnoticed
      · rw [hrun, hrest] at hfirst
        obtain ⟨answer', hanswer', hcases'⟩ :=
          loop_cases call pace interrupted unit deadline fuel n now
        obtain rfl : answer' = answer := hanswer'.trans (hsame.trans hanswer.symm)
        obtain ⟨hint', -⟩ | ⟨-, hpassed', hrun'⟩ | ⟨-, -, rest', hrest', hrun'⟩ := hcases'
        · rw [hint] at hint'
          cases hint'
        · -- The later deadline cannot have passed before the earlier one.
          rw [passed_of_later hlater hpassed'] at hpassed
          cases hpassed
        · rw [hrun', hrest'] at hsecond
          exact ih (n + 1) _ hfirst hsecond
    · rw [← hanswer] at hexpired hle
      obtain ⟨-, hrun⟩ | ⟨hint, -, -⟩ | ⟨hint, -, -⟩ := hcases
      · rw [hrun] at hfirst
        cases hfirst
        omega
      · rw [h.final _ hexpired] at hint
        cases hint
      · rw [h.final _ hexpired] at hint
        cases hint

end Loop
section Records
variable {Reply β : Type} {interrupted expired : Reply → Bool} {unit : ℕ} {deadline : Option ℕ}
  {run : Run Reply} (record : Attempt Reply → β) (replyOf : β → Reply)

/-- The reply that a wait returns is the one of its last record. -/
theorem Run.Transparent.last_record (h : run.Transparent interrupted expired unit deadline)
    (hrecord : ∀ attempt, replyOf (record attempt) = attempt.reply) {reply : Reply} {now : ℕ}
    (houtcome : run.outcome = .replied reply now) :
    ∃ before last, run.attempts.map record = before ++ [last] ∧ replyOf last = reply ∧
      ∀ b ∈ before, interrupted (replyOf b) := by
  obtain ⟨-, before, last, hattempts, hlast, hbefore⟩ := h.replied reply now houtcome
  refine ⟨before.map record, record last, ?_, (hrecord last).trans hlast, ?_⟩
  · rw [hattempts, List.map_append]
    rfl
  · intro b hmem
    obtain ⟨a, ha, rfl⟩ := List.mem_map.1 hmem
    rw [hrecord]
    exact hbefore a ha

theorem Run.Transparent.all_records (h : run.Transparent interrupted expired unit deadline)
    (hrecord : ∀ attempt, replyOf (record attempt) = attempt.reply) {now : ℕ}
    (houtcome : run.outcome = .expired now) :
    ∀ b ∈ run.attempts.map record, interrupted (replyOf b) := by
  intro b hmem
  obtain ⟨a, ha, rfl⟩ := List.mem_map.1 hmem
  rw [hrecord]
  exact (h.ranOut now houtcome).2 a ha

end Records

end RooTesting.InterruptedWait
