import RooTesting.DeadlineTicks
import RooTesting.InterruptedWait

/-! # Interrupted waits on sockets

`roo_testing_select` and `roo_testing_poll` make the real call again when a signal interrupts it.
Both are waits through interruptions, in microseconds and in milliseconds, once the sum that gives
the deadline is within the clock's type. -/
namespace RooTesting.SocketWaits
open DeadlineTicks InterruptedWait

inductive Errno
  | eintr
  | einval
  | other (code : ℕ)
  deriving DecidableEq

structure Timeval where
  sec : ℤ
  usec : ℤ
  deriving DecidableEq

def Timeval.Valid (t : Timeval) : Prop := 0 ≤ t.sec ∧ 0 ≤ t.usec ∧ t.usec < 1000000

instance Timeval.decidableValid (t : Timeval) : Decidable t.Valid :=
  inferInstanceAs (Decidable (_ ∧ _))

def Timeval.nanos (t : Timeval) : ℕ := (t.sec * 1000000000 + t.usec * 1000).toNat

def Timeval.ofMicros (micros : ℕ) : Timeval := ⟨micros / 1000000, micros % 1000000⟩

section Select

abbrev FdSet := ℕ → Bool

/-- The three sets of a call; a null pointer is none. -/
structure FdSets where
  read : Option FdSet
  write : Option FdSet
  error : Option FdSet

/-- `FD_ZERO` of every set that is there. -/
def FdSets.zero (sets : FdSets) : FdSets :=
  ⟨sets.read.map fun _ _ => false, sets.write.map fun _ _ => false,
    sets.error.map fun _ _ => false⟩

inductive SelectReply
  | ready (count : ℕ) (sets : FdSets)
  | failed (errno : Errno)

def SelectReply.interrupted : SelectReply → Bool
  | .failed .eintr => true
  | _ => false

def SelectReply.expired : SelectReply → Bool
  | .ready 0 _ => true
  | _ => false

/-- `__real_select` at its nth call, from the time it begins at: its reply and the time it ends. -/
abbrev RealSelect := ℕ → ℕ → ℤ → FdSets → Option Timeval → SelectReply × ℕ

/-- `SelectDeadline`; an overflow of the clock's type is undefined. -/
def selectDeadline (now : ℕ) (timeout : Timeval) : Option ℕ :=
  (int64 (timeout.sec * 1000000000)).bind fun seconds =>
    (int64 (now + seconds)).bind fun sum =>
      (int64 (timeout.usec * 1000)).bind fun micros =>
        (int64 (sum + micros)).map Int.toNat

/-- `SelectTimeRemaining`, from the clock reading it takes. -/
def selectTimeRemaining (now deadline : ℕ) : Timeval :=
  if deadline ≤ now then ⟨0, 0⟩
  else
    let remaining := deadline - now
    let microseconds := remaining / 1000
    if microseconds * 1000 < remaining then .ofMicros (microseconds + 1) else .ofMicros microseconds

/-- What the caller finds: the result, `errno` of a failure, its sets, and its timeout. -/
structure SelectResult where
  result : ℤ
  errno : Option Errno
  sets : FdSets
  timeout : Option Timeval

inductive SelectOutcome
  | undefined
  | waiting
  | returned (result : SelectResult) (now : ℕ)

/-- A real call: the clock reading its timeout was computed from, what it was given, its reply. -/
structure SelectAttempt where
  now : ℕ
  sets : FdSets
  timeout : Option Timeval
  reply : SelectReply

structure SelectRun where
  attempts : List SelectAttempt
  outcome : SelectOutcome

def selectLoop (real : RealSelect) (pace : Pace) (count : ℤ) (original : FdSets)
    (timeout : Option Timeval) (deadline : Option ℕ) : ℕ → ℕ → ℕ → SelectRun
  | 0, _, _ => ⟨[], .waiting⟩
  | fuel + 1, n, now =>
      let attemptTimeout := deadline.map (selectTimeRemaining now)
      let answer := real n (now + pace.begins n) count original attemptTimeout
      let noticed := answer.2 + pace.notices n
      let attempt := ⟨now, original, attemptTimeout, answer.1⟩
      match answer.1 with
      | .ready ready sets =>
          ⟨[attempt], .returned
            ⟨ready, none, sets, deadline.map (selectTimeRemaining noticed)⟩ noticed⟩
      | .failed .eintr =>
          if passed deadline noticed then
            ⟨[attempt], .returned ⟨0, none, original.zero, timeout.map fun _ => ⟨0, 0⟩⟩ noticed⟩
          else
            let rest := selectLoop real pace count original timeout deadline fuel (n + 1)
              (noticed + pace.resumes n)
            ⟨attempt :: rest.attempts, rest.outcome⟩
      | .failed errno => ⟨[attempt], .returned ⟨-1, some errno, original, timeout⟩ noticed⟩

/-- `roo_testing_select`, from the clock reading of its deadline and the time to the next one. -/
def rooTestingSelect (real : RealSelect) (pace : Pace) (fuel now setup : ℕ) (count : ℤ)
    (sets : FdSets) (timeout : Option Timeval) : SelectRun :=
  match timeout with
  | none => selectLoop real pace count sets none none fuel 0 (now + setup)
  | some t =>
      if t.Valid then
        match selectDeadline now t with
        | some deadline =>
            selectLoop real pace count sets (some t) (some deadline) fuel 0 (now + setup)
        | none => ⟨[], .undefined⟩
      else ⟨[], .returned ⟨-1, some .einval, sets, some t⟩ now⟩

/-- What `select` promises of the sets and the timeout that the wrapper passes. -/
def RealSelect.call (real : RealSelect) (count : ℤ) (sets : FdSets) : Call SelectReply :=
  fun n start timeout => real n start count sets (timeout.map .ofMicros)

def RealSelect.Specified (real : RealSelect) : Prop :=
  ∀ count sets, InterruptedWait.Specified SelectReply.interrupted SelectReply.expired 1000
    (real.call count sets)

def RealSelect.Calm (real : RealSelect) (calls : ℕ) : Prop :=
  ∀ count sets, InterruptedWait.Calm SelectReply.interrupted (real.call count sets) calls

/-- The caller has the answer of a real call. -/
def SelectResult.Answers (sets : FdSets) (result : SelectResult) : SelectReply → Prop
  | .ready count after => result.result = count ∧ result.errno = none ∧ result.sets = after
  | .failed errno => result.result = -1 ∧ result.errno = some errno ∧ result.sets = sets

def SelectRun.returnedAt (run : SelectRun) : Option ℕ :=
  match run.outcome with
  | .returned _ now => some now
  | _ => none

/-- A call that returns, and that no interruption shows in. -/
structure SelectRun.Transparent (sets : FdSets) (deadline : Option ℕ) (run : SelectRun) : Prop where
  asked : ∀ attempt ∈ run.attempts, attempt.sets = sets ∧
    attempt.timeout = (deadline.map (left 1000 attempt.now)).map .ofMicros
  returns : ∃ result now, run.outcome = .returned result now ∧
    (result.result = 0 → ∃ d ∈ deadline, d ≤ now) ∧
    ((∃ before last, run.attempts = before ++ [last] ∧ last.reply.interrupted = false ∧
        (∀ attempt ∈ before, attempt.reply.interrupted) ∧ result.Answers sets last.reply) ∨
      ((∀ attempt ∈ run.attempts, attempt.reply.interrupted) ∧ result.result = 0 ∧
        result.errno = none ∧ result.sets = sets.zero))

/-- The call keeps its contract: it is transparent, and no shorter timeout, in the same place, makes
it return later. -/
structure SelectKept (real : RealSelect) (pace : Pace) (fuel now setup : ℕ) (count : ℤ)
    (sets : FdSets) (timeout : Option Timeval) : Prop where
  transparent : (rooTestingSelect real pace fuel now setup count sets timeout).Transparent sets
    (timeout.map fun t => now + t.nanos)
  monotone : ∀ shorter : Timeval, shorter.Valid → now + shorter.nanos < 2 ^ 63 →
    (∀ t ∈ timeout, shorter.nanos ≤ t.nanos) → ∀ early late,
    (rooTestingSelect real pace fuel now setup count sets (some shorter)).returnedAt = some early →
    (rooTestingSelect real pace fuel now setup count sets timeout).returnedAt = some late →
    early ≤ late

end Select

section Poll

structure Interest where
  fd : ℤ
  events : ℕ
  deriving DecidableEq

/-- `descriptors` with `descriptor_count`: the array, or a null pointer with some count. -/
inductive PollFds
  | array (interests : List Interest)
  | null (count : ℕ)

def PollFds.zero : PollFds → List ℕ
  | .array interests => interests.map fun _ => 0
  | .null _ => []

/-- The result of a poll and the `revents` it leaves in the array. -/
structure PollReply where
  result : Except Errno ℕ
  revents : List ℕ

def PollReply.interrupted (reply : PollReply) : Bool :=
  match reply.result with
  | .error .eintr => true
  | _ => false

def PollReply.expired (reply : PollReply) : Bool :=
  match reply.result with
  | .ok 0 => true
  | _ => false

abbrev RealPoll := ℕ → ℕ → PollFds → ℤ → PollReply × ℕ

def intMax : ℕ := 2 ^ 31 - 1

def pollDeadline (now : ℕ) (timeoutMs : ℤ) : Option ℕ :=
  (int64 (timeoutMs * 1000000)).bind fun nanos => (int64 (now + nanos)).map Int.toNat

/-- `PollTimeRemaining`, from the clock reading it takes. -/
def pollTimeRemaining (now deadline : ℕ) : ℕ :=
  if deadline ≤ now then 0
  else
    let remaining := deadline - now
    let milliseconds := remaining / 1000000
    min (if milliseconds * 1000000 < remaining then milliseconds + 1 else milliseconds) intMax

inductive PollOutcome
  | undefined
  | waiting
  | returned (reply : PollReply) (now : ℕ)

structure PollAttempt where
  now : ℕ
  fds : PollFds
  timeoutMs : ℤ
  reply : PollReply

structure PollRun where
  attempts : List PollAttempt
  outcome : PollOutcome

def pollLoop (real : RealPoll) (pace : Pace) (fds : PollFds) (deadline : Option ℕ) :
    ℕ → ℕ → ℕ → ℤ → PollRun
  | 0, _, _, _ => ⟨[], .waiting⟩
  | fuel + 1, n, now, remainingMs =>
      let answer := real n (now + pace.begins n) fds remainingMs
      let noticed := answer.2 + pace.notices n
      let attempt := ⟨now, fds, remainingMs, answer.1⟩
      if answer.1.interrupted then
        match deadline with
        | none =>
            let rest := pollLoop real pace fds deadline fuel (n + 1) noticed remainingMs
            ⟨attempt :: rest.attempts, rest.outcome⟩
        | some d =>
            if pollTimeRemaining noticed d = 0 then
              ⟨[attempt], .returned ⟨.ok 0, fds.zero⟩ noticed⟩
            else
              let rest := pollLoop real pace fds deadline fuel (n + 1) noticed
                (pollTimeRemaining noticed d)
              ⟨attempt :: rest.attempts, rest.outcome⟩
      else ⟨[attempt], .returned answer.1 noticed⟩

def rooTestingPoll (real : RealPoll) (pace : Pace) (fuel now : ℕ) (fds : PollFds)
    (timeoutMs : ℤ) : PollRun :=
  if 0 ≤ timeoutMs then
    match pollDeadline now timeoutMs with
    | some deadline => pollLoop real pace fds (some deadline) fuel 0 now timeoutMs
    | none => ⟨[], .undefined⟩
  else pollLoop real pace fds none fuel 0 now timeoutMs

def RealPoll.call (real : RealPoll) (fds : PollFds) (timeoutMs : ℤ) : Call PollReply :=
  fun n start timeout => real n start fds (timeout.elim timeoutMs Int.ofNat)

def RealPoll.Specified (real : RealPoll) : Prop :=
  ∀ fds timeoutMs, timeoutMs < 0 → InterruptedWait.Specified PollReply.interrupted
    PollReply.expired 1000000 (real.call fds timeoutMs)

def RealPoll.Calm (real : RealPoll) (calls : ℕ) : Prop :=
  ∀ fds timeoutMs, InterruptedWait.Calm PollReply.interrupted (real.call fds timeoutMs) calls

def PollRun.returnedAt (run : PollRun) : Option ℕ :=
  match run.outcome with
  | .returned _ now => some now
  | _ => none

structure PollRun.Transparent (fds : PollFds) (timeoutMs : ℤ) (deadline : Option ℕ)
    (run : PollRun) : Prop where
  asked : ∀ attempt ∈ run.attempts, attempt.fds = fds ∧
    attempt.timeoutMs =
      (deadline.map (left 1000000 attempt.now)).elim timeoutMs Int.ofNat
  returns : ∃ reply now, run.outcome = .returned reply now ∧
    (reply.expired → ∃ d ∈ deadline, d ≤ now) ∧
    ((∃ before last, run.attempts = before ++ [last] ∧ last.reply.interrupted = false ∧
        (∀ attempt ∈ before, attempt.reply.interrupted) ∧ reply = last.reply) ∨
      ((∀ attempt ∈ run.attempts, attempt.reply.interrupted) ∧ reply = ⟨.ok 0, fds.zero⟩))

/-- A negative timeout has no deadline. -/
def exactPollDeadline (now : ℕ) (timeoutMs : ℤ) : Option ℕ :=
  if 0 ≤ timeoutMs then some (now + timeoutMs.toNat * 1000000) else none

structure PollKept (real : RealPoll) (pace : Pace) (fuel now : ℕ) (fds : PollFds)
    (timeoutMs : ℤ) : Prop where
  transparent : (rooTestingPoll real pace fuel now fds timeoutMs).Transparent fds timeoutMs
    (exactPollDeadline now timeoutMs)
  monotone : ∀ shorter : ℤ, 0 ≤ shorter → shorter ≤ intMax →
    now + shorter.toNat * 1000000 < 2 ^ 63 → (0 ≤ timeoutMs → shorter ≤ timeoutMs) → ∀ early late,
    (rooTestingPoll real pace fuel now fds shorter).returnedAt = some early →
    (rooTestingPoll real pace fuel now fds timeoutMs).returnedAt = some late → early ≤ late

end Poll

section SelectWaits
variable {real : RealSelect} {pace : Pace} {count : ℤ} {sets : FdSets} {timeout : Option Timeval}
  {deadline : Option ℕ}

def selectAttempt (sets : FdSets) (attempt : Attempt SelectReply) : SelectAttempt :=
  ⟨attempt.now, sets, attempt.timeout.map .ofMicros, attempt.reply⟩

def selectOutcome (sets : FdSets) (timeout : Option Timeval) (deadline : Option ℕ) :
    Outcome SelectReply → SelectOutcome
  | .waiting => .waiting
  | .replied (.ready count after) now =>
      .returned ⟨count, none, after, deadline.map (selectTimeRemaining now)⟩ now
  | .replied (.failed errno) now => .returned ⟨-1, some errno, sets, timeout⟩ now
  | .expired now => .returned ⟨0, none, sets.zero, timeout.map fun _ => ⟨0, 0⟩⟩ now

theorem selectTimeRemaining_eq (now deadline : ℕ) :
    selectTimeRemaining now deadline = .ofMicros (left 1000 now deadline) := by
  have hceil : left 1000 now deadline = (deadline - now + 1000 - 1) / 1000 :=
    Nat.ceilDiv_eq_add_pred_div _ _
  rw [selectTimeRemaining, hceil]
  split
  · rename_i hle
    rw [Nat.sub_eq_zero_of_le hle]
    rfl
  · simp only
    split
    · congr 1
      omega
    · congr 1
      omega

theorem eintr_of_interrupted {reply : SelectReply} (h : reply.interrupted = true) :
    reply = .failed .eintr := by
  cases reply with
  | ready count after => cases h
  | failed errno =>
    cases errno with
    | eintr => rfl
    | einval => cases h
    | other code => cases h

/-- The loop is a wait through interruptions. -/
theorem selectLoop_eq (fuel n now : ℕ) :
    selectLoop real pace count sets timeout deadline fuel n now =
      ⟨(loop (real.call count sets) pace SelectReply.interrupted 1000 deadline fuel n
          now).attempts.map (selectAttempt sets),
        selectOutcome sets timeout deadline (loop (real.call count sets) pace
          SelectReply.interrupted 1000 deadline fuel n now).outcome⟩ := by
  induction fuel generalizing n now with
  | zero => rfl
  | succ fuel ih =>
    have htimeout : deadline.map (selectTimeRemaining now) =
        (deadline.map (left 1000 now)).map .ofMicros := by
      rw [Option.map_map]
      congr 1
      funext d
      exact selectTimeRemaining_eq now d
    obtain ⟨answer, hanswer, hcases⟩ := loop_cases (real.call count sets) pace
      SelectReply.interrupted 1000 deadline fuel n now
    have hreal : real n (now + pace.begins n) count sets (deadline.map (selectTimeRemaining now)) =
        answer := by
      rw [htimeout, hanswer]
      rfl
    rw [selectLoop]
    simp only [hreal]
    obtain ⟨reply, ends⟩ := answer
    obtain ⟨hint, hrun⟩ | ⟨hint, hpassed, hrun⟩ | ⟨hint, hpassed, rest, hrest, hrun⟩ := hcases
    · rw [hrun, htimeout]
      cases reply with
      | ready ready after => rfl
      | failed errno =>
        cases errno with
        | eintr => cases hint
        | einval => rfl
        | other code => rfl
    · obtain rfl := eintr_of_interrupted hint
      rw [hrun, htimeout]
      simp only [hpassed, if_true]
      rfl
    · obtain rfl := eintr_of_interrupted hint
      rw [hrun, htimeout]
      simp only [hpassed, ih, ← hrest]
      rfl

theorem selectLoop_returns (hreal : real.Specified) {calls : ℕ} (hcalm : real.Calm calls)
    {fuel : ℕ} (hfuel : calls < fuel) (now : ℕ) :
    (selectLoop real pace count sets timeout deadline fuel 0 now).Transparent sets deadline := by
  have hspec := hreal count sets
  have htransparent := loop_transparent pace deadline hspec (by omega) fuel 0 now
  obtain ⟨t, hreturned⟩ := loop_returns pace 1000 deadline
    (hcalm count sets) fuel 0 now (Nat.zero_le calls) (by omega)
  rw [selectLoop_eq]
  generalize loop (real.call count sets) pace SelectReply.interrupted 1000 deadline fuel 0 now =
    run at htransparent hreturned
  constructor
  · intro attempt hmem
    obtain ⟨a, ha, rfl⟩ := List.mem_map.1 hmem
    refine ⟨rfl, ?_⟩
    change a.timeout.map Timeval.ofMicros = _
    rw [htransparent.asked a ha]
    rfl
  · cases houtcome : run.outcome with
    | waiting =>
      rw [houtcome] at hreturned
      cases hreturned
    | replied reply now =>
      have htimely := htransparent.timely reply now houtcome
      obtain ⟨hreply, -⟩ := htransparent.replied reply now houtcome
      obtain ⟨before, last, hattempts, rfl, hbefore⟩ :=
        htransparent.last_record (selectAttempt sets) SelectAttempt.reply (fun _ => rfl) houtcome
      cases hcase : last.reply with
      | ready ready after =>
        refine ⟨_, _, rfl, ?_, .inl ⟨before, last, hattempts, hreply, hbefore, ?_⟩⟩
        · intro hzero
          obtain rfl : ready = 0 := Int.ofNat_eq_zero.1 hzero
          exact passed_iff.1 (htimely (by rw [hcase]; rfl))
        · rw [hcase]
          exact ⟨rfl, rfl, rfl⟩
      | failed errno =>
        refine ⟨_, _, rfl, ?_, .inl ⟨before, last, hattempts, hreply, hbefore, ?_⟩⟩
        · intro hzero
          cases hzero
        · rw [hcase]
          exact ⟨rfl, rfl, rfl⟩
    | expired now =>
      exact ⟨_, _, rfl, fun _ => passed_iff.1 (htransparent.ranOut now houtcome).1,
        .inr ⟨htransparent.all_records _ SelectAttempt.reply (fun _ => rfl) houtcome, rfl, rfl, rfl⟩⟩

theorem selectLoop_returnedAt (fuel n now : ℕ) :
    (selectLoop real pace count sets timeout deadline fuel n now).returnedAt =
      (loop (real.call count sets) pace SelectReply.interrupted 1000 deadline fuel n
        now).outcome.returnedAt := by
  rw [selectLoop_eq, SelectRun.returnedAt]
  simp only
  cases (loop (real.call count sets) pace SelectReply.interrupted 1000 deadline fuel n
    now).outcome with
  | waiting => rfl
  | replied reply now => cases reply <;> rfl
  | expired now => rfl

theorem selectDeadline_of_fits {now : ℕ} {t : Timeval} (hvalid : t.Valid)
    (hfits : now + t.nanos < 2 ^ 63) : selectDeadline now t = some (now + t.nanos) := by
  obtain ⟨hsec, husec, -⟩ := hvalid
  unfold Timeval.nanos at hfits ⊢
  have hseconds : int64 (t.sec * 1000000000) = some (t.sec * 1000000000) := if_pos (by omega)
  have hsum : int64 (now + t.sec * 1000000000) = some (now + t.sec * 1000000000) :=
    if_pos (by omega)
  have hmicros : int64 (t.usec * 1000) = some (t.usec * 1000) := if_pos (by omega)
  have htotal : int64 (now + t.sec * 1000000000 + t.usec * 1000) =
      some (now + t.sec * 1000000000 + t.usec * 1000) := if_pos (by omega)
  simp only [selectDeadline, hseconds, hsum, hmicros, htotal, Option.bind_some, Option.map_some,
    Option.some.injEq]
  omega

theorem selectDeadline_of_overflow {now : ℕ} {t : Timeval} (hvalid : t.Valid)
    (hover : ¬ now + t.nanos < 2 ^ 63) : selectDeadline now t = none := by
  obtain ⟨hsec, husec, hlt⟩ := hvalid
  unfold Timeval.nanos at hover
  have hmicros : int64 (t.usec * 1000) = some (t.usec * 1000) := if_pos (by omega)
  unfold selectDeadline
  by_cases hseconds : t.sec * 1000000000 < 2 ^ 63
  · by_cases hsum : now + t.sec * 1000000000 < 2 ^ 63
    · rw [int64, if_pos (by omega), Option.bind_some, int64, if_pos (by omega), Option.bind_some,
        hmicros, Option.bind_some, int64, if_neg (by omega)]
      rfl
    · rw [int64, if_pos (by omega), Option.bind_some, int64, if_neg (by omega)]
      rfl
  · rw [int64, if_neg (by omega)]
    rfl

theorem rooTestingSelect_of_fits {now : ℕ} {t : Timeval} (hvalid : t.Valid)
    (hfits : now + t.nanos < 2 ^ 63) (fuel setup : ℕ) :
    rooTestingSelect real pace fuel now setup count sets (some t) =
      selectLoop real pace count sets (some t) (some (now + t.nanos)) fuel 0 (now + setup) := by
  rw [rooTestingSelect]
  simp only [if_pos hvalid, selectDeadline_of_fits hvalid hfits]

theorem selectKept_iff (hreal : real.Specified) {calls : ℕ} (hcalm : real.Calm calls) {fuel : ℕ}
    (hfuel : calls < fuel) (now setup : ℕ) (hvalid : ∀ t ∈ timeout, t.Valid) :
    SelectKept real pace fuel now setup count sets timeout ↔
      ∀ t ∈ timeout, now + t.nanos < 2 ^ 63 := by
  constructor
  · intro hkept t ht
    obtain rfl := Option.mem_def.1 ht
    by_contra hover
    obtain ⟨result, at', hreturned, -⟩ := hkept.transparent.returns
    rw [rooTestingSelect] at hreturned
    simp only [if_pos (hvalid t ht), selectDeadline_of_overflow (hvalid t ht) hover] at hreturned
    cases hreturned
  · intro hfits
    have heq : rooTestingSelect real pace fuel now setup count sets timeout =
        selectLoop real pace count sets timeout (timeout.map fun t => now + t.nanos) fuel 0
          (now + setup) := by
      cases timeout with
      | none => rfl
      | some t => exact rooTestingSelect_of_fits (hvalid t rfl) (hfits t rfl) fuel setup
    constructor
    · rw [heq]
      exact selectLoop_returns hreal hcalm hfuel (now + setup)
    · intro shorter hshorter hshort hle early late hearly hlate
      rw [rooTestingSelect_of_fits hshorter hshort, selectLoop_returnedAt] at hearly
      rw [heq, selectLoop_returnedAt] at hlate
      refine loop_mono (hreal count sets) (by omega) ?_ fuel 0 (now + setup) hearly hlate
      intro d hd
      obtain ⟨t, ht, rfl⟩ := Option.mem_map.1 hd
      exact Nat.add_le_add_left (hle t ht) now

end SelectWaits

section PollWaits
variable {real : RealPoll} {pace : Pace} {fds : PollFds} {deadline : Option ℕ}

def pollAttempt (fds : PollFds) (timeoutMs : ℤ) (attempt : Attempt PollReply) : PollAttempt :=
  ⟨attempt.now, fds, attempt.timeout.elim timeoutMs Int.ofNat, attempt.reply⟩

def pollOutcome (fds : PollFds) : Outcome PollReply → PollOutcome
  | .waiting => .waiting
  | .replied reply now => .returned reply now
  | .expired now => .returned ⟨.ok 0, fds.zero⟩ now

/-- The nanoseconds of the longest timeout. -/
def pollReach : ℕ := intMax * 1000000

/-- The cut to `INT_MAX` is idle: no more is left than the caller gave. -/
theorem pollTimeRemaining_eq {now deadline : ℕ} (h : deadline ≤ now + pollReach) :
    pollTimeRemaining now deadline = left 1000000 now deadline := by
  have hceil : left 1000000 now deadline = (deadline - now + 1000000 - 1) / 1000000 :=
    Nat.ceilDiv_eq_add_pred_div _ _
  rw [pollTimeRemaining, hceil]
  unfold pollReach intMax at *
  split
  · omega
  · simp only
    split
    · omega
    · omega

/-- A poll has one reading less: it makes the next call from the reading it finds time left at. -/
def pollPace (pace : Pace) : Pace := { pace with resumes := fun _ => 0 }

theorem pollLoop_eq (hreal : real.Specified) {timeoutMs : ℤ} (hendless : timeoutMs < 0)
    (fuel n now : ℕ) (hreach : ∀ d ∈ deadline, d ≤ now + pollReach) :
    pollLoop real pace fds deadline fuel n now
        ((deadline.map (left 1000000 now)).elim timeoutMs Int.ofNat) =
      ⟨(loop (real.call fds timeoutMs) (pollPace pace) PollReply.interrupted 1000000 deadline fuel n
          now).attempts.map (pollAttempt fds timeoutMs),
        pollOutcome fds (loop (real.call fds timeoutMs) (pollPace pace) PollReply.interrupted 1000000
          deadline fuel n now).outcome⟩ := by
  induction fuel generalizing n now with
  | zero => rfl
  | succ fuel ih =>
    obtain ⟨answer, hanswer, hcases⟩ := loop_cases (real.call fds timeoutMs)
      (pollPace pace) PollReply.interrupted 1000000 deadline fuel n now
    have hends := (hreal fds timeoutMs hendless).ends n (now + pace.begins n)
      (deadline.map (left 1000000 now))
    have hcall : real n (now + pace.begins n) fds
        ((deadline.map (left 1000000 now)).elim timeoutMs Int.ofNat) = answer := hanswer.symm
    change now + pace.begins n ≤ (real n (now + pace.begins n) fds
      ((deadline.map (left 1000000 now)).elim timeoutMs Int.ofNat)).2 at hends
    rw [hcall] at hends
    rw [pollLoop.eq_def]
    simp only [hcall]
    obtain ⟨hint, hrun⟩ | ⟨hint, hpassed, hrun⟩ | ⟨hint, hpassed, rest, hrest, hrun⟩ := hcases
    · rw [hrun, if_neg (by simp [hint])]
      rfl
    · rw [hrun, if_pos hint]
      cases deadline with
      | none => cases hpassed
      | some d =>
        have hreached := hreach d rfl
        have hzero : pollTimeRemaining (answer.2 + pace.notices n) d = 0 := by
          rw [pollTimeRemaining_eq (by omega), left_eq_zero (by omega)]
          exact passed_some.1 hpassed
        simp only [if_pos hzero]
        rfl
    · have hnext := ih (n + 1) (answer.2 + pace.notices n) (by
        intro d hd
        have hreached := hreach d hd
        omega)
      have hresume : answer.2 + (pollPace pace).notices n + (pollPace pace).resumes n =
          answer.2 + pace.notices n := Nat.add_zero (answer.2 + pace.notices n)
      rw [hresume] at hrest
      rw [hrun, if_pos hint]
      cases deadline with
      | none =>
        simp only [Option.map_none, Option.elim_none] at hnext ⊢
        rw [hrest]
        exact congrArg (fun run : PollRun => PollRun.mk
          (⟨now, fds, timeoutMs, answer.1⟩ :: run.attempts) run.outcome) hnext
      | some d =>
        have hreached := hreach d rfl
        have hleft := pollTimeRemaining_eq (show d ≤ answer.2 + pace.notices n + pollReach by omega)
        have hpos : ¬ pollTimeRemaining (answer.2 + pace.notices n) d = 0 := by
          intro hzero
          rw [hleft, left_eq_zero (by omega), ← passed_some] at hzero
          exact absurd hzero (Bool.eq_false_iff.1 hpassed)
        simp only [if_neg hpos]
        rw [hleft, hrest]
        exact congrArg (fun run : PollRun => PollRun.mk
          (⟨now, fds, left 1000000 now d, answer.1⟩ :: run.attempts) run.outcome) hnext

variable (pace fds) in
theorem pollLoop_returns (hreal : real.Specified) {calls : ℕ} (hcalm : real.Calm calls)
    {fuel : ℕ} (hfuel : calls < fuel) {timeoutMs : ℤ} (hendless : timeoutMs < 0) (now : ℕ)
    (hreach : ∀ d ∈ deadline, d ≤ now + pollReach) :
    (pollLoop real pace fds deadline fuel 0 now
      ((deadline.map (left 1000000 now)).elim timeoutMs Int.ofNat)).Transparent fds timeoutMs
        deadline := by
  have hspec := hreal fds timeoutMs hendless
  have htransparent := loop_transparent (pollPace pace) deadline hspec
    (by omega) fuel 0 now
  obtain ⟨t, hreturned⟩ := loop_returns (pollPace pace) 1000000 deadline
    (hcalm fds timeoutMs) fuel 0 now (Nat.zero_le calls) (by omega)
  rw [pollLoop_eq hreal hendless fuel 0 now hreach]
  generalize loop (real.call fds timeoutMs) (pollPace pace) PollReply.interrupted 1000000 deadline
    fuel 0 now = run at htransparent hreturned
  constructor
  · intro attempt hmem
    obtain ⟨a, ha, rfl⟩ := List.mem_map.1 hmem
    refine ⟨rfl, ?_⟩
    change a.timeout.elim timeoutMs Int.ofNat = _
    rw [htransparent.asked a ha]
    rfl
  · cases houtcome : run.outcome with
    | waiting =>
      rw [houtcome] at hreturned
      cases hreturned
    | replied reply now =>
      have htimely := htransparent.timely reply now houtcome
      obtain ⟨hreply, -⟩ := htransparent.replied reply now houtcome
      obtain ⟨before, last, hattempts, rfl, hbefore⟩ :=
        htransparent.last_record (pollAttempt fds timeoutMs) PollAttempt.reply (fun _ => rfl) houtcome
      exact ⟨last.reply, now, rfl, fun hexpired => passed_iff.1 (htimely hexpired),
        .inl ⟨before, last, hattempts, hreply, hbefore, rfl⟩⟩
    | expired now =>
      exact ⟨_, _, rfl, fun _ => passed_iff.1 (htransparent.ranOut now houtcome).1,
        .inr ⟨htransparent.all_records _ PollAttempt.reply (fun _ => rfl) houtcome, rfl⟩⟩

theorem pollLoop_returnedAt (hreal : real.Specified) {timeoutMs : ℤ} (hendless : timeoutMs < 0)
    (fuel now : ℕ) (hreach : ∀ d ∈ deadline, d ≤ now + pollReach) :
    (pollLoop real pace fds deadline fuel 0 now
      ((deadline.map (left 1000000 now)).elim timeoutMs Int.ofNat)).returnedAt =
      (loop (real.call fds timeoutMs) (pollPace pace) PollReply.interrupted 1000000 deadline fuel 0
        now).outcome.returnedAt := by
  rw [pollLoop_eq hreal hendless fuel 0 now hreach, PollRun.returnedAt]
  simp only
  cases (loop (real.call fds timeoutMs) (pollPace pace) PollReply.interrupted 1000000 deadline fuel
    0 now).outcome <;> rfl

theorem pollDeadline_of_fits {now ms : ℕ} (hfits : now + ms * 1000000 < 2 ^ 63) :
    pollDeadline now ms = some (now + ms * 1000000) := by
  have hnanos : int64 ((ms : ℤ) * 1000000) = some ((ms : ℤ) * 1000000) := if_pos (by omega)
  have hsum : int64 (now + (ms : ℤ) * 1000000) = some (now + (ms : ℤ) * 1000000) :=
    if_pos (by omega)
  have htotal : ((now : ℤ) + ms * 1000000).toNat = now + ms * 1000000 := by omega
  rw [pollDeadline, hnanos, Option.bind_some, hsum, Option.map_some, htotal]

theorem pollDeadline_of_overflow {now ms : ℕ} (hover : ¬ now + ms * 1000000 < 2 ^ 63) :
    pollDeadline now ms = none := by
  unfold pollDeadline
  by_cases hnanos : (ms : ℤ) * 1000000 < 2 ^ 63
  · rw [int64, if_pos (by omega), Option.bind_some, int64, if_neg (by omega)]
    rfl
  · rw [int64, if_neg (by omega)]
    rfl

/-- The first call asks for the whole timeout, which is what is left at the reading of the
deadline. -/
theorem left_of_whole (now ms : ℕ) : left 1000000 now (now + ms * 1000000) = ms := by
  have hceil : left 1000000 now (now + ms * 1000000) =
      (now + ms * 1000000 - now + 1000000 - 1) / 1000000 := Nat.ceilDiv_eq_add_pred_div _ _
  rw [hceil]
  omega

theorem exactPollDeadline_cases (now : ℕ) (timeoutMs : ℤ) :
    (timeoutMs < 0 ∧ exactPollDeadline now timeoutMs = none) ∨
    ∃ ms : ℕ, timeoutMs = ms ∧ exactPollDeadline now timeoutMs = some (now + ms * 1000000) := by
  rcases Int.lt_or_le timeoutMs 0 with hneg | hnonneg
  · exact .inl ⟨hneg, if_neg (Int.not_le.2 hneg)⟩
  · obtain ⟨ms, rfl⟩ := Int.eq_ofNat_of_zero_le hnonneg
    exact .inr ⟨ms, rfl, if_pos hnonneg⟩

theorem exactPollDeadline_reach (now : ℕ) {timeoutMs : ℤ} (hint : timeoutMs ≤ intMax) :
    ∀ d ∈ exactPollDeadline now timeoutMs, d ≤ now + pollReach := by
  intro d hd
  obtain ⟨-, heq⟩ | ⟨ms, rfl, heq⟩ := exactPollDeadline_cases now timeoutMs
  · rw [heq] at hd
    cases hd
  · rw [heq] at hd
    cases hd
    exact Nat.add_le_add_left (Nat.mul_le_mul_right 1000000 (Int.ofNat_le.1 hint)) now

variable (real pace fds) in
/-- A poll whose deadline is within the clock's type; what it would ask for without a deadline does
not matter where there is one. -/
theorem rooTestingPoll_of_fits {now : ℕ} {timeoutMs endless : ℤ}
    (hfits : 0 ≤ timeoutMs → now + timeoutMs.toNat * 1000000 < 2 ^ 63)
    (hendless : timeoutMs < 0 → endless = timeoutMs) (fuel : ℕ) :
    rooTestingPoll real pace fuel now fds timeoutMs =
      pollLoop real pace fds (exactPollDeadline now timeoutMs) fuel 0 now
        (((exactPollDeadline now timeoutMs).map (left 1000000 now)).elim endless Int.ofNat) := by
  obtain ⟨hneg, heq⟩ | ⟨ms, rfl, heq⟩ := exactPollDeadline_cases now timeoutMs
  · rw [rooTestingPoll, if_neg (Int.not_le.2 hneg), heq, Option.map_none, Option.elim_none,
      hendless hneg]
  · have hsum := hfits (Int.natCast_nonneg ms)
    rw [Int.toNat_natCast] at hsum
    rw [rooTestingPoll, if_pos (Int.natCast_nonneg ms), pollDeadline_of_fits hsum, heq,
      Option.map_some, Option.elim_some, left_of_whole]
    rfl

theorem pollKept_of_fits (hreal : real.Specified) {calls : ℕ} (hcalm : real.Calm calls)
    {fuel : ℕ} (hfuel : calls < fuel) (now : ℕ) {timeoutMs : ℤ} (hint : timeoutMs ≤ intMax)
    (hfits : 0 ≤ timeoutMs → now + timeoutMs.toNat * 1000000 < 2 ^ 63) :
    PollKept real pace fuel now fds timeoutMs := by
  obtain ⟨endless, hnegative, hendless⟩ : ∃ endless : ℤ, endless < 0 ∧
      (timeoutMs < 0 → endless = timeoutMs) := by
    rcases Int.lt_or_le timeoutMs 0 with hneg | hnonneg
    · exact ⟨timeoutMs, hneg, fun _ => rfl⟩
    · exact ⟨-1, by omega, fun h => by omega⟩
  have heq := rooTestingPoll_of_fits real pace fds hfits hendless fuel
  have hreach := exactPollDeadline_reach now hint
  constructor
  · have hreturns := pollLoop_returns pace fds hreal hcalm hfuel hnegative now
      hreach
    rw [← heq] at hreturns
    refine ⟨?_, hreturns.returns⟩
    intro attempt hmem
    obtain ⟨hfds, hasked⟩ := hreturns.asked attempt hmem
    refine ⟨hfds, ?_⟩
    rw [hasked]
    obtain ⟨hneg, hnone⟩ | ⟨ms, -, hsome⟩ := exactPollDeadline_cases now timeoutMs
    · rw [hnone, Option.map_none, Option.elim_none, Option.elim_none, hendless hneg]
    · rw [hsome, Option.map_some, Option.elim_some, Option.elim_some]
  · intro shorter hshorter hshortInt hshort hle early late hearly hlate
    have hshortReach := exactPollDeadline_reach now hshortInt
    rw [rooTestingPoll_of_fits real pace fds (fun _ => hshort)
        (show shorter < 0 → endless = shorter by omega),
      pollLoop_returnedAt hreal hnegative fuel now hshortReach] at hearly
    rw [heq, pollLoop_returnedAt hreal hnegative fuel now hreach] at hlate
    obtain ⟨hneg, -⟩ | ⟨ms, rfl, hsome⟩ := exactPollDeadline_cases now shorter
    · omega
    · rw [hsome] at hearly
      refine loop_mono (hreal fds endless hnegative) (by omega) ?_ fuel 0 now hearly hlate
      intro d hd
      obtain ⟨-, hnone⟩ | ⟨whole, rfl, hwhole⟩ := exactPollDeadline_cases now timeoutMs
      · rw [hnone] at hd
        cases hd
      · rw [hwhole] at hd
        cases hd
        have hms := Int.ofNat_le.1 (hle (Int.natCast_nonneg whole))
        exact Nat.add_le_add_left (Nat.mul_le_mul_right 1000000 hms) now

theorem pollKept_iff (hreal : real.Specified) {calls : ℕ} (hcalm : real.Calm calls) {fuel : ℕ}
    (hfuel : calls < fuel) (now : ℕ) {timeoutMs : ℤ} (hint : timeoutMs ≤ intMax) :
    PollKept real pace fuel now fds timeoutMs ↔
      (0 ≤ timeoutMs → now + timeoutMs.toNat * 1000000 < 2 ^ 63) := by
  constructor
  · intro hkept hnonneg
    obtain ⟨ms, rfl⟩ := Int.eq_ofNat_of_zero_le hnonneg
    by_contra hover
    rw [Int.toNat_natCast] at hover
    obtain ⟨reply, at', hreturned, -⟩ := hkept.transparent.returns
    rw [rooTestingPoll, if_pos hnonneg, pollDeadline_of_overflow hover] at hreturned
    cases hreturned
  · exact pollKept_of_fits hreal hcalm hfuel now hint

end PollWaits

section Waits

/-- For real calls that mind their timeouts and are interrupted finitely often, both waits keep
their contract when and only when the sum that gives the deadline is within the clock's type. -/
theorem waits_kept_iff (pace : Pace) {select : RealSelect} {poll : RealPoll}
    (hselect : select.Specified) (hpoll : poll.Specified) {calls : ℕ}
    (hselectCalm : select.Calm calls) (hpollCalm : poll.Calm calls) {fuel : ℕ}
    (hfuel : calls < fuel) (now : ℕ) :
    (∀ setup count sets timeout, (∀ t ∈ timeout, Timeval.Valid t) →
      (SelectKept select pace fuel now setup count sets timeout ↔
        ∀ t ∈ timeout, now + t.nanos < 2 ^ 63)) ∧
    (∀ fds, ∀ timeoutMs : ℤ, timeoutMs ≤ intMax →
      (PollKept poll pace fuel now fds timeoutMs ↔
        (0 ≤ timeoutMs → now + timeoutMs.toNat * 1000000 < 2 ^ 63))) := by
  constructor
  · intro setup count sets timeout hvalid
    exact selectKept_iff hselect hselectCalm hfuel now setup hvalid
  · intro fds timeoutMs hint
    exact pollKept_iff hpoll hpollCalm hfuel now hint

/-- A call that expires at once where it may not wait, and else has its next reply a little later. -/
def prompt {Reply : Type} (expiry : Reply) (replies : ℕ → Reply) : Call Reply :=
  fun n start timeout => if timeout = some 0 then (expiry, start) else (replies n, start + 7)

theorem prompt_specified {Reply : Type} {interrupted expired : Reply → Bool} {unit : ℕ}
    {expiry : Reply} {replies : ℕ → Reply} (hexpiry : expired expiry = true)
    (hfinal : ∀ reply, expired reply → interrupted reply = false)
    (hreplies : ∀ n, expired (replies n) = false) :
    InterruptedWait.Specified interrupted expired unit (prompt expiry replies) := by
  refine ⟨?_, hfinal, ?_, ?_, ?_⟩
  · intro n start timeout
    unfold prompt
    split
    · exact le_rfl
    · exact Nat.le_add_right start 7
  · intro n start
    exact hreplies n
  · intro n start timeout hexpired
    unfold prompt at hexpired ⊢
    split at hexpired
    · rename_i hzero
      rw [if_pos hzero, Option.some.inj hzero, Nat.zero_mul, Nat.add_zero]
    · rw [hreplies] at hexpired
      cases hexpired
  · intro n start timeout longer hle
    by_cases hzero : timeout = 0
    · right
      subst hzero
      refine ⟨hexpiry, ?_⟩
      unfold prompt
      rw [if_pos rfl]
      split
      · exact le_rfl
      · exact Nat.le_add_right start 7
    · left
      unfold prompt
      rw [if_neg (fun h => hzero (Option.some.inj h)), if_neg]
      rintro rfl
      exact hzero (Nat.le_zero.1 (hle 0 rfl))

/-- Interrupted once, and then a descriptor is ready. -/
def promptSelect : RealSelect := fun n start _ sets timeout =>
  prompt (.ready 0 sets.zero) (fun n => if n = 0 then .failed .eintr else .ready 1 sets) n start
    (if timeout = some ⟨0, 0⟩ then some 0 else none)

def promptPoll : RealPoll := fun n start fds timeoutMs =>
  prompt ⟨.ok 0, fds.zero⟩
    (fun n => if n = 0 then ⟨.error .eintr, fds.zero⟩ else ⟨.ok 1, fds.zero⟩) n start
    (if timeoutMs = 0 then some 0 else none)

theorem ofMicros_eq_zero {micros : ℕ} : Timeval.ofMicros micros = ⟨0, 0⟩ ↔ micros = 0 := by
  constructor
  · intro h
    injection h with hsec husec
    omega
  · rintro rfl
    rfl

theorem promptSelect_call (count : ℤ) (sets : FdSets) : promptSelect.call count sets =
    prompt (.ready 0 sets.zero) fun n => if n = 0 then .failed .eintr else .ready 1 sets := by
  funext n start timeout
  cases timeout with
  | none => rfl
  | some micros =>
    by_cases hzero : micros = 0
    · subst hzero
      rfl
    · have htimeout : Timeval.ofMicros micros ≠ ⟨0, 0⟩ := fun h => hzero (ofMicros_eq_zero.1 h)
      rw [RealSelect.call, Option.map_some, promptSelect,
        if_neg (fun h => htimeout (Option.some.inj h)), prompt, prompt, if_neg (by simp),
        if_neg (fun h => hzero (Option.some.inj h))]

theorem promptPoll_call (fds : PollFds) {timeoutMs : ℤ} (hendless : timeoutMs < 0) :
    promptPoll.call fds timeoutMs = prompt ⟨.ok 0, fds.zero⟩
      fun n => if n = 0 then ⟨.error .eintr, fds.zero⟩ else ⟨.ok 1, fds.zero⟩ := by
  funext n start timeout
  cases timeout with
  | none =>
    rw [RealPoll.call, Option.elim_none, promptPoll, if_neg (by omega)]
  | some ms =>
    by_cases hzero : ms = 0
    · subst hzero
      rfl
    · have hms : ¬ Int.ofNat ms = 0 := fun h => hzero (Int.ofNat_eq_zero.1 h)
      rw [RealPoll.call, Option.elim_some, promptPoll, if_neg hms, prompt, prompt, if_neg (by simp),
        if_neg (fun h => hzero (Option.some.inj h))]

theorem promptSelect_specified : promptSelect.Specified := by
  intro count sets
  rw [promptSelect_call]
  apply prompt_specified rfl
  · intro reply hexpired
    cases reply with
    | ready count after => rfl
    | failed errno => cases hexpired
  · intro n
    by_cases hfirst : n = 0
    · rw [if_pos hfirst]
      rfl
    · rw [if_neg hfirst]
      rfl

theorem promptPoll_specified : promptPoll.Specified := by
  intro fds timeoutMs hendless
  rw [promptPoll_call fds hendless]
  apply prompt_specified rfl
  · intro reply hexpired
    obtain ⟨result, revents⟩ := reply
    cases result with
    | ok count => rfl
    | error errno => cases hexpired
  · intro n
    by_cases hfirst : n = 0
    · rw [if_pos hfirst]
      rfl
    · rw [if_neg hfirst]
      rfl

theorem prompt_calm {Reply : Type} {interrupted : Reply → Bool} {expiry : Reply}
    {replies : ℕ → Reply} {calls : ℕ} (hexpiry : interrupted expiry = false)
    (hreplies : ∀ n, calls ≤ n → interrupted (replies n) = false) :
    InterruptedWait.Calm interrupted (prompt expiry replies) calls := by
  intro n hn start timeout
  unfold prompt
  split
  · exact hexpiry
  · exact hreplies n hn

theorem promptSelect_calm : promptSelect.Calm 1 := by
  intro count sets
  rw [promptSelect_call]
  apply prompt_calm rfl
  intro n hn
  rw [if_neg (by omega)]
  rfl

theorem promptPoll_calm : promptPoll.Calm 1 := by
  intro fds timeoutMs n hn start timeout
  rw [RealPoll.call, promptPoll]
  refine prompt_calm rfl ?_ n hn start _
  intro m hm
  rw [if_neg (by omega)]
  rfl

def steadyPace : Pace := ⟨fun _ => 1, fun _ => 1, fun _ => 1⟩

/-- One interruption of a second's wait. -/
theorem waits_kept_second :
    SelectKept promptSelect steadyPace 2 5 0 1 ⟨none, none, none⟩ (some ⟨1, 0⟩) ∧
    PollKept promptPoll steadyPace 2 5 (.array [⟨0, 1⟩]) 1000 :=
  have h := waits_kept_iff steadyPace promptSelect_specified promptPoll_specified
    promptSelect_calm promptPoll_calm (show 1 < 2 by omega) 5
  ⟨(h.1 0 1 ⟨none, none, none⟩ (some ⟨1, 0⟩) (by simp [Timeval.Valid])).2 (by
      intro t ht
      cases ht
      decide),
    (h.2 (.array [⟨0, 1⟩]) 1000 (by decide)).2 (by decide)⟩

/-- A timeout of some hundred billion years has no deadline in the clock's type. -/
theorem long_select_not_kept :
    ¬ SelectKept promptSelect steadyPace 2 0 0 1 ⟨none, none, none⟩ (some ⟨2 ^ 62, 0⟩) := by
  intro h
  obtain ⟨result, now, hreturned, -⟩ := h.transparent.returns
  rw [rooTestingSelect, if_pos (by decide), selectDeadline_of_overflow (by decide) (by decide)]
    at hreturned
  cases hreturned

end Waits
end RooTesting.SocketWaits
