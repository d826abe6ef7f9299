import RooTesting.KernelTicks
import RooTesting.Threads
import Mathlib.Algebra.Group.Int.Defs
import Mathlib.Order.MinMax

/-! # The clock of the idle hook

The ticks of the kernel follow a clock that others may set forward. While no task is ready the idle
hook sets it forward itself, to whatever is to happen first, and steps over the ticks before. Tasks
wait for a time of the clock with a semaphore that the tick interrupt gives. -/
namespace RooTesting.IdleClock
open Transition KernelTicks

def kTickMicros : ℤ := 1000

def int64Max : ℤ := 2 ^ 63 - 1

/-- A wait and the time at which it was entered. -/
structure Wait where
  deadline : ℤ
  since : ℤ
  deriving DecidableEq

/-- Where a task is in `RooFreeRtosWaitUntil`: its record is made, it is about to look at the clock,
to take the semaphore, blocked, or about to remove its record. -/
inductive Stage where
  | out
  | entered (w : Wait)
  | looking (w : Wait)
  | taking (w : Wait)
  | blocked (w : Wait)
  | leaving (w : Wait)
  deriving DecidableEq

/-- A waiter is a task with its deadline. `returned` has the waits that have ended, with the time at
the end. -/
structure State where
  kernel : Kernel
  uptime : ℤ
  tickOrigin : ℤ
  processedTicks : ℕ
  waiters : List (ℕ × ℤ)
  event : ℕ → Bool
  stage : ℕ → Stage
  returned : List (ℕ × Wait × ℤ)

namespace State
variable (s : State)

def setStage (task : ℕ) (stage : Stage) : State :=
  { s with stage := Function.update s.stage task stage }

/-- `xSemaphoreGiveFromISR` for the semaphore of a wait. -/
def give (task : ℕ) : State :=
  if s.event task then s
  else
    let s := { s with event := Function.update s.event task true }
    match s.stage task with
    | .blocked w => { s with kernel := s.kernel.unblock task }.setStage task (.taking w)
    | _ => s

/-- `RooFreeRtosPollWaiters` -/
def pollWaiters : State :=
  s.waiters.foldl (fun s waiter => if waiter.2 ≤ s.uptime then s.give waiter.1 else s) s

/-- The tick interrupt, with `RooFreeRtosElapsedTicks` and its assertion. -/
def tick : Option State :=
  let s := s.pollWaiters
  let expected := ((s.uptime - s.tickOrigin) / kTickMicros).toNat
  if expected < s.processedTicks then none
  else
    let count := min (expected - s.processedTicks) 128
    (s.kernel.incrementTicks count).map fun kernel =>
      { s with
        kernel := kernel
        processedTicks := s.processedTicks + count }

/-- What is to happen first, as the hook sees it. -/
def idleDeadline (alarm : ℤ) : ℤ :=
  let ticks := s.kernel.idleTicks
  let deadline :=
    if ticks ≠ portMaxDelay then
      min alarm (s.tickOrigin + (s.processedTicks + ticks : ℕ) * kTickMicros)
    else alarm
  s.waiters.foldl (fun deadline waiter => min deadline waiter.2) deadline

def available (deadline : ℤ) : ℕ :=
  ((deadline - s.tickOrigin) / kTickMicros).toNat - s.processedTicks

def untilWrap : ℕ := portMaxDelay - s.kernel.tickCount

def skip (deadline : ℤ) : ℕ :=
  let ticks := s.kernel.idleTicks
  min (s.available deadline) (min (if ticks = portMaxDelay then s.untilWrap else ticks - 1)
    (if s.untilWrap = 0 then 0 else s.untilWrap - 1))

/-- `RooFreeRtosIdle` without auto sync; `alarm` is the deadline that it has read before. -/
def idle (alarm : ℤ) : Option State :=
  let deadline := s.idleDeadline alarm
  if deadline = int64Max ∨ deadline ≤ s.uptime then some s
  else
    let skip := s.skip deadline
    (if skip = 0 then some s.kernel else s.kernel.stepTick skip).map fun kernel =>
      let processedTicks := s.processedTicks + skip
      let wrapDeadline := s.tickOrigin + (processedTicks + 1 : ℕ) * kTickMicros
      let deadline :=
        if s.untilWrap ≤ s.available deadline then min deadline wrapDeadline else deadline
      { s with
        kernel := kernel
        processedTicks := processedTicks
        uptime := max s.uptime deadline }

/-- `RooFreeRtosWaitUntil` up to its record. -/
def waitUntil (task : ℕ) (deadline : ℤ) : State :=
  { s with event := Function.update s.event task false }.setStage task
    (.entered ⟨deadline, s.uptime⟩)

/-- The next step of a wait; a task that is blocked takes none. -/
def proceed (task : ℕ) : Option State :=
  match s.stage task with
  | .out => none
  | .entered w =>
    some ({ s with waiters := (task, w.deadline) :: s.waiters }.setStage task (.looking w))
  | .looking w =>
    some (s.setStage task (if s.uptime < w.deadline then .taking w else .leaving w))
  | .taking w =>
    if s.event task then
      some ({ s with event := Function.update s.event task false }.setStage task (.looking w))
    else some (s.setStage task (.blocked w))
  | .blocked _ => none
  | .leaving w =>
    some ({ s with
      waiters := s.waiters.eraseP fun waiter => waiter.1 = task
      returned := s.returned ++ [(task, w, s.uptime)] }.setStage task .out)

/-- A task that is taken out of the event list goes on as `next` says when it runs again. -/
def wake (task : ℕ) (next : Wait → Stage) : State :=
  match s.stage task with
  | .blocked w => s.setStage task (next w)
  | _ => s

end State

inductive Act where
  | delay (task ticks : ℕ)
  | unblock (task : ℕ)
  | notifyFromISR (task : ℕ)
  | abortDelay (task : ℕ)
  | remove (task : ℕ)
  | suspendAll
  | resumeAll
  | advance (us : ℕ)
  | tick
  | idle (alarm : ℤ)
  | waitUntil (task : ℕ) (deadline : ℤ)
  | proceed (task : ℕ)
  | taskDeleted (task : ℕ)

/-- `xTaskAbortDelay` suspends the scheduler first and resumes it after. A semaphore take that is
aborted fails, and one that was cut short is tried again. -/
def step (s : State) : Act → Option State
  | .delay task ticks =>
    if 0 < ticks ∧ ticks < 2 ^ 32 then
      some { s with kernel := s.kernel.addToDelayedList task ticks }
    else none
  | .unblock task => some { s with kernel := s.kernel.unblock task }
  | .notifyFromISR task => some { s with kernel := s.kernel.notifyFromISR task }
  | .abortDelay task =>
    if s.kernel.schedulerSuspended = 0 ∨ task ∈ s.kernel.pendingReadyList then none
    else some ({ s with kernel := s.kernel.take (· == task) }.wake task .looking)
  | .remove task => some ({ s with kernel := s.kernel.remove task }.wake task .taking)
  | .suspendAll => some { s with kernel := s.kernel.suspendAll }
  | .resumeAll => s.kernel.resumeAll.map fun kernel => { s with kernel := kernel }
  | .advance us => some { s with uptime := s.uptime + us }
  | .tick => s.tick
  | .idle alarm => if s.kernel.schedulerSuspended = 0 then s.idle alarm else none
  | .waitUntil task deadline =>
    if s.stage task = .out ∧ deadline ≤ int64Max / 1000 then some (s.waitUntil task deadline)
    else none
  | .proceed task => s.proceed task
  | .taskDeleted task =>
    some ({ s with waiters := s.waiters.filter fun waiter => waiter.1 ≠ task }.setStage task .out)

variable {s s' : State} {task : ℕ}

@[simp] theorem setStage_kernel (stage : Stage) : (s.setStage task stage).kernel = s.kernel := rfl

@[simp] theorem setStage_uptime (stage : Stage) : (s.setStage task stage).uptime = s.uptime := rfl

@[simp] theorem setStage_tickOrigin (stage : Stage) :
    (s.setStage task stage).tickOrigin = s.tickOrigin := rfl

@[simp] theorem setStage_processedTicks (stage : Stage) :
    (s.setStage task stage).processedTicks = s.processedTicks := rfl

/-- The clock, the ticks and the waiters stay, and the kernel at most unblocks tasks. -/
structure Given (s s' : State) : Prop where
  uptime : s'.uptime = s.uptime
  tickOrigin : s'.tickOrigin = s.tickOrigin
  processedTicks : s'.processedTicks = s.processedTicks
  waiters : s'.waiters = s.waiters
  returned : s'.returned = s.returned
  kernel : ∀ Q : Kernel → Prop, (∀ k task, Q k → Q (k.unblock task)) → Q s.kernel → Q s'.kernel

theorem Given.refl (s : State) : Given s s := ⟨rfl, rfl, rfl, rfl, rfl, fun _ _ => id⟩

theorem Given.trans {t : State} (h : Given s s') (h' : Given s' t) : Given s t :=
  ⟨h'.uptime.trans h.uptime, h'.tickOrigin.trans h.tickOrigin,
    h'.processedTicks.trans h.processedTicks, h'.waiters.trans h.waiters,
    h'.returned.trans h.returned, fun Q hkeeps hQ => h'.kernel Q hkeeps (h.kernel Q hkeeps hQ)⟩

theorem give_given (s : State) (task : ℕ) : Given s (s.give task) := by
  unfold State.give
  split_ifs
  · exact Given.refl s
  · dsimp only
    split
    · exact ⟨rfl, rfl, rfl, rfl, rfl, fun Q hkeeps => hkeeps _ _⟩
    · exact ⟨rfl, rfl, rfl, rfl, rfl, fun _ _ => id⟩

/-- What each semaphore that is given keeps, the poll keeps. -/
theorem pollWaiters_induction {P : State → Prop} (h : P s)
    (hgive : ∀ s task, P s → P (s.give task)) : P s.pollWaiters := by
  unfold State.pollWaiters
  generalize s.waiters = waiters
  induction waiters generalizing s with
  | nil => exact h
  | cons waiter waiters ih =>
    rw [List.foldl_cons]
    split_ifs
    · exact ih (hgive s waiter.1 h)
    · exact ih h

theorem pollWaiters_given (s : State) : Given s s.pollWaiters :=
  pollWaiters_induction (Given.refl s) fun _ task h => h.trans (give_given _ task)

@[simp] theorem now_unblock (k : Kernel) (task : ℕ) : (k.unblock task).now = k.now := by
  unfold Kernel.unblock
  split_ifs <;> rfl

@[simp] theorem pendedTicks_unblock (k : Kernel) (task : ℕ) :
    (k.unblock task).pendedTicks = k.pendedTicks := by
  unfold Kernel.unblock
  split_ifs <;> rfl

theorem settled_unblock {k : Kernel} (h : k.Settled) (task : ℕ) : (k.unblock task).Settled := by
  unfold Kernel.unblock
  split_ifs with hzero
  · exact fun _ => h hzero
  · exact fun hzero' => absurd hzero' hzero

/-- All ticks are counted or put by, and the clock has reached each of them. -/
structure Inv (start : ℕ) (s : State) : Prop where
  kernel : KernelTicks.Inv s.kernel
  settled : s.kernel.Settled
  total : (s.kernel.now + s.kernel.pendedTicks) % 2 ^ 32 = (start + s.processedTicks) % 2 ^ 32
  reached : s.tickOrigin + s.processedTicks * kTickMicros ≤ s.uptime

variable {start : ℕ}

/-- Another kernel with as many ticks. -/
theorem Inv.withKernel (h : Inv start s) (hkernel : KernelTicks.Inv s'.kernel)
    (hsettled : s'.kernel.Settled)
    (htotal : (s'.kernel.now + s'.kernel.pendedTicks) % 2 ^ 32 =
      (s.kernel.now + s.kernel.pendedTicks) % 2 ^ 32)
    (hprocessed : s'.processedTicks = s.processedTicks) (horigin : s'.tickOrigin = s.tickOrigin)
    (huptime : s.uptime ≤ s'.uptime) : Inv start s' where
  kernel := hkernel
  settled := hsettled
  total := by rw [htotal, h.total, hprocessed]
  reached := by
    rw [horigin, hprocessed]
    exact h.reached.trans huptime

theorem Inv.given (h : Inv start s) (hgiven : Given s s') : Inv start s' := by
  have hkernel := hgiven.kernel
    (fun k => KernelTicks.Inv k ∧ k.Settled ∧ k.now = s.kernel.now ∧
      k.pendedTicks = s.kernel.pendedTicks)
    (fun k task hk => ⟨hk.1.unblock task, settled_unblock hk.2.1 task,
      (now_unblock k task).trans hk.2.2.1, (pendedTicks_unblock k task).trans hk.2.2.2⟩)
    ⟨h.kernel, h.settled, rfl, rfl⟩
  obtain ⟨hinv, hsettled, hnow, hpended⟩ := hkernel
  exact h.withKernel hinv hsettled (by rw [hnow, hpended]) hgiven.processedTicks hgiven.tickOrigin
    hgiven.uptime.ge

/-- The assertion holds, and the ticks never overtake the clock. -/
theorem tick_spec (h : Inv start s) :
    ∃ s', s.tick = some s' ∧ Inv start s' ∧ s'.uptime = s.uptime ∧
      (s.kernel.Fresh → s'.kernel.Fresh) := by
  have hgiven := pollWaiters_given s
  have hpolled := h.given hgiven
  unfold State.tick
  generalize s.pollWaiters = t at hgiven hpolled
  have hreached := hpolled.reached
  have hmicros : kTickMicros = 1000 := rfl
  generalize hexpected : ((t.uptime - t.tickOrigin) / kTickMicros).toNat = expected
  rw [hmicros] at hreached hexpected
  dsimp only
  rw [hmicros, hexpected]
  rw [if_neg (by omega)]
  generalize hcount : min (expected - t.processedTicks) 128 = count
  obtain ⟨kernel, hkernel, hinv, hticked, hfresh⟩ := incrementTicks_spec hpolled.kernel count
  rw [hkernel, Option.map_some]
  refine ⟨_, rfl, ⟨hinv, ?_, ?_, ?_⟩, hgiven.uptime, fun hs =>
    hfresh (hgiven.kernel _ (fun _ task hk => fresh_unblock hk task) hs)⟩
  · intro hzero
    obtain ⟨hpended, hready⟩ := hpolled.settled (hticked.schedulerSuspended.symm.trans hzero)
    exact ⟨(hticked.counted (hticked.schedulerSuspended.symm.trans hzero)).2.trans hpended,
      hticked.pendingReadyList.trans hready⟩
  · have htotal := hticked.total
    have hbefore := hpolled.total
    dsimp only
    omega
  · rw [hmicros]
    push_cast
    omega

/-- When the sleep ends, while no tick is put by. -/
def State.wakeTime (s : State) (i : Item) : ℤ :=
  s.tickOrigin + (s.processedTicks + (i.due - s.kernel.now) : ℕ) * kTickMicros

/-- The last tick before the count wraps, or the wrap if that is next. -/
def State.boundary (s : State) : ℤ :=
  s.tickOrigin + (s.processedTicks + max 1 s.untilWrap : ℕ) * kTickMicros

theorem foldl_min_cases (waiters : List (ℕ × ℤ)) (deadline : ℤ) :
    waiters.foldl (fun deadline waiter => min deadline waiter.2) deadline ≤ deadline ∧
      (∀ w ∈ waiters, waiters.foldl (fun deadline waiter => min deadline waiter.2) deadline ≤ w.2) ∧
      (waiters.foldl (fun deadline waiter => min deadline waiter.2) deadline = deadline ∨
        ∃ w ∈ waiters,
          waiters.foldl (fun deadline waiter => min deadline waiter.2) deadline = w.2) := by
  induction waiters generalizing deadline with
  | nil => exact ⟨le_refl _, fun _ hw => (List.not_mem_nil hw).elim, Or.inl rfl⟩
  | cons waiter waiters ih =>
    rw [List.foldl_cons]
    obtain ⟨hle, hall, hcases⟩ := ih (min deadline waiter.2)
    refine ⟨hle.trans (min_le_left _ _), fun w hw => ?_, ?_⟩
    · rcases List.mem_cons.mp hw with rfl | hw
      · exact hle.trans (min_le_right _ _)
      · exact hall w hw
    · rcases hcases with heq | ⟨w, hw, heq⟩
      · rcases min_choice deadline waiter.2 with hmin | hmin
        · exact Or.inl (heq.trans hmin)
        · exact Or.inr ⟨waiter, List.mem_cons_self, heq.trans hmin⟩
      · exact Or.inr ⟨w, List.mem_cons_of_mem _ hw, heq⟩

/-- The hook looks no further than the sleeps that end before the count wraps, and sees nothing
else than what there is. -/
theorem idleDeadline_spec (h : Inv start s) (alarm : ℤ) :
    s.idleDeadline alarm ≤ alarm ∧ (∀ w ∈ s.waiters, s.idleDeadline alarm ≤ w.2) ∧
      (s.kernel.idleTicks ≠ portMaxDelay → s.idleDeadline alarm ≤
        s.tickOrigin + (s.processedTicks + s.kernel.idleTicks : ℕ) * kTickMicros) ∧
      (s.idleDeadline alarm = alarm ∨ (∃ w ∈ s.waiters, s.idleDeadline alarm = w.2) ∨
        (s.kernel.Fresh → ∃ i ∈ s.kernel.delayedTaskList ++ s.kernel.overflowDelayedTaskList,
          s.idleDeadline alarm = s.wakeTime i)) := by
  unfold State.idleDeadline
  dsimp only
  generalize hfirst : (if s.kernel.idleTicks ≠ portMaxDelay then
    min alarm (s.tickOrigin + (s.processedTicks + s.kernel.idleTicks : ℕ) * kTickMicros)
    else alarm) = first
  obtain ⟨hle, hall, hcases⟩ := foldl_min_cases s.waiters first
  have halarm : first ≤ alarm := by
    rw [← hfirst]
    split_ifs
    · exact min_le_left _ _
    · exact le_refl _
  refine ⟨hle.trans halarm, hall, fun hticks => ?_, ?_⟩
  · rw [if_pos hticks] at hfirst
    exact hle.trans (hfirst ▸ min_le_right _ _)
  rcases hcases with heq | hwaiter
  · rw [heq]
    by_cases hticks : s.kernel.idleTicks ≠ portMaxDelay
    · rw [if_pos hticks] at hfirst
      rcases min_choice alarm
        (s.tickOrigin + (s.processedTicks + s.kernel.idleTicks : ℕ) * kTickMicros) with
        hmin | hmin
      · exact Or.inl (hfirst.symm.trans hmin)
      · refine Or.inr (Or.inr fun hfresh => ?_)
        rw [← hfirst, hmin]
        rcases idleTicks_cases h.kernel with ⟨hdelayed, hidle, hgt⟩ |
          ⟨hnil, i, hi, hidle, -, -⟩ | ⟨-, -, hidle⟩
        · obtain ⟨i, hi, hvalue⟩ : ∃ i ∈ s.kernel.delayedTaskList,
              unblockTime s.kernel.delayedTaskList = i.value := by
            cases hlist : s.kernel.delayedTaskList with
            | nil => exact absurd hlist hdelayed
            | cons i _ => exact ⟨i, List.mem_cons_self, rfl⟩
          refine ⟨i, List.mem_append_left _ hi, ?_⟩
          have htick := h.kernel.tickCount
          obtain ⟨hdue, hi, hround⟩ := h.kernel.delayed i hi
          have hsleep : i.due - s.kernel.now = s.kernel.idleTicks := by
            rw [hidle, hfresh, hvalue]
            omega
          rw [State.wakeTime, hsleep]
        · refine ⟨i, List.mem_append_right _ hi, ?_⟩
          rw [State.wakeTime, hidle]
        · exact absurd hidle hticks
    · rw [if_neg hticks] at hfirst
      exact Or.inl hfirst.symm
  · exact Or.inr (Or.inl hwaiter)

/-- No sleep ends before the hook stops. -/
theorem idleDeadline_le_wakeTime (h : Inv start s) (alarm : ℤ) {i : Item}
    (hi : i ∈ s.kernel.delayedTaskList ++ s.kernel.overflowDelayedTaskList) :
    min (s.idleDeadline alarm) s.boundary ≤ s.wakeTime i := by
  obtain ⟨-, -, hticks, -⟩ := idleDeadline_spec h alarm
  have htick := h.kernel.tickCount
  rw [State.boundary, State.wakeTime, State.untilWrap, portMaxDelay]
  rw [portMaxDelay] at hticks
  simp only [kTickMicros] at hticks ⊢
  rcases List.mem_append.mp hi with hi | hi
  · obtain ⟨hdue, hvalue, hround⟩ := h.kernel.delayed i hi
    have hle := h.kernel.unblock_le i hi
    rcases idleTicks_cases h.kernel with ⟨-, hidle, hgt⟩ | ⟨hnil, -⟩ | ⟨hnil, -⟩
    · by_cases hmax : s.kernel.idleTicks = 2 ^ 32 - 1
      · push_cast
        omega
      · have hbefore := hticks hmax
        push_cast at hbefore ⊢
        omega
    · rw [hnil] at hi
      exact (List.not_mem_nil hi).elim
    · rw [hnil] at hi
      exact (List.not_mem_nil hi).elim
  · obtain ⟨hdue, hvalue, hround⟩ := h.kernel.overflow i hi
    push_cast
    omega

theorem skip_eq (s : State) (deadline : ℤ) : s.skip deadline =
    if s.kernel.idleTicks = portMaxDelay then min (s.available deadline) (s.untilWrap - 1)
    else min (s.available deadline) (min (s.kernel.idleTicks - 1) (s.untilWrap - 1)) := by
  unfold State.skip
  dsimp only
  split_ifs <;> omega

/-- The steps of the hook stay short of the wrap, and of the next time to unblock unless that is
out of date. -/
theorem tickCount_add_skip (h : Inv start s) (deadline : ℤ) :
    s.skip deadline = 0 ∨ s.kernel.tickCount + s.skip deadline < s.kernel.nextTaskUnblockTime ∨
      s.kernel.delayedTaskList = [] ∧ s.kernel.nextTaskUnblockTime ≠ portMaxDelay := by
  have hskip := skip_eq s deadline
  have htick := h.kernel.tickCount
  have hmax := h.kernel.unblock_max
  have huntil : s.untilWrap = portMaxDelay - s.kernel.tickCount := rfl
  have hmaxDelay : portMaxDelay = 2 ^ 32 - 1 := rfl
  rcases idleTicks_cases h.kernel with ⟨-, hidle, hgt⟩ | ⟨hnil, -⟩ | ⟨hnil, -⟩
  · split_ifs at hskip <;> omega
  all_goals
    by_cases hstale : s.kernel.nextTaskUnblockTime = portMaxDelay
    · split_ifs at hskip <;> omega
    · exact Or.inr (Or.inr ⟨hnil, hstale⟩)

/-- Where the count wraps on the way, the hook stops at the boundary. -/
theorem stop_eq {deadline : ℤ} (hticks : s.kernel.idleTicks ≠ portMaxDelay →
      deadline ≤ s.tickOrigin + (s.processedTicks + s.kernel.idleTicks : ℕ) * kTickMicros)
    (hlt : s.uptime < deadline)
    (hreached : s.tickOrigin + s.processedTicks * kTickMicros ≤ s.uptime) :
    (if s.untilWrap ≤ s.available deadline then
      min deadline (s.tickOrigin + (s.processedTicks + s.skip deadline + 1 : ℕ) * kTickMicros)
      else deadline) = min deadline s.boundary := by
  have hskip := skip_eq s deadline
  have havailable : s.available deadline =
      ((deadline - s.tickOrigin) / kTickMicros).toNat - s.processedTicks := rfl
  have hmicros : kTickMicros = 1000 := rfl
  rw [State.boundary]
  rw [hmicros] at hticks hreached havailable ⊢
  split_ifs with hwraps
  · have hnext : s.processedTicks + s.skip deadline + 1 =
        s.processedTicks + max 1 s.untilWrap := by
      split_ifs at hskip with hsentinel
      · omega
      · have hbefore := hticks hsentinel
        push_cast at hbefore
        omega
    rw [hnext]
  · rw [min_eq_left]
    push_cast
    omega

/-- The hook fails only where the next time to unblock is out of date. Else it sets the clock
forward to what is to happen first, or to the last tick before the wrap, and counts ticks that end
no sleep. -/
theorem idle_spec (h : Inv start s) (hsuspended : s.kernel.schedulerSuspended = 0) (alarm : ℤ) :
    (s.idle alarm = none ∧ s.kernel.delayedTaskList = [] ∧
      s.kernel.nextTaskUnblockTime ≠ portMaxDelay) ∨
    ∃ n, s.idle alarm = some { s with
        kernel := { s.kernel with
          tickCount := s.kernel.tickCount + n
          now := s.kernel.now + n }
        processedTicks := s.processedTicks + n
        uptime := if s.idleDeadline alarm = int64Max then s.uptime
          else max s.uptime (min (s.idleDeadline alarm) s.boundary) } ∧
      KernelTicks.Inv { s.kernel with
        tickCount := s.kernel.tickCount + n
        now := s.kernel.now + n } ∧
      s.tickOrigin + (s.processedTicks + n : ℕ) * kTickMicros ≤
        if s.idleDeadline alarm = int64Max then s.uptime
        else max s.uptime (min (s.idleDeadline alarm) s.boundary) := by
  have hreached := h.reached
  unfold State.idle
  dsimp only
  obtain ⟨-, -, hticks, -⟩ := idleDeadline_spec h alarm
  generalize s.idleDeadline alarm = deadline at hticks
  by_cases hnone : deadline = int64Max ∨ deadline ≤ s.uptime
  · rw [if_pos hnone]
    right
    have huptime : (if deadline = int64Max then s.uptime
        else max s.uptime (min deadline s.boundary)) = s.uptime := by
      split_ifs with hmax
      · rfl
      · exact max_eq_left ((min_le_left _ _).trans (hnone.resolve_left hmax))
    rw [huptime]
    exact ⟨0, rfl, h.kernel, by simpa using hreached⟩
  rw [if_neg hnone]
  obtain ⟨hmax, hlt⟩ := not_or.mp hnone
  rw [if_neg hmax, stop_eq hticks (by omega) hreached]
  have hskip := skip_eq s deadline
  have hbefore : s.tickOrigin + (s.processedTicks + s.skip deadline : ℕ) * kTickMicros ≤
      max s.uptime (min deadline s.boundary) := by
    have havailable : s.available deadline =
        ((deadline - s.tickOrigin) / kTickMicros).toNat - s.processedTicks := rfl
    have hmicros : kTickMicros = 1000 := rfl
    rw [State.boundary]
    rw [hmicros] at hreached havailable ⊢
    push_cast
    split_ifs at hskip <;> omega
  by_cases hzero : s.skip deadline = 0
  · rw [if_pos hzero, Option.map_some]
    rw [hzero] at hbefore ⊢
    exact Or.inr ⟨0, rfl, h.kernel, hbefore⟩
  rw [if_neg hzero]
  rcases tickCount_add_skip h deadline with hzero' | hshort | hstale
  · exact absurd hzero' hzero
  · obtain ⟨hstep, hinv⟩ := stepTick_of_lt h.kernel hshort
    rw [hstep, Option.map_some]
    exact Or.inr ⟨s.skip deadline, rfl, hinv, hbefore⟩
  · by_cases hshort : s.kernel.tickCount + s.skip deadline < s.kernel.nextTaskUnblockTime
    · obtain ⟨hstep, hinv⟩ := stepTick_of_lt h.kernel hshort
      rw [hstep, Option.map_some]
      exact Or.inr ⟨s.skip deadline, rfl, hinv, hbefore⟩
    · have hmod : (s.kernel.tickCount + s.skip deadline) % 2 ^ 32 =
          s.kernel.tickCount + s.skip deadline := by
        have htick := h.kernel.tickCount
        have huntil : s.untilWrap = 2 ^ 32 - 1 - s.kernel.tickCount := rfl
        refine Nat.mod_eq_of_lt ?_
        split_ifs at hskip <;> omega
      rw [stepTick_of_le hsuspended (by omega), Option.map_none]
      exact Or.inl ⟨rfl, hstale⟩

theorem wake_given (s : State) (task : ℕ) (next : Wait → Stage) : Given s (s.wake task next) := by
  unfold State.wake
  split
  · exact ⟨rfl, rfl, rfl, rfl, rfl, fun _ _ => id⟩
  · exact Given.refl s

theorem wake_kernel (s : State) (task : ℕ) (next : Wait → Stage) :
    (s.wake task next).kernel = s.kernel := by
  unfold State.wake
  split <;> rfl

theorem settled_congr {k k' : Kernel} (h : k.Settled)
    (hsuspended : k'.schedulerSuspended = k.schedulerSuspended)
    (hpended : k'.pendedTicks = k.pendedTicks)
    (hready : k.pendingReadyList = [] → k'.pendingReadyList = []) : k'.Settled := by
  intro hzero
  obtain ⟨hnone, hnil⟩ := h (hsuspended.symm.trans hzero)
  exact ⟨hpended.trans hnone, hready hnil⟩

theorem proceed_ticks {s s' : State} (h : s.proceed task = some s') :
    s'.kernel = s.kernel ∧ s'.uptime = s.uptime ∧ s'.tickOrigin = s.tickOrigin ∧
      s'.processedTicks = s.processedTicks := by
  unfold State.proceed at h
  split at h
  · cases h
  · obtain rfl := Option.some.inj h
    exact ⟨rfl, rfl, rfl, rfl⟩
  · obtain rfl := Option.some.inj h
    exact ⟨rfl, rfl, rfl, rfl⟩
  · split_ifs at h <;> obtain rfl := Option.some.inj h <;> exact ⟨rfl, rfl, rfl, rfl⟩
  · cases h
  · obtain rfl := Option.some.inj h
    exact ⟨rfl, rfl, rfl, rfl⟩

theorem step_inv (start : ℕ) : Preserves step (Inv start) := by
  intro s a s' h hs
  have hsame : ∀ {t : State}, t.kernel = s.kernel → t.processedTicks = s.processedTicks →
      t.tickOrigin = s.tickOrigin → s.uptime ≤ t.uptime → Inv start t :=
    fun hkernel hprocessed horigin huptime => hs.withKernel (hkernel ▸ hs.kernel)
      (hkernel ▸ hs.settled) (by rw [hkernel]) hprocessed horigin huptime
  cases a with
  | delay task ticks =>
    simp only [step] at h
    split_ifs at h with hticks
    obtain rfl := Option.some.inj h
    have hcounts : (s.kernel.addToDelayedList task ticks).schedulerSuspended =
          s.kernel.schedulerSuspended ∧
        (s.kernel.addToDelayedList task ticks).pendedTicks = s.kernel.pendedTicks ∧
        (s.kernel.addToDelayedList task ticks).pendingReadyList = s.kernel.pendingReadyList ∧
        (s.kernel.addToDelayedList task ticks).now = s.kernel.now := by
      unfold Kernel.addToDelayedList
      dsimp only
      split_ifs <;> exact ⟨rfl, rfl, rfl, rfl⟩
    obtain ⟨hsuspended, hpended, hready, hnow⟩ := hcounts
    exact hs.withKernel (addToDelayedList_spec hs.kernel task hticks.1 hticks.2).1
      (settled_congr hs.settled hsuspended hpended hready.trans) (by rw [hnow, hpended]) rfl rfl
      (le_refl _)
  | unblock task =>
    obtain rfl := Option.some.inj h
    exact hs.withKernel (hs.kernel.unblock task) (settled_unblock hs.settled task)
      (by rw [now_unblock, pendedTicks_unblock]) rfl rfl (le_refl _)
  | notifyFromISR task =>
    obtain rfl := Option.some.inj h
    refine hs.withKernel (hs.kernel.notifyFromISR task) ?_ ?_ rfl rfl (le_refl _)
    · unfold Kernel.notifyFromISR
      split_ifs with hzero
      · exact fun _ => hs.settled hzero
      · exact fun hzero' => absurd hzero' hzero
    · unfold Kernel.notifyFromISR
      split_ifs <;> rfl
  | abortDelay task =>
    simp only [step] at h
    split_ifs at h
    obtain rfl := Option.some.inj h
    have hkernel : Inv start { s with kernel := s.kernel.take (· == task) } :=
      hs.withKernel (hs.kernel.take (· == task)) hs.settled rfl rfl rfl (le_refl _)
    exact hkernel.given (wake_given _ _ _)
  | remove task =>
    obtain rfl := Option.some.inj h
    have hnone : s.kernel.pendingReadyList = [] →
        s.kernel.pendingReadyList.filter (· != task) = [] := fun hnil => by
      rw [hnil]
      rfl
    have hkernel : Inv start { s with kernel := s.kernel.remove task } :=
      hs.withKernel (hs.kernel.remove task) (settled_congr hs.settled rfl rfl hnone) rfl rfl rfl
        (le_refl _)
    exact hkernel.given (wake_given _ _ _)
  | suspendAll =>
    obtain rfl := Option.some.inj h
    exact hs.withKernel ⟨⟨hs.kernel.tickCount, hs.kernel.sorted, hs.kernel.sorted_overflow,
      hs.kernel.delayed, hs.kernel.overflow, hs.kernel.unblock_le, hs.kernel.unblock_max,
      hs.kernel.expired⟩, hs.kernel.unblock_gt⟩ (fun hzero => absurd hzero (Nat.succ_ne_zero _))
      rfl rfl rfl (le_refl _)
  | resumeAll =>
    obtain ⟨kernel, hkernel, rfl⟩ := Option.map_eq_some_iff.mp h
    have hsuspended : s.kernel.schedulerSuspended ≠ 0 := by
      intro hzero
      rw [Kernel.resumeAll, if_pos hzero] at hkernel
      cases hkernel
    obtain ⟨k', hk', hinv, hsettled, htotal, -⟩ := resumeAll_spec hs.kernel hsuspended
    obtain rfl := Option.some.inj (hk'.symm.trans hkernel)
    exact hs.withKernel hinv hsettled htotal rfl rfl (le_refl _)
  | advance us =>
    obtain rfl := Option.some.inj h
    exact hsame rfl rfl rfl (by dsimp only; omega)
  | tick =>
    obtain ⟨t, ht, hinv, -⟩ := tick_spec hs
    obtain rfl := Option.some.inj (ht.symm.trans h)
    exact hinv
  | idle alarm =>
    simp only [step] at h
    split_ifs at h with hzero
    rcases idle_spec hs hzero alarm with ⟨hnone, -⟩ | ⟨n, hsome, hinv, hreached⟩
    · rw [hnone] at h
      cases h
    · obtain rfl := Option.some.inj (hsome.symm.trans h)
      obtain ⟨hpended, hready⟩ := hs.settled hzero
      refine ⟨hinv, fun _ => ⟨hpended, hready⟩, ?_, hreached⟩
      have htotal := hs.total
      dsimp only
      omega
  | waitUntil task deadline =>
    simp only [step] at h
    split_ifs at h
    obtain rfl := Option.some.inj h
    exact hsame rfl rfl rfl (le_refl _)
  | proceed task =>
    obtain ⟨hkernel, huptime, horigin, hprocessed⟩ := proceed_ticks h
    exact hsame hkernel hprocessed horigin huptime.ge
  | taskDeleted task =>
    obtain rfl := Option.some.inj h
    exact hsame rfl rfl rfl (le_refl _)

/-- The calls that do not leave the next time to unblock out of date. -/
def Act.UpdatesUnblockTime : Act → Prop
  | .notifyFromISR _ | .abortDelay _ => False
  | _ => True

theorem step_fresh : PreservesWhen step (fun _ a => a.UpdatesUnblockTime)
    fun s => Inv start s ∧ s.kernel.Fresh := by
  rintro s a s' ha h ⟨hs, hfresh⟩
  refine ⟨step_inv start h hs, ?_⟩
  cases a with
  | delay task ticks =>
    simp only [step] at h
    split_ifs at h with hticks
    obtain rfl := Option.some.inj h
    exact (addToDelayedList_spec hs.kernel task hticks.1 hticks.2).2 hfresh
  | unblock task =>
    obtain rfl := Option.some.inj h
    exact fresh_unblock hfresh task
  | notifyFromISR task => exact ha.elim
  | abortDelay task => exact ha.elim
  | remove task =>
    obtain rfl := Option.some.inj h
    rw [wake_kernel]
    exact fresh_reset _
  | suspendAll =>
    obtain rfl := Option.some.inj h
    exact hfresh
  | resumeAll =>
    obtain ⟨kernel, hkernel, rfl⟩ := Option.map_eq_some_iff.mp h
    have hsuspended : s.kernel.schedulerSuspended ≠ 0 := by
      intro hzero
      rw [Kernel.resumeAll, if_pos hzero] at hkernel
      cases hkernel
    obtain ⟨k', hk', -, -, -, hkept⟩ := resumeAll_spec hs.kernel hsuspended
    obtain rfl := Option.some.inj (hk'.symm.trans hkernel)
    exact hkept hfresh
  | advance us =>
    obtain rfl := Option.some.inj h
    exact hfresh
  | tick =>
    obtain ⟨t, ht, -, -, hkept⟩ := tick_spec hs
    obtain rfl := Option.some.inj (ht.symm.trans h)
    exact hkept hfresh
  | idle alarm =>
    simp only [step] at h
    split_ifs at h with hzero
    rcases idle_spec hs hzero alarm with ⟨hnone, -⟩ | ⟨n, hsome, -⟩
    · rw [hnone] at h
      cases h
    · obtain rfl := Option.some.inj (hsome.symm.trans h)
      exact hfresh
  | waitUntil task deadline =>
    simp only [step] at h
    split_ifs at h
    obtain rfl := Option.some.inj h
    exact hfresh
  | proceed task =>
    rw [(proceed_ticks h).1]
    exact hfresh
  | taskDeleted task =>
    obtain rfl := Option.some.inj h
    exact hfresh

/-- The scheduler has started at some tick: nobody sleeps or waits. -/
structure Started (s : State) : Prop where
  tickCount : s.kernel.tickCount = s.kernel.now % 2 ^ 32
  delayed : s.kernel.delayedTaskList = []
  overflow : s.kernel.overflowDelayedTaskList = []
  nextTaskUnblockTime : s.kernel.nextTaskUnblockTime = portMaxDelay
  pendedTicks : s.kernel.pendedTicks = 0
  pendingReadyList : s.kernel.pendingReadyList = []
  expired : s.kernel.expired = []
  processedTicks : s.processedTicks = 0
  uptime : s.uptime = s.tickOrigin
  waiters : s.waiters = []
  stage : ∀ task, s.stage task = .out
  returned : s.returned = []

theorem Started.inv (h : Started s) : Inv s.kernel.now s ∧ s.kernel.Fresh := by
  refine ⟨⟨⟨⟨h.tickCount, ?_, ?_, ?_, ?_, ?_, h.nextTaskUnblockTime.le, ?_⟩,
    Or.inr h.nextTaskUnblockTime⟩, fun _ => ⟨h.pendedTicks, h.pendingReadyList⟩, ?_, ?_⟩, ?_⟩
  · rw [h.delayed]
    exact List.Pairwise.nil
  · rw [h.overflow]
    exact List.Pairwise.nil
  · rw [h.delayed]
    exact fun i hi => (List.not_mem_nil hi).elim
  · rw [h.overflow]
    exact fun i hi => (List.not_mem_nil hi).elim
  · rw [h.delayed]
    exact fun i hi => (List.not_mem_nil hi).elim
  · rw [h.expired]
    exact fun p hp => (List.not_mem_nil hp).elim
  · rw [h.pendedTicks, h.processedTicks]
  · rw [h.processedTicks, h.uptime]
    simp
  · rw [Kernel.Fresh, h.delayed, h.nextTaskUnblockTime]
    rfl

/-- The hook sets the clock forward to the first of its alarm, the deadlines of the waiters and the
ends of the sleeps, or to the boundary, and the ticks that it counts end no sleep. -/
def IdleStep (s : State) (alarm : ℤ) (s' : State) : Prop :=
  ∃ deadline, deadline ≤ alarm ∧ (∀ w ∈ s.waiters, deadline ≤ w.2) ∧
    (∀ i ∈ s.kernel.delayedTaskList ++ s.kernel.overflowDelayedTaskList,
      min deadline s.boundary ≤ s.wakeTime i) ∧
    (deadline = alarm ∨ (∃ w ∈ s.waiters, deadline = w.2) ∨ (s.kernel.Fresh →
      ∃ i ∈ s.kernel.delayedTaskList ++ s.kernel.overflowDelayedTaskList,
        deadline = s.wakeTime i)) ∧
    ∃ n, s' = { s with
      kernel := { s.kernel with
        tickCount := s.kernel.tickCount + n
        now := s.kernel.now + n }
      processedTicks := s.processedTicks + n
      uptime := if deadline = int64Max then s.uptime else max s.uptime (min deadline s.boundary) }

theorem idle_idleStep (h : Inv start s) {alarm : ℤ} (hstep : step s (.idle alarm) = some s') :
    IdleStep s alarm s' := by
  simp only [step] at hstep
  split_ifs at hstep with hzero
  obtain ⟨halarm, hwaiters, -, hcases⟩ := idleDeadline_spec h alarm
  refine ⟨s.idleDeadline alarm, halarm, hwaiters, fun i hi => idleDeadline_le_wakeTime h alarm hi,
    hcases, ?_⟩
  rcases idle_spec h hzero alarm with ⟨hnone, -⟩ | ⟨n, hsome, -⟩
  · rw [hnone] at hstep
    cases hstep
  · exact ⟨n, Option.some.inj (hstep.symm.trans hsome)⟩

/-- In every run: each tick that the clock has reached and that was processed is counted or put by,
and the clock is never behind. A sleep ends at the tick that it was to end at, and none is slept
through. The assertions of the ticks hold, and those of the idle hook where the next time to unblock
is up to date. The hook sets the clock forward to the first thing to happen. -/
theorem ticks_kept {s₀ : State} {acts : List Act} (h₀ : Started s₀)
    (hr : run step s₀ acts = some s) :
    (s.kernel.tickCount + s.kernel.pendedTicks) % 2 ^ 32 =
      (s₀.kernel.now + s.processedTicks) % 2 ^ 32 ∧
    s.tickOrigin + s.processedTicks * kTickMicros ≤ s.uptime ∧
    (∀ p ∈ s.kernel.expired, p.1.due = p.2) ∧
    (∀ i ∈ s.kernel.delayedTaskList ++ s.kernel.overflowDelayedTaskList, s.kernel.now < i.due) ∧
    (∃ s', step s .tick = some s') ∧
    (s.kernel.schedulerSuspended ≠ 0 → ∃ s', step s .resumeAll = some s') ∧
    (∀ alarm, s.kernel.schedulerSuspended = 0 →
      (step s (.idle alarm) = none → s.kernel.delayedTaskList = [] ∧
        s.kernel.nextTaskUnblockTime ≠ portMaxDelay) ∧
      ((∀ a ∈ acts, a.UpdatesUnblockTime) → ∃ s', step s (.idle alarm) = some s')) ∧
    ∀ alarm s', step s (.idle alarm) = some s' → IdleStep s alarm s' := by
  obtain ⟨hinv₀, hfresh₀⟩ := h₀.inv
  have hs : Inv s₀.kernel.now s := (step_inv _).run hr hinv₀
  have hfails : ∀ alarm, s.kernel.schedulerSuspended = 0 → step s (.idle alarm) = none →
      s.kernel.delayedTaskList = [] ∧ s.kernel.nextTaskUnblockTime ≠ portMaxDelay := by
    intro alarm hzero hnone
    simp only [step, if_pos hzero] at hnone
    rcases idle_spec hs hzero alarm with ⟨-, hstale⟩ | ⟨n, hsome, -⟩
    · exact hstale
    · rw [hsome] at hnone
      cases hnone
  refine ⟨?_, hs.reached, hs.kernel.expired, fun i hi => ?_, ?_, fun hsuspended => ?_,
    fun alarm hzero => ⟨hfails alarm hzero, fun hacts => ?_⟩,
    fun alarm s' hstep => idle_idleStep hs hstep⟩
  · have htotal := hs.total
    have htick := hs.kernel.tickCount
    omega
  · rcases List.mem_append.mp hi with hi | hi
    · exact (hs.kernel.delayed i hi).1
    · obtain ⟨-, -, hround⟩ := hs.kernel.overflow i hi
      omega
  · obtain ⟨t, ht, -⟩ := tick_spec hs
    exact ⟨t, ht⟩
  · obtain ⟨k', hk', -⟩ := resumeAll_spec hs.kernel hsuspended
    exact ⟨_, by rw [step, hk', Option.map_some]⟩
  · have hfresh : s.kernel.Fresh :=
      (step_fresh.run (Meets.of_forall hacts) hr ⟨hinv₀, hfresh₀⟩).2
    refine Option.ne_none_iff_exists'.mp fun hnone => ?_
    obtain ⟨hnil, hstale⟩ := hfails alarm hzero hnone
    rw [Kernel.Fresh, hnil] at hfresh
    exact hstale hfresh

/-- The scheduler starts three ticks before the count wraps. -/
def started : State where
  kernel := ⟨2 ^ 32 - 3, [], [], portMaxDelay, 0, 0, [], 2 ^ 32 - 3, []⟩
  uptime := 0
  tickOrigin := 0
  processedTicks := 0
  waiters := []
  event := fun _ => false
  stage := fun _ => .out
  returned := []

theorem started_started : Started started :=
  ⟨rfl, rfl, rfl, rfl, rfl, rfl, rfl, rfl, rfl, rfl, fun _ => rfl, rfl⟩

/-- A task sleeps across the wrap, and the delay of another is aborted. -/
def aborted : List Act :=
  [.delay 1 5, .idle 900000, .tick, .idle 900000, .tick, .idle 900000, .tick, .delay 2 10,
    .suspendAll, .abortDelay 2, .resumeAll]

/-- The first has slept five ticks to the microsecond. With the next time to unblock out of date, the
hook fails. -/
theorem ticks_kept_aborted :
    ∃ s, run step started aborted = some s ∧ s.uptime = 5000 ∧
      s.kernel.expired.map (fun p => (p.1.task, p.2)) = [(1, 2 ^ 32 + 2)] ∧
      step s (.idle 900000) = none ∧ s.kernel.nextTaskUnblockTime ≠ portMaxDelay := by
  have hrun : run step started aborted = some ((run step started aborted).get (by decide)) :=
    (Option.some_get _).symm
  have hnone : step ((run step started aborted).get (by decide)) (.idle 900000) = none := by decide
  obtain ⟨-, -, -, -, -, -, hidle, -⟩ := ticks_kept started_started hrun
  exact ⟨_, hrun, by decide, by decide, hnone, ((hidle 900000 (by decide)).1 hnone).2⟩

end RooTesting.IdleClock
