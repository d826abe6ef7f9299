import RooTesting.Transition
import Mathlib.Algebra.Group.Nat.Defs
import Mathlib.Data.List.TakeWhile
import Mathlib.Order.Lattice

/-! # Ticks of the kernel

The tick count has 32 bits. A task that sleeps is in one list if it wakes before the count wraps,
and in another if it wakes after; the lists change places at the wrap. While the scheduler is
suspended ticks are put by. -/
namespace RooTesting.KernelTicks

def portMaxDelay : ℕ := 2 ^ 32 - 1

/-- A task that sleeps and the `xItemValue` that ends its sleep. `due` is the same tick, counted
without a bound. -/
structure Item where
  task : ℕ
  value : ℕ
  due : ℕ
  deriving DecidableEq

/-- `now` is the tick count without a bound, and `expired` has the sleeps that a tick has ended,
with the count then. -/
structure Kernel where
  tickCount : ℕ
  delayedTaskList : List Item
  overflowDelayedTaskList : List Item
  nextTaskUnblockTime : ℕ
  schedulerSuspended : ℕ
  pendedTicks : ℕ
  pendingReadyList : List ℕ
  now : ℕ
  expired : List (Item × ℕ)
  deriving DecidableEq

/-- Items of one value stay in the order in which they came. -/
def vListInsert (item : Item) (list : List Item) : List Item :=
  list.takeWhile (fun i => i.value ≤ item.value) ++
    item :: list.dropWhile (fun i => i.value ≤ item.value)

def unblockTime (list : List Item) : ℕ := (list.head?.map Item.value).getD portMaxDelay

namespace Kernel
variable (k : Kernel)

def resetNextTaskUnblockTime : Kernel :=
  { k with nextTaskUnblockTime := unblockTime k.delayedTaskList }

/-- `prvAddCurrentTaskToDelayedList`, for a sleep that ends. -/
def addToDelayedList (task ticksToWait : ℕ) : Kernel :=
  let timeToWake := (k.tickCount + ticksToWait) % 2 ^ 32
  let item : Item := ⟨task, timeToWake, k.now + ticksToWait⟩
  if timeToWake < k.tickCount then
    { k with overflowDelayedTaskList := vListInsert item k.overflowDelayedTaskList }
  else
    { k with
      delayedTaskList := vListInsert item k.delayedTaskList
      nextTaskUnblockTime :=
        if timeToWake < k.nextTaskUnblockTime then timeToWake else k.nextTaskUnblockTime }

/-- `taskSWITCH_DELAYED_LISTS`, which asserts that the first list is empty. -/
def switchDelayedLists : Option Kernel :=
  if k.delayedTaskList = [] then
    some ({ k with
      delayedTaskList := k.overflowDelayedTaskList
      overflowDelayedTaskList := k.delayedTaskList } : Kernel).resetNextTaskUnblockTime
  else none

/-- The loop of `xTaskIncrementTick`, which takes items from the head of the list. -/
def unblockExpired : Kernel :=
  let expired := k.delayedTaskList.takeWhile fun i => i.value ≤ k.tickCount
  let rest := k.delayedTaskList.dropWhile fun i => i.value ≤ k.tickCount
  { k with
    delayedTaskList := rest
    nextTaskUnblockTime := unblockTime rest
    expired := k.expired ++ expired.map (·, k.now) }

/-- `xTaskIncrementTick` -/
def incrementTick : Option Kernel :=
  if k.schedulerSuspended ≠ 0 then some { k with pendedTicks := (k.pendedTicks + 1) % 2 ^ 32 }
  else
    let k := { k with
      tickCount := (k.tickCount + 1) % 2 ^ 32
      now := k.now + 1 }
    (if k.tickCount = 0 then switchDelayedLists k else some k).map fun k =>
      if k.nextTaskUnblockTime ≤ k.tickCount then unblockExpired k else k

def incrementTicks : ℕ → Kernel → Option Kernel
  | 0, k => some k
  | n + 1, k => (incrementTick k).bind (incrementTicks n)

/-- `vTaskSuspendAll` -/
def suspendAll : Kernel := { k with schedulerSuspended := k.schedulerSuspended + 1 }

/-- Some tasks leave the lists of those that sleep. -/
def take (p : ℕ → Bool) : Kernel :=
  { k with
    delayedTaskList := k.delayedTaskList.filter fun i => !p i.task
    overflowDelayedTaskList := k.overflowDelayedTaskList.filter fun i => !p i.task }

/-- `xTaskResumeAll`: the tasks that were made ready go first, and then the ticks that were put
by. -/
def resumeAll : Option Kernel :=
  if k.schedulerSuspended = 0 then none
  else if k.schedulerSuspended ≠ 1 then
    some { k with schedulerSuspended := k.schedulerSuspended - 1 }
  else
    let ready := { k.take k.pendingReadyList.contains with
      schedulerSuspended := 0
      pendingReadyList := [] }
    let ready := if k.pendingReadyList = [] then ready else ready.resetNextTaskUnblockTime
    (incrementTicks k.pendedTicks ready).map fun k => { k with pendedTicks := 0 }

/-- `vTaskStepTick` with its assertions. -/
def stepTick (ticksToJump : ℕ) : Option Kernel :=
  let updated := (k.tickCount + ticksToJump) % 2 ^ 32
  if k.nextTaskUnblockTime < updated then none
  else if updated = k.nextTaskUnblockTime then
    if k.schedulerSuspended = 0 ∨ ticksToJump = 0 then none
    else some { k with
      pendedTicks := (k.pendedTicks + 1) % 2 ^ 32
      tickCount := (k.tickCount + (ticksToJump - 1)) % 2 ^ 32
      now := k.now + (ticksToJump - 1) }
  else some { k with
    tickCount := updated
    now := k.now + ticksToJump }

/-- A task is unblocked by an event, by the calls that look for the next time to unblock. -/
def unblock (task : ℕ) : Kernel :=
  if k.schedulerSuspended = 0 then (k.take (· == task)).resetNextTaskUnblockTime
  else { k with pendingReadyList := k.pendingReadyList ++ [task] }

/-- The same by `xTaskGenericNotifyFromISR` and `vTaskGenericNotifyGiveFromISR`, which do not. -/
def notifyFromISR (task : ℕ) : Kernel :=
  if k.schedulerSuspended = 0 then k.take (· == task)
  else { k with pendingReadyList := k.pendingReadyList ++ [task] }

/-- `vTaskDelete` and `vTaskSuspend` of a task. -/
def remove (task : ℕ) : Kernel :=
  { k.take (· == task) with
    pendingReadyList := k.pendingReadyList.filter (· != task) }.resetNextTaskUnblockTime

/-- `RooFreeRtosKernelIdleTicks` -/
def idleTicks : ℕ :=
  if k.delayedTaskList ≠ [] then (k.nextTaskUnblockTime + 2 ^ 32 - k.tickCount) % 2 ^ 32
  else
    match k.overflowDelayedTaskList with
    | item :: _ => (item.value + 2 ^ 32 - k.tickCount) % 2 ^ 32
    | [] => portMaxDelay

end Kernel
theorem vListInsert_cons (item b : Item) (list : List Item) :
    vListInsert item (b :: list) =
      if b.value ≤ item.value then b :: vListInsert item list else item :: b :: list := by
  split_ifs with h <;> simp [vListInsert, h]

theorem mem_vListInsert {item i : Item} {list : List Item} :
    i ∈ vListInsert item list ↔ i = item ∨ i ∈ list := by
  induction list with
  | nil => simp [vListInsert]
  | cons b list ih =>
    rw [vListInsert_cons]
    split_ifs
    · rw [List.mem_cons, ih, List.mem_cons]
      tauto
    · rw [List.mem_cons]

/-- In the order of their values. -/
def Sorted (list : List Item) : Prop := list.Pairwise fun a b => a.value ≤ b.value

theorem Sorted.vListInsert {list : List Item} (h : Sorted list) (item : Item) :
    Sorted (vListInsert item list) := by
  induction list with
  | nil => exact List.pairwise_singleton _ _
  | cons b list ih =>
    obtain ⟨hb, hlist⟩ := List.pairwise_cons.mp h
    rw [vListInsert_cons]
    split_ifs with hle
    · refine List.pairwise_cons.mpr ⟨fun i hi => ?_, ih hlist⟩
      rcases mem_vListInsert.mp hi with rfl | hi
      · exact hle
      · exact hb i hi
    · refine List.pairwise_cons.mpr ⟨fun i hi => ?_, h⟩
      have hlt : item.value < b.value := by omega
      rcases List.mem_cons.mp hi with rfl | hi
      · exact hlt.le
      · exact hlt.le.trans (hb i hi)

theorem Sorted.filter {list : List Item} (h : Sorted list) (p : Item → Bool) :
    Sorted (list.filter p) :=
  List.Pairwise.filter p h

theorem Sorted.unblockTime_le {list : List Item} (h : Sorted list) :
    ∀ i ∈ list, unblockTime list ≤ i.value := by
  cases list with
  | nil => exact fun i hi => (List.not_mem_nil hi).elim
  | cons b list =>
    intro i hi
    rcases List.mem_cons.mp hi with rfl | hi
    · exact Nat.le_refl _
    · exact (List.pairwise_cons.mp h).1 i hi

theorem unblockTime_cases (list : List Item) :
    unblockTime list = portMaxDelay ∨ ∃ i ∈ list, unblockTime list = i.value := by
  cases list with
  | nil => exact Or.inl rfl
  | cons b list => exact Or.inr ⟨b, List.mem_cons_self, rfl⟩

/-- The head of what is left has a larger value, and with it all of the rest. -/
theorem Sorted.lt_of_mem_dropWhile {list : List Item} (h : Sorted list) {tick : ℕ} :
    ∀ i ∈ list.dropWhile (fun i => i.value ≤ tick), tick < i.value := by
  induction list with
  | nil => exact fun i hi => (List.not_mem_nil hi).elim
  | cons b list ih =>
    obtain ⟨hb, hlist⟩ := List.pairwise_cons.mp h
    rw [List.dropWhile_cons]
    split_ifs with hle
    · exact ih hlist
    · have hlt : tick < b.value := by simpa using hle
      intro i hi
      rcases List.mem_cons.mp hi with rfl | hi
      · exact hlt
      · exact hlt.trans_le (hb i hi)

/-- Up to the tick `served` no sleep is left that should have ended. The first list has the sleeps
that end before the count wraps, and the second those that end in the round after. -/
structure Timed (served : ℕ) (k : Kernel) : Prop where
  tickCount : k.tickCount = k.now % 2 ^ 32
  sorted : Sorted k.delayedTaskList
  sorted_overflow : Sorted k.overflowDelayedTaskList
  delayed : ∀ i ∈ k.delayedTaskList,
    served < i.due ∧ i.value = i.due % 2 ^ 32 ∧ i.due / 2 ^ 32 = k.now / 2 ^ 32
  overflow : ∀ i ∈ k.overflowDelayedTaskList,
    i.due < k.now + 2 ^ 32 ∧ i.value = i.due % 2 ^ 32 ∧ i.due / 2 ^ 32 = k.now / 2 ^ 32 + 1
  unblock_le : ∀ i ∈ k.delayedTaskList, k.nextTaskUnblockTime ≤ i.value
  unblock_max : k.nextTaskUnblockTime ≤ portMaxDelay
  expired : ∀ p ∈ k.expired, p.1.due = p.2

/-- Nobody sleeps past the tick of now, and nobody is to be unblocked by then. -/
structure Inv (k : Kernel) : Prop extends Timed k.now k where
  unblock_gt : k.tickCount < k.nextTaskUnblockTime ∨ k.nextTaskUnblockTime = portMaxDelay

/-- The next time to unblock is that of the head of the list. -/
def Kernel.Fresh (k : Kernel) : Prop := k.nextTaskUnblockTime = unblockTime k.delayedTaskList

variable {k k' : Kernel} {served : ℕ}

theorem Timed.unblockTime_max (h : Timed served k) :
    unblockTime k.delayedTaskList ≤ portMaxDelay := by
  rcases unblockTime_cases k.delayedTaskList with hmax | ⟨i, hi, hvalue⟩
  · exact hmax.le
  · have hi := (h.delayed i hi).2.1
    rw [hvalue, portMaxDelay]
    omega

theorem Timed.reset (h : Timed served k) : Timed served k.resetNextTaskUnblockTime :=
  ⟨h.tickCount, h.sorted, h.sorted_overflow, h.delayed, h.overflow, h.sorted.unblockTime_le,
    h.unblockTime_max, h.expired⟩

theorem Inv.unblockTime_gt (h : Inv k) :
    k.tickCount < unblockTime k.delayedTaskList ∨
      unblockTime k.delayedTaskList = portMaxDelay := by
  rcases unblockTime_cases k.delayedTaskList with hmax | ⟨i, hi, hvalue⟩
  · exact Or.inr hmax
  · obtain ⟨hdue, hi, hround⟩ := h.delayed i hi
    have htick := h.tickCount
    rw [hvalue]
    left
    omega

theorem Inv.reset (h : Inv k) : Inv k.resetNextTaskUnblockTime :=
  ⟨h.toTimed.reset, h.unblockTime_gt⟩

theorem fresh_reset (k : Kernel) : k.resetNextTaskUnblockTime.Fresh := rfl

theorem Timed.take (h : Timed served k) (p : ℕ → Bool) : Timed served (k.take p) where
  tickCount := h.tickCount
  sorted := h.sorted.filter _
  sorted_overflow := h.sorted_overflow.filter _
  delayed := fun i hi => h.delayed i (List.mem_filter.mp hi).1
  overflow := fun i hi => h.overflow i (List.mem_filter.mp hi).1
  unblock_le := fun i hi => h.unblock_le i (List.mem_filter.mp hi).1
  unblock_max := h.unblock_max
  expired := h.expired

theorem Inv.take (h : Inv k) (p : ℕ → Bool) : Inv (k.take p) := ⟨h.toTimed.take p, h.unblock_gt⟩

/-- The sleeps that the tick of now ends are those that are due now. -/
theorem Timed.unblockExpired (h : Timed served k) (hserved : served + 1 = k.now) :
    Inv k.unblockExpired := by
  have hrest : ∀ i ∈ k.delayedTaskList.dropWhile (fun i => i.value ≤ k.tickCount),
      i ∈ k.delayedTaskList := fun i hi => (List.dropWhile_sublist _).subset hi
  have hsorted : Sorted (k.delayedTaskList.dropWhile fun i => i.value ≤ k.tickCount) :=
    List.Pairwise.sublist (List.dropWhile_sublist _) h.sorted
  have htimed : Timed k.now k.unblockExpired := by
    refine ⟨h.tickCount, hsorted, h.sorted_overflow, fun i hi => ?_, h.overflow,
      hsorted.unblockTime_le, ?_, fun p hp => ?_⟩
    · obtain ⟨-, hvalue, hround⟩ := h.delayed i (hrest i hi)
      have hlt := h.sorted.lt_of_mem_dropWhile i hi
      have htick := h.tickCount
      exact ⟨by omega, hvalue, hround⟩
    · change unblockTime (k.delayedTaskList.dropWhile fun i => i.value ≤ k.tickCount) ≤ portMaxDelay
      rcases unblockTime_cases (k.delayedTaskList.dropWhile fun i => i.value ≤ k.tickCount) with
        hmax | ⟨i, hi, hvalue⟩
      · exact hmax.le
      · have hi := (h.delayed i (hrest i hi)).2.1
        rw [hvalue, portMaxDelay]
        omega
    · rcases List.mem_append.mp hp with hp | hp
      · exact h.expired p hp
      · obtain ⟨i, hi, rfl⟩ := List.mem_map.mp hp
        have hle : i.value ≤ k.tickCount := by
          simpa using List.mem_takeWhile_imp hi
        obtain ⟨hdue, hvalue, hround⟩ :=
          h.delayed i ((List.takeWhile_sublist _).subset hi)
        have htick := h.tickCount
        change i.due = k.now
        omega
  refine ⟨htimed, ?_⟩
  rcases unblockTime_cases k.unblockExpired.delayedTaskList with hmax | ⟨i, hi, hvalue⟩
  · exact Or.inr hmax
  · left
    change k.tickCount < unblockTime k.unblockExpired.delayedTaskList
    rw [hvalue]
    exact h.sorted.lt_of_mem_dropWhile i hi

/-- Where nobody is to be unblocked by the tick of now, nobody is due. -/
theorem Timed.inv_of_lt (h : Timed served k) (hlt : k.tickCount < k.nextTaskUnblockTime) :
    Inv k := by
  refine ⟨⟨h.tickCount, h.sorted, h.sorted_overflow, fun i hi => ?_, h.overflow, h.unblock_le,
    h.unblock_max, h.expired⟩, Or.inl hlt⟩
  obtain ⟨-, hvalue, hround⟩ := h.delayed i hi
  have hle := h.unblock_le i hi
  have htick := h.tickCount
  exact ⟨by omega, hvalue, hround⟩

/-- Some ticks are counted or put by. -/
structure Ticked (n : ℕ) (k k' : Kernel) : Prop where
  schedulerSuspended : k'.schedulerSuspended = k.schedulerSuspended
  pendingReadyList : k'.pendingReadyList = k.pendingReadyList
  counted : k.schedulerSuspended = 0 → k'.now = k.now + n ∧ k'.pendedTicks = k.pendedTicks
  total : (k'.now + k'.pendedTicks) % 2 ^ 32 = (k.now + k.pendedTicks + n) % 2 ^ 32

theorem Ticked.refl (k : Kernel) : Ticked 0 k k := ⟨rfl, rfl, fun _ => ⟨rfl, rfl⟩, rfl⟩

theorem Ticked.trans {k'' : Kernel} {n m : ℕ} (h : Ticked n k k') (h' : Ticked m k' k'') :
    Ticked (n + m) k k'' where
  schedulerSuspended := h'.schedulerSuspended.trans h.schedulerSuspended
  pendingReadyList := h'.pendingReadyList.trans h.pendingReadyList
  counted := fun hsuspended => by
    obtain ⟨hnow, hpended⟩ := h.counted hsuspended
    obtain ⟨hnow', hpended'⟩ := h'.counted (h.schedulerSuspended.trans hsuspended)
    exact ⟨by omega, hpended'.trans hpended⟩
  total := by
    have hfirst := h.total
    have hsecond := h'.total
    omega

/-- A tick never fails, and it ends the sleeps that are due. -/
theorem incrementTick_spec (h : Inv k) :
    ∃ k', k.incrementTick = some k' ∧ Inv k' ∧ Ticked 1 k k' ∧ (k.Fresh → k'.Fresh) := by
  unfold Kernel.incrementTick
  by_cases hsuspended : k.schedulerSuspended ≠ 0
  · rw [if_pos hsuspended]
    exact ⟨_, rfl, ⟨⟨h.tickCount, h.sorted, h.sorted_overflow, h.delayed, h.overflow, h.unblock_le,
      h.unblock_max, h.expired⟩, h.unblock_gt⟩,
      ⟨rfl, rfl, fun hzero => absurd hzero hsuspended, by dsimp only; omega⟩, id⟩
  rw [if_neg hsuspended]
  dsimp only
  have htick := h.tickCount
  have hticked : ∀ k' : Kernel, k'.schedulerSuspended = k.schedulerSuspended →
      k'.pendingReadyList = k.pendingReadyList → k'.now = k.now + 1 →
      k'.pendedTicks = k.pendedTicks → Ticked 1 k k' := fun k' hs hp hn ht =>
    ⟨hs, hp, fun _ => ⟨hn, ht⟩, by rw [hn, ht, Nat.add_right_comm]⟩
  by_cases hwrap : (k.tickCount + 1) % 2 ^ 32 = 0
  · -- at the wrap the first list is empty, and the other takes its place
    have hnil : k.delayedTaskList = [] := by
      refine List.eq_nil_iff_forall_not_mem.mpr fun i hi => ?_
      obtain ⟨hdue, hvalue, hround⟩ := h.delayed i hi
      omega
    rw [if_pos hwrap, Kernel.switchDelayedLists, if_pos hnil, Option.map_some]
    have htimed : Timed k.now { k with
        tickCount := (k.tickCount + 1) % 2 ^ 32
        now := k.now + 1
        delayedTaskList := k.overflowDelayedTaskList
        overflowDelayedTaskList := k.delayedTaskList
        nextTaskUnblockTime := unblockTime k.overflowDelayedTaskList } := by
      have hnext : ∀ i ∈ k.overflowDelayedTaskList,
          k.now < i.due ∧ i.value = i.due % 2 ^ 32 ∧ i.due / 2 ^ 32 = (k.now + 1) / 2 ^ 32 := by
        intro i hi
        obtain ⟨hdue, hvalue, hround⟩ := h.overflow i hi
        exact ⟨by omega, hvalue, by omega⟩
      refine ⟨?_, h.sorted_overflow, h.sorted, hnext, ?_, h.sorted_overflow.unblockTime_le, ?_,
        h.expired⟩
      · change (k.tickCount + 1) % 2 ^ 32 = (k.now + 1) % 2 ^ 32
        omega
      · intro i hi
        rw [hnil] at hi
        exact (List.not_mem_nil hi).elim
      · change unblockTime k.overflowDelayedTaskList ≤ portMaxDelay
        rcases unblockTime_cases k.overflowDelayedTaskList with hmax | ⟨i, hi, hvalue⟩
        · exact hmax.le
        · have hi := (hnext i hi).2.1
          rw [hvalue, portMaxDelay]
          omega
    refine ⟨_, rfl, ?_⟩
    split_ifs with hexpired
    · exact ⟨htimed.unblockExpired rfl, hticked _ rfl rfl rfl rfl, fun _ => rfl⟩
    · exact ⟨htimed.inv_of_lt (Nat.lt_of_not_le hexpired), hticked _ rfl rfl rfl rfl, fun _ => rfl⟩
  · rw [if_neg hwrap, Option.map_some]
    have htimed : Timed k.now { k with
        tickCount := (k.tickCount + 1) % 2 ^ 32
        now := k.now + 1 } := by
      refine ⟨?_, h.sorted, h.sorted_overflow, fun i hi => ?_, fun i hi => ?_, h.unblock_le,
        h.unblock_max, h.expired⟩
      · change (k.tickCount + 1) % 2 ^ 32 = (k.now + 1) % 2 ^ 32
        omega
      · obtain ⟨hdue, hvalue, hround⟩ := h.delayed i hi
        refine ⟨hdue, hvalue, ?_⟩
        change i.due / 2 ^ 32 = (k.now + 1) / 2 ^ 32
        omega
      · obtain ⟨hdue, hvalue, hround⟩ := h.overflow i hi
        refine ⟨?_, hvalue, ?_⟩
        · change i.due < k.now + 1 + 2 ^ 32
          omega
        · change i.due / 2 ^ 32 = (k.now + 1) / 2 ^ 32 + 1
          omega
    refine ⟨_, rfl, ?_⟩
    split_ifs with hexpired
    · exact ⟨htimed.unblockExpired rfl, hticked _ rfl rfl rfl rfl, fun _ => rfl⟩
    · exact ⟨htimed.inv_of_lt (Nat.lt_of_not_le hexpired), hticked _ rfl rfl rfl rfl, id⟩

theorem incrementTicks_spec (h : Inv k) (n : ℕ) :
    ∃ k', k.incrementTicks n = some k' ∧ Inv k' ∧ Ticked n k k' ∧ (k.Fresh → k'.Fresh) := by
  induction n generalizing k with
  | zero => exact ⟨k, rfl, h, Ticked.refl k, id⟩
  | succ n ih =>
    obtain ⟨t, ht, hinv, hticked, hfresh⟩ := incrementTick_spec h
    obtain ⟨k', hk', hinv', hticked', hfresh'⟩ := ih hinv
    refine ⟨k', ?_, hinv', ?_, hfresh' ∘ hfresh⟩
    · rw [Kernel.incrementTicks, ht, Option.bind_some, hk']
    · rw [Nat.add_comm]
      exact hticked.trans hticked'

/-- While the scheduler runs, no tick and no task is put by. -/
def Kernel.Settled (k : Kernel) : Prop :=
  k.schedulerSuspended = 0 → k.pendedTicks = 0 ∧ k.pendingReadyList = []

theorem take_of_forall {p : ℕ → Bool} (h : ∀ task, p task = false) : k.take p = k := by
  rw [Kernel.take, List.filter_eq_self.mpr (by simp [h]), List.filter_eq_self.mpr (by simp [h])]

theorem resumeAll_spec (h : Inv k) (hsuspended : k.schedulerSuspended ≠ 0) :
    ∃ k', k.resumeAll = some k' ∧ Inv k' ∧ k'.Settled ∧
      (k'.now + k'.pendedTicks) % 2 ^ 32 = (k.now + k.pendedTicks) % 2 ^ 32 ∧
      (k.Fresh → k'.Fresh) := by
  unfold Kernel.resumeAll
  rw [if_neg hsuspended]
  by_cases hone : k.schedulerSuspended ≠ 1
  · rw [if_pos hone]
    refine ⟨_, rfl, ⟨⟨h.tickCount, h.sorted, h.sorted_overflow, h.delayed, h.overflow,
      h.unblock_le, h.unblock_max, h.expired⟩, h.unblock_gt⟩, fun hzero => ?_, rfl, id⟩
    change k.schedulerSuspended - 1 = 0 at hzero
    omega
  rw [if_neg hone]
  dsimp only
  have htaken := h.take k.pendingReadyList.contains
  have hready : ∃ ready : Kernel, (if k.pendingReadyList = [] then
        { k.take k.pendingReadyList.contains with
          schedulerSuspended := 0
          pendingReadyList := [] }
      else ({ k.take k.pendingReadyList.contains with
          schedulerSuspended := 0
          pendingReadyList := [] } : Kernel).resetNextTaskUnblockTime) = ready ∧ Inv ready ∧
      ready.schedulerSuspended = 0 ∧ ready.pendingReadyList = [] ∧ ready.now = k.now ∧
      ready.pendedTicks = k.pendedTicks ∧ (k.Fresh → ready.Fresh) := by
    have hinv : Inv { k.take k.pendingReadyList.contains with
        schedulerSuspended := 0
        pendingReadyList := [] } :=
      ⟨⟨htaken.tickCount, htaken.sorted, htaken.sorted_overflow, htaken.delayed, htaken.overflow,
        htaken.unblock_le, htaken.unblock_max, htaken.expired⟩, htaken.unblock_gt⟩
    split_ifs with hnil
    · refine ⟨_, rfl, hinv, rfl, rfl, rfl, rfl, fun hfresh => ?_⟩
      have hsame : k.take k.pendingReadyList.contains = k := take_of_forall fun task => by
        rw [hnil]
        rfl
      rw [hsame]
      exact hfresh
    · exact ⟨_, rfl, hinv.reset, rfl, rfl, rfl, rfl, fun _ => fresh_reset _⟩
  obtain ⟨ready, hready, hinv, hzero, hnil, hnow, hpended, hfresh⟩ := hready
  rw [hready]
  obtain ⟨k', hk', hinv', hticked, hfresh'⟩ := incrementTicks_spec hinv k.pendedTicks
  rw [hk', Option.map_some]
  refine ⟨_, rfl, ⟨⟨hinv'.tickCount, hinv'.sorted, hinv'.sorted_overflow, hinv'.delayed,
    hinv'.overflow, hinv'.unblock_le, hinv'.unblock_max, hinv'.expired⟩, hinv'.unblock_gt⟩,
    fun _ => ⟨rfl, hticked.pendingReadyList.trans hnil⟩, ?_, hfresh' ∘ hfresh⟩
  change (k'.now + 0) % 2 ^ 32 = _
  rw [(hticked.counted hzero).1, hnow, Nat.add_zero]

theorem unblockTime_vListInsert {item : Item} (hvalue : item.value ≤ portMaxDelay)
    (list : List Item) : unblockTime (vListInsert item list) =
      if item.value < unblockTime list then item.value else unblockTime list := by
  cases list with
  | nil =>
    change item.value = if item.value < portMaxDelay then item.value else portMaxDelay
    split_ifs <;> omega
  | cons b list =>
    rw [vListInsert_cons]
    change _ = if item.value < b.value then item.value else b.value
    by_cases hle : b.value ≤ item.value
    · rw [if_pos hle, if_neg (by omega)]
      rfl
    · rw [if_neg hle, if_pos (by omega)]
      rfl

/-- A sleep of less than a round ends before the count wraps, or in the round after. -/
theorem addToDelayedList_spec (h : Inv k) (task : ℕ) {ticks : ℕ} (hpos : 0 < ticks)
    (hlt : ticks < 2 ^ 32) :
    Inv (k.addToDelayedList task ticks) ∧ (k.Fresh → (k.addToDelayedList task ticks).Fresh) := by
  have htick := h.tickCount
  unfold Kernel.addToDelayedList
  dsimp only
  by_cases hwraps : (k.tickCount + ticks) % 2 ^ 32 < k.tickCount
  · rw [if_pos hwraps]
    refine ⟨⟨⟨h.tickCount, h.sorted, h.sorted_overflow.vListInsert _, h.delayed, fun i hi => ?_,
      h.unblock_le, h.unblock_max, h.expired⟩, h.unblock_gt⟩, id⟩
    rcases mem_vListInsert.mp hi with rfl | hi
    · exact ⟨by dsimp only; omega, by dsimp only; omega, by dsimp only; omega⟩
    · exact h.overflow i hi
  · rw [if_neg hwraps]
    have hmax : (k.tickCount + ticks) % 2 ^ 32 ≤ portMaxDelay := by
      rw [portMaxDelay]
      omega
    refine ⟨⟨⟨h.tickCount, h.sorted.vListInsert _, h.sorted_overflow, fun i hi => ?_, h.overflow,
      fun i hi => ?_, ?_, h.expired⟩, ?_⟩, fun hfresh => ?_⟩
    · rcases mem_vListInsert.mp hi with rfl | hi
      · exact ⟨by dsimp only; omega, by dsimp only; omega, by dsimp only; omega⟩
      · exact h.delayed i hi
    · dsimp only
      rcases mem_vListInsert.mp hi with rfl | hi
      · split_ifs <;> dsimp only <;> omega
      · have hle := h.unblock_le i hi
        split_ifs <;> omega
    · have hle := h.unblock_max
      dsimp only
      split_ifs <;> omega
    · have hgt := h.unblock_gt
      dsimp only
      split_ifs <;> omega
    · rw [Kernel.Fresh, unblockTime_vListInsert hmax, ← hfresh]

theorem Inv.pend (h : Inv k) (tasks : List ℕ) : Inv { k with pendingReadyList := tasks } :=
  ⟨⟨h.tickCount, h.sorted, h.sorted_overflow, h.delayed, h.overflow, h.unblock_le, h.unblock_max,
    h.expired⟩, h.unblock_gt⟩

theorem Inv.unblock (h : Inv k) (task : ℕ) : Inv (k.unblock task) := by
  unfold Kernel.unblock
  split_ifs
  · exact (h.take _).reset
  · exact h.pend _

theorem fresh_unblock (h : k.Fresh) (task : ℕ) : (k.unblock task).Fresh := by
  unfold Kernel.unblock
  split_ifs
  · exact fresh_reset _
  · exact h

theorem Inv.notifyFromISR (h : Inv k) (task : ℕ) : Inv (k.notifyFromISR task) := by
  unfold Kernel.notifyFromISR
  split_ifs
  · exact h.take _
  · exact h.pend _

theorem Inv.remove (h : Inv k) (task : ℕ) : Inv (k.remove task) := ((h.take _).pend _).reset

/-- A step that stops short of the next time to unblock. -/
theorem stepTick_of_lt (h : Inv k) {n : ℕ} (hlt : k.tickCount + n < k.nextTaskUnblockTime) :
    k.stepTick n = some { k with
      tickCount := k.tickCount + n
      now := k.now + n } ∧
    Inv { k with
      tickCount := k.tickCount + n
      now := k.now + n } := by
  have hmax := h.unblock_max
  have htick := h.tickCount
  rw [portMaxDelay] at hmax
  have hmod : (k.tickCount + n) % 2 ^ 32 = k.tickCount + n := Nat.mod_eq_of_lt (by omega)
  constructor
  · rw [Kernel.stepTick]
    simp only [hmod]
    rw [if_neg (by omega), if_neg (by omega)]
  · refine ⟨⟨?_, h.sorted, h.sorted_overflow, fun i hi => ?_, fun i hi => ?_, h.unblock_le,
      h.unblock_max, h.expired⟩, Or.inl hlt⟩
    · change k.tickCount + n = (k.now + n) % 2 ^ 32
      omega
    · obtain ⟨hdue, hvalue, hround⟩ := h.delayed i hi
      have hle := h.unblock_le i hi
      exact ⟨by dsimp only; omega, hvalue, by dsimp only; omega⟩
    · obtain ⟨hdue, hvalue, hround⟩ := h.overflow i hi
      exact ⟨by dsimp only; omega, hvalue, by dsimp only; omega⟩

/-- A step that reaches it fails while the scheduler runs. -/
theorem stepTick_of_le (hsuspended : k.schedulerSuspended = 0) {n : ℕ}
    (hle : k.nextTaskUnblockTime ≤ (k.tickCount + n) % 2 ^ 32) : k.stepTick n = none := by
  rw [Kernel.stepTick]
  by_cases hlt : k.nextTaskUnblockTime < (k.tickCount + n) % 2 ^ 32
  · rw [if_pos hlt]
  · rw [if_neg hlt, if_pos (by omega), if_pos (Or.inl hsuspended)]

/-- The idle hook counts the ticks up to the next time to unblock, or to the end of a sleep in the
round after. -/
theorem idleTicks_cases (h : Inv k) :
    (k.delayedTaskList ≠ [] ∧ k.idleTicks = k.nextTaskUnblockTime - k.tickCount ∧
        k.tickCount < k.nextTaskUnblockTime) ∨
      (k.delayedTaskList = [] ∧ ∃ i ∈ k.overflowDelayedTaskList, k.idleTicks = i.due - k.now ∧
        (∀ j ∈ k.overflowDelayedTaskList, i.due ≤ j.due) ∧ portMaxDelay - k.tickCount < k.idleTicks) ∨
      k.delayedTaskList = [] ∧ k.overflowDelayedTaskList = [] ∧ k.idleTicks = portMaxDelay := by
  have htick := h.tickCount
  have hmax := h.unblock_max
  rw [portMaxDelay] at hmax ⊢
  unfold Kernel.idleTicks
  by_cases hdelayed : k.delayedTaskList ≠ []
  · rw [if_pos hdelayed]
    obtain ⟨i, hi⟩ := List.exists_mem_of_ne_nil _ hdelayed
    obtain ⟨hdue, hvalue, hround⟩ := h.delayed i hi
    have hle := h.unblock_le i hi
    have hgt := h.unblock_gt
    rw [portMaxDelay] at hgt
    exact Or.inl ⟨hdelayed, by omega, by omega⟩
  · rw [if_neg hdelayed]
    have hnil : k.delayedTaskList = [] := not_not.mp hdelayed
    right
    have hoverflow := h.overflow
    have hsorted := h.sorted_overflow
    split
    · next item rest hlist =>
      rw [hlist] at hoverflow hsorted
      obtain ⟨hdue, hvalue, hround⟩ := hoverflow item List.mem_cons_self
      refine Or.inl ⟨hnil, item, by rw [hlist]; exact List.mem_cons_self, by omega,
        fun j hj => ?_, by omega⟩
      rw [hlist] at hj
      rcases List.mem_cons.mp hj with rfl | hj
      · exact Nat.le_refl _
      · obtain ⟨-, hvalue', hround'⟩ := hoverflow j (List.mem_cons_of_mem _ hj)
        have hle := (List.pairwise_cons.mp hsorted).1 j hj
        omega
    · next hlist => exact Or.inr ⟨hnil, hlist, rfl⟩

end RooTesting.KernelTicks
