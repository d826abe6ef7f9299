import RooTesting.InterruptWords
import RooTesting.Threads

/-! # The interrupt controller

Sixty-four slots with one atomic word each. Enable, disable and set-pending are loops of
loads and compare-and-swaps that any thread, and any handler, may take step by step;
registration changes a slot inside a critical section, and the dispatcher scans the slots
when the port runs it. -/
namespace RooTesting.InterruptController
open Transition Threads

def kInterruptCapacity : ℕ := 64

structure Handle where
  slot : ℕ
  generation : Generation
  deriving DecidableEq

def Handle.isValid (h : Handle) : Bool := h.slot ≠ 2 ^ 32 - 1 && h.generation ≠ 0

/-- A handler of `none` is the null pointer. -/
structure Slot where
  state : Word
  handler : Option ℕ
  argument : ℕ

/-- What happened, latest first. Nothing in the controller reads it. -/
inductive Entry where
  | registered (slot : ℕ) (generation : Generation) (handler argument : ℕ)
  | unregistered (slot : ℕ) (generation : Generation)
  | pended (slot : ℕ) (generation : Generation)
  | claimed (slot : ℕ) (generation : Generation)
  | invoked (slot : ℕ) (generation : Generation) (handler argument : ℕ)
  deriving DecidableEq

/-- The slots, the port's request, and whether a critical section or a dispatch is on. -/
structure Shared where
  slots : ℕ → Slot
  requested : Bool
  critical : Bool
  dispatching : Bool
  history : List Entry

/-- The three operations that run one compare-and-swap loop. -/
inductive Update where
  | enable | disable | setPending
  deriving DecidableEq

/-- A call in progress, by the step it takes next. -/
inductive Frame where
  | load (op : Update) (handle : Handle)
  | swap (op : Update) (handle : Handle) (state : Word)
  | request
  | register (slot handler argument : ℕ) (initiallyEnabled : Bool)
  | storeHandler (slot : ℕ) (generation : Generation) (handler argument : ℕ)
      (initiallyEnabled : Bool)
  | storeArgument (slot : ℕ) (generation : Generation) (handler argument : ℕ)
      (initiallyEnabled : Bool)
  | storeState (slot : ℕ) (generation : Generation) (handler argument : ℕ)
      (initiallyEnabled : Bool)
  | unregisterLoad (handle : Handle)
  | unregister (handle : Handle) (state : Word)
  | clearHandler (handle : Handle)
  | clearArgument (handle : Handle)
  | scan (slot : ℕ) (dispatched : Bool)
  | examine (slot : ℕ) (dispatched : Bool) (state : Word)
  | invoke (slot : ℕ) (generation : Generation)
  | running

abbrev Local := List Frame

inductive Call where
  | update (op : Update) (handle : Handle)
  | register (handler : Option ℕ) (argument : ℕ) (initiallyEnabled outHandle taskContext
      installed : Bool)
  | unregister (handle : Handle) (taskContext : Bool)

inductive Event where
  | call (c : Call)
  | dispatch
  | resume (spurious : Bool)

def matchesHandle (state : Word) (handle : Handle) : Bool :=
  allocated state && generation state = handle.generation

/-- The word that the operation swaps in. -/
def Update.apply (state : Word) : Update → Word
  | .enable => state ||| kEnabled
  | .disable => state &&& ~~~kEnabled
  | .setPending => state ||| kPending

/-- The new word needs the port to run the dispatcher. -/
def Update.requests (state : Word) : Update → Bool
  | .enable => pending state
  | .disable => false
  | .setPending => enabled state

namespace Shared

variable (s : Shared)

def word (slot : ℕ) : Word := (s.slots slot).state

def setSlot (slot : ℕ) (value : Slot) : Shared :=
  { s with slots := Function.update s.slots slot value }

def setWord (slot : ℕ) (state : Word) : Shared :=
  s.setSlot slot { s.slots slot with state := state }

def record (e : Entry) : Shared := { s with history := e :: s.history }

/-- The effect of a compare-and-swap of an operation. -/
def update (op : Update) (handle : Handle) : Shared :=
  let s := s.setWord handle.slot (op.apply (s.word handle.slot))
  if op = .setPending then s.record (.pended handle.slot handle.generation) else s

end Shared

/-- The first step of a call. A call from the wrong context, or with arguments that are
refused, ends at once. -/
def begin (s : Shared) (rest : Local) : Call → Option (Shared × Local)
  | .update op handle =>
    if !handle.isValid || kInterruptCapacity ≤ handle.slot then some (s, rest)
    else some (s, .load op handle :: rest)
  | .register handler argument initiallyEnabled outHandle taskContext installed =>
    match handler, outHandle, taskContext with
    | some handler, true, true =>
      if s.critical || s.dispatching then none
      else if installed then
        some ({ s with critical := true }, .register 0 handler argument initiallyEnabled :: rest)
      else some (s, rest)
    | _, _, _ => some (s, rest)
  | .unregister handle taskContext =>
    if !taskContext || !handle.isValid || kInterruptCapacity ≤ handle.slot then some (s, rest)
    else if s.critical || s.dispatching then none
    else some ({ s with critical := true }, .unregisterLoad handle :: rest)

/-- One round of the loop of an operation on a loaded word. -/
def swap (s : Shared) (rest : Local) (op : Update) (handle : Handle) (state : Word)
    (spurious : Bool) : Shared × Local :=
  let word := s.word handle.slot
  if !matchesHandle state handle then (s, rest)
  else if word = state && !spurious then
    (s.update op handle, (if op.requests (op.apply state) then [.request] else []) ++ rest)
  else (s, .swap op handle word :: rest)

/-- The loop of `registerInterrupt` at one slot. -/
def register (s : Shared) (rest : Local) (slot handler argument : ℕ) (initiallyEnabled : Bool) :
    Shared × Local :=
  if kInterruptCapacity ≤ slot then ({ s with critical := false }, rest)
  else
    let old := s.word slot
    if allocated old || !hasUnusedGeneration old then
      (s, .register (slot + 1) handler argument initiallyEnabled :: rest)
    else
      (s, .storeHandler slot (generation old + 1) handler argument initiallyEnabled :: rest)

/-- One round of the loop of `unregisterInterrupt`. -/
def unregister (s : Shared) (rest : Local) (handle : Handle) (state : Word) (spurious : Bool) :
    Shared × Local :=
  let word := s.word handle.slot
  if !matchesHandle state handle then ({ s with critical := false }, rest)
  else if word = state && !spurious then
    let s := s.setWord handle.slot (stateWithGeneration handle.generation 0)
    (s.record (.unregistered handle.slot handle.generation), .clearHandler handle :: rest)
  else (s, .unregister handle word :: rest)

/-- The dispatcher at the top of its inner loop. -/
def scan (s : Shared) (rest : Local) (slot : ℕ) (dispatched : Bool) : Shared × Local :=
  if slot < kInterruptCapacity then (s, .examine slot dispatched (s.word slot) :: rest)
  else if dispatched then (s, .scan 0 false :: rest)
  else ({ s with dispatching := false }, rest)

/-- The dispatcher with the word of a slot: it claims what is due. -/
def examine (s : Shared) (rest : Local) (slot : ℕ) (dispatched : Bool) (state : Word)
    (spurious : Bool) : Shared × Local :=
  let word := s.word slot
  if !due state then (s, .scan (slot + 1) dispatched :: rest)
  else if word = state && !spurious then
    ((s.setWord slot (claimed state)).record (.claimed slot (generation state)),
      .invoke slot (generation state) :: rest)
  else (s, .examine slot dispatched word :: rest)

/-- The next step of the innermost call of a thread. -/
def resume (s : Shared) (rest : Local) (spurious : Bool) : Frame → Shared × Local
  | .load op handle => (s, .swap op handle (s.word handle.slot) :: rest)
  | .swap op handle state => swap s rest op handle state spurious
  | .request => ({ s with requested := true }, rest)
  | .register slot handler argument initiallyEnabled =>
    register s rest slot handler argument initiallyEnabled
  | .storeHandler slot generation handler argument initiallyEnabled =>
    (s.setSlot slot { s.slots slot with handler := some handler },
      .storeArgument slot generation handler argument initiallyEnabled :: rest)
  | .storeArgument slot generation handler argument initiallyEnabled =>
    (s.setSlot slot { s.slots slot with argument := argument },
      .storeState slot generation handler argument initiallyEnabled :: rest)
  | .storeState slot generation handler argument initiallyEnabled =>
    let s := s.setWord slot (registered generation initiallyEnabled)
    ({ s.record (.registered slot generation handler argument) with critical := false }, rest)
  | .unregisterLoad handle => (s, .unregister handle (s.word handle.slot) :: rest)
  | .unregister handle state => unregister s rest handle state spurious
  | .clearHandler handle =>
    (s.setSlot handle.slot { s.slots handle.slot with handler := none },
      .clearArgument handle :: rest)
  | .clearArgument handle =>
    ({ s.setSlot handle.slot { s.slots handle.slot with argument := 0 } with critical := false },
      rest)
  | .scan slot dispatched => scan s rest slot dispatched
  | .examine slot dispatched state => examine s rest slot dispatched state spurious
  | .invoke slot generation =>
    -- no registration can change while the dispatcher runs, so both loads are one step
    match (s.slots slot).handler with
    | none => (s, .scan (slot + 1) true :: rest)
    | some handler =>
      (s.record (.invoked slot generation handler (s.slots slot).argument),
        .running :: .scan (slot + 1) true :: rest)
  | .running => (s, rest)

/-- A thread outside the controller, or in a handler, may make a call. -/
def callable : Local → Bool
  | [] => true
  | .running :: _ => true
  | _ => false

/-- One atomic step of one thread. The port runs the dispatcher on a request, on any
thread, but never inside a critical section or another dispatch. -/
def step : Program Shared Local Event
  | .call c, s, l => if callable l then begin s l c else none
  | .dispatch, s, l =>
    if s.requested && !s.critical && !s.dispatching then
      some ({ s with requested := false, dispatching := true }, .scan 0 false :: l)
    else none
  | .resume spurious, s, f :: rest => some (resume s rest spurious f)
  | .resume _, _, [] => none

abbrev System := Config Shared Local

def start : System := ⟨⟨fun _ => ⟨0, none, 0⟩, false, false, false, []⟩, fun _ => []⟩

end RooTesting.InterruptController
