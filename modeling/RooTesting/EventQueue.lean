import RooTesting.Transition
import Mathlib.Data.Int.Notation
import Mathlib.Data.List.TakeWhile
import Mathlib.Tactic.Cases

/-! # The event queue of the FLTK viewport

Producers wait on a full queue. A pop signals one of them, but only when it finds the queue full.
A push or a pop is one section under the mutex; a producer that waits gives the mutex up and
looks at the queue again when it has been signalled, or for no reason. -/
namespace RooTesting.EventQueue
open Transition

/-- An array of colours is named by its address. -/
inductive Message
  | init (width height : ℤ)
  | fillRect (x0 y0 x1 y1 : BitVec 16) (color_argb : BitVec 32)
  | drawRect (x0 y0 x1 y1 : BitVec 16) (color_argb : ℕ)
  deriving DecidableEq

namespace Message

def isInit : Message → Bool
  | init _ _ => true
  | _ => false

def isDraw : Message → Bool
  | init _ _ => false
  | _ => true

end Message

/-- A thread inside of `push`, with its message. -/
abbrev Producer := ℕ × Message

structure State where
  queue : List Message := []
  blocked : List Producer := []
  signalled : List Producer := []
  awake : List Producer := []
  initialized : Bool := false
  pushed : List Message := []
  delivered : List Message := []
  freed : List ℕ := []
  deriving DecidableEq

namespace State

variable (capacity : ℕ) (s : State)

/-- `pthread_cond_signal` on `nonfull_`, which wakes the blocked producer at place `w`. -/
def signal (w : ℕ) : State :=
  match s.blocked[w]? with
  | none => s
  | some p => { s with blocked := s.blocked.eraseIdx w, signalled := p :: s.signalled }

/-- The loop of `push`, from the test of the size. -/
def enqueue (p : Producer) : State :=
  if s.queue.length ≥ capacity then { s with blocked := p :: s.blocked }
  else { s with queue := s.queue ++ [p.2], pushed := s.pushed ++ [p.2] }

def signalFull (w : ℕ) (queue : List Message) : State :=
  if queue.length = capacity then s.signal w else s

/-- The loop of `popInitMessage` over the messages in the queue. -/
def popInitMessage (w : ℕ) : State → List Message → State
  | s, [] => { s with queue := [] }
  | s, .init width height :: rest =>
    { s.signalFull capacity w (.init width height :: rest) with queue := rest, initialized := true }
  | s, .fillRect x0 y0 x1 y1 color_argb :: rest =>
    popInitMessage w (s.signalFull capacity w (.fillRect x0 y0 x1 y1 color_argb :: rest)) rest
  | s, .drawRect x0 y0 x1 y1 color_argb :: rest =>
    let s := s.signalFull capacity w (.drawRect x0 y0 x1 y1 color_argb :: rest)
    popInitMessage w { s with freed := color_argb :: s.freed } rest

/-- The loop of `popDrawMessage` over the messages in the queue. -/
def popDrawMessage (w : ℕ) : State → List Message → State
  | s, [] => { s with queue := [] }
  | s, .init width height :: rest =>
    popDrawMessage w (s.signalFull capacity w (.init width height :: rest)) rest
  | s, message :: rest =>
    let s := s.signalFull capacity w (message :: rest)
    { s with queue := rest, delivered := s.delivered ++ [message] }

def producers : List ℕ := (s.blocked ++ s.signalled ++ s.awake).map Prod.fst

end State

/-- What happens next. A pop comes with the place of the producer that a signal would wake. -/
inductive Event
  | push (t : ℕ) (message : Message)
  | wake (t : ℕ)
  | spurious (t : ℕ)
  | retry (t : ℕ)
  | popInit (w : ℕ)
  | popDraw (w : ℕ)
  deriving DecidableEq

/-- One section under the mutex, or a spurious wake-up. The consumer looks for an INIT message
until it has one. -/
def step (capacity : ℕ) (s : State) : Event → Option State
  | .push t message => if t ∈ s.producers then none else some (s.enqueue capacity (t, message))
  | .wake t => (s.signalled.find? (·.1 = t)).map fun p =>
      { s with signalled := s.signalled.erase p }.enqueue capacity p
  | .spurious t => (s.blocked.find? (·.1 = t)).map fun p =>
      { s with blocked := s.blocked.erase p, awake := p :: s.awake }
  | .retry t => (s.awake.find? (·.1 = t)).map fun p =>
      { s with awake := s.awake.erase p }.enqueue capacity p
  | .popInit w =>
    if s.initialized ∨ (s.blocked ≠ [] ∧ s.blocked.length ≤ w) then none
    else some (s.popInitMessage capacity w s.queue)
  | .popDraw w =>
    if s.initialized = false ∨ (s.blocked ≠ [] ∧ s.blocked.length ≤ w) then none
    else some (s.popDrawMessage capacity w s.queue)

def start : State := {}

/-- The draw messages pushed after the first INIT message, in push order. -/
def due (pushed : List Message) : List Message :=
  (pushed.dropWhile (!·.isInit)).filter Message.isDraw

/-- A producer is blocked and not going to be woken, with room in the queue. -/
def Stranded (capacity : ℕ) (s : State) : Prop :=
  s.blocked ≠ [] ∧ s.queue.length < capacity ∧ s.signalled = []

/-- What the signalled producers make of a state when they run, some or all of them. -/
def Settles (capacity : ℕ) (s s' : State) : Prop :=
  ∃ es, (∀ e ∈ es, ∃ t, e = .wake t) ∧ run (step capacity) s es = some s'

/-- The queue once the first message for which `wanted` holds has been taken. -/
def afterFirst (wanted : Message → Bool) (queue : List Message) : List Message :=
  (queue.dropWhile (!wanted ·)).tail

/-- A pop leaves room for as many producers as have been signalled, or leaves none blocked.
It sends one more signal when it finds the queue full. -/
def Spares (capacity : ℕ) (s : State) (rest : List Message) : Prop :=
  if s.queue.length = capacity then
    s.blocked.length ≤ 1 ∨ capacity - rest.length ≤ s.signalled.length + 1
  else s.blocked = [] ∨ capacity - rest.length ≤ s.signalled.length

/-- No pop takes more messages than there are producers on the way, while others are blocked. -/
def InTime (capacity : ℕ) (s : State) : Event → Prop
  | .popInit _ => Spares capacity s (afterFirst Message.isInit s.queue)
  | .popDraw _ => Spares capacity s (afterFirst Message.isDraw s.queue)
  | _ => True

@[simp] theorem signal_pushed (s : State) (w : ℕ) : (s.signal w).pushed = s.pushed := by
  unfold State.signal
  split <;> rfl

@[simp] theorem signal_delivered (s : State) (w : ℕ) : (s.signal w).delivered = s.delivered := by
  unfold State.signal
  split <;> rfl

@[simp] theorem signal_initialized (s : State) (w : ℕ) :
    (s.signal w).initialized = s.initialized := by
  unfold State.signal
  split <;> rfl

@[simp] theorem signalFull_pushed (capacity w : ℕ) (s : State) (queue : List Message) :
    (s.signalFull capacity w queue).pushed = s.pushed := by
  unfold State.signalFull
  split
  · exact signal_pushed s w
  · rfl

@[simp] theorem signalFull_delivered (capacity w : ℕ) (s : State) (queue : List Message) :
    (s.signalFull capacity w queue).delivered = s.delivered := by
  unfold State.signalFull
  split
  · exact signal_delivered s w
  · rfl

@[simp] theorem signalFull_initialized (capacity w : ℕ) (s : State) (queue : List Message) :
    (s.signalFull capacity w queue).initialized = s.initialized := by
  unfold State.signalFull
  split
  · exact signal_initialized s w
  · rfl

theorem signal_of_nil {s : State} (h : s.blocked = []) (w : ℕ) : s.signal w = s := by
  simp [State.signal, h]

theorem signal_of_lt {s : State} {w : ℕ} (h : w < s.blocked.length) :
    (s.signal w).blocked.length = s.blocked.length - 1 ∧
      (s.signal w).signalled.length = s.signalled.length + 1 := by
  rw [State.signal, List.getElem?_eq_getElem h]
  exact ⟨List.length_eraseIdx_of_lt h, List.length_cons⟩

/-- What a pop does to the producers, which it does on its first turn through the loop. -/
def served (capacity w : ℕ) (s : State) (queue : List Message) : State :=
  if queue = [] then s else s.signalFull capacity w queue

theorem served_cons (capacity w : ℕ) (s : State) (m : Message) (rest : List Message) :
    served capacity w s (m :: rest) = s.signalFull capacity w (m :: rest) :=
  if_neg (List.cons_ne_nil m rest)

/-- The rest of a queue that fits is not full. -/
theorem served_of_lt {capacity : ℕ} (w : ℕ) (s : State) {queue : List Message}
    (h : queue.length < capacity) : served capacity w s queue = s := by
  rw [served, State.signalFull, if_neg (Nat.ne_of_lt h), ite_self]

/-- What the two pops do alike. -/
structure Popped (capacity w : ℕ) (s : State) (queue rest : List Message) (s' : State) : Prop where
  left : s'.queue = rest
  blocked : s'.blocked = (served capacity w s queue).blocked
  signalled : s'.signalled = (served capacity w s queue).signalled
  pushed : s'.pushed = s.pushed

theorem Popped.next {capacity w : ℕ} {s t s' : State} {m : Message} {queue rest : List Message}
    (h : Popped capacity w t queue rest s') (hlen : (m :: queue).length ≤ capacity)
    (hb : t.blocked = (s.signalFull capacity w (m :: queue)).blocked)
    (hs : t.signalled = (s.signalFull capacity w (m :: queue)).signalled)
    (hp : t.pushed = s.pushed) :
    Popped capacity w s (m :: queue) rest s' := by
  have hserved : served capacity w t queue = t := served_of_lt w t (Nat.lt_of_succ_le hlen)
  obtain ⟨hqueue, hblocked, hsignalled, hpushed⟩ := h
  rw [hserved] at hblocked hsignalled
  rw [← served_cons] at hb hs
  exact ⟨hqueue, hblocked.trans hb, hsignalled.trans hs, hpushed.trans hp⟩

theorem popInit_popped {capacity w : ℕ} {s : State} {queue : List Message}
    (h : queue.length ≤ capacity) :
    Popped capacity w s queue (afterFirst Message.isInit queue)
      (s.popInitMessage capacity w queue) := by
  induction queue generalizing s with
  | nil => exact ⟨rfl, rfl, rfl, rfl⟩
  | cons m queue ih =>
    cases m with
    | init width height =>
      constructor
      · rfl
      · rw [served_cons]
        rfl
      · rw [served_cons]
        rfl
      · exact signalFull_pushed ..
    | fillRect x0 y0 x1 y1 color_argb =>
      exact (ih (Nat.le_of_succ_le h)).next h rfl rfl (signalFull_pushed ..)
    | drawRect x0 y0 x1 y1 color_argb =>
      exact (ih (Nat.le_of_succ_le h)).next h rfl rfl (signalFull_pushed ..)

theorem popDraw_popped {capacity w : ℕ} {s : State} {queue : List Message}
    (h : queue.length ≤ capacity) :
    Popped capacity w s queue (afterFirst Message.isDraw queue)
      (s.popDrawMessage capacity w queue) := by
  induction queue generalizing s with
  | nil => exact ⟨rfl, rfl, rfl, rfl⟩
  | cons m queue ih =>
    cases m with
    | init width height => exact (ih (Nat.le_of_succ_le h)).next h rfl rfl (signalFull_pushed ..)
    | _ =>
      constructor
      · rfl
      · rw [served_cons]
        rfl
      · rw [served_cons]
        rfl
      · exact signalFull_pushed ..

theorem popInit_effect (capacity w : ℕ) (s : State) (queue : List Message) :
    (s.popInitMessage capacity w queue).delivered = s.delivered ∧
      (s.popInitMessage capacity w queue).initialized =
        (s.initialized || queue.any Message.isInit) := by
  induction queue generalizing s with
  | nil => simp [State.popInitMessage]
  | cons m queue ih =>
    cases m with
    | init width height => simp [State.popInitMessage, Message.isInit]
    | fillRect x0 y0 x1 y1 color_argb => simp [State.popInitMessage, ih, Message.isInit]
    | drawRect x0 y0 x1 y1 color_argb => simp [State.popInitMessage, ih, Message.isInit]

/-- A pop delivers the first draw message, if there is one. -/
theorem popDraw_effect (capacity w : ℕ) (s : State) (queue : List Message) :
    (s.popDrawMessage capacity w queue).initialized = s.initialized ∧
      (s.popDrawMessage capacity w queue).delivered ++
          (afterFirst Message.isDraw queue).filter Message.isDraw =
        s.delivered ++ queue.filter Message.isDraw ∧
      s.delivered.length ≤ (s.popDrawMessage capacity w queue).delivered.length ∧
      (queue.filter Message.isDraw ≠ [] →
        (s.popDrawMessage capacity w queue).delivered.length = s.delivered.length + 1) := by
  induction queue generalizing s with
  | nil => simp [State.popDrawMessage, afterFirst]
  | cons m queue ih =>
    cases m with
    | init width height =>
      have := ih (s.signalFull capacity w (.init width height :: queue))
      simpa [State.popDrawMessage, afterFirst, Message.isDraw] using this
    | fillRect x0 y0 x1 y1 color_argb =>
      refine ⟨?_, ?_, ?_, fun _ => ?_⟩
      · exact signalFull_initialized ..
      · rw [List.filter_cons_of_pos rfl]
        simp [State.popDrawMessage, afterFirst, Message.isDraw]
      · simp [State.popDrawMessage]
      · simp [State.popDrawMessage]
    | drawRect x0 y0 x1 y1 color_argb =>
      refine ⟨?_, ?_, ?_, fun _ => ?_⟩
      · exact signalFull_initialized ..
      · rw [List.filter_cons_of_pos rfl]
        simp [State.popDrawMessage, afterFirst, Message.isDraw]
      · simp [State.popDrawMessage]
      · simp [State.popDrawMessage]

theorem due_of_none {l : List Message} (h : l.any Message.isInit = false) : due l = [] := by
  have hall : ∀ m ∈ l, m.isInit = false := by simpa using h
  rw [due, List.dropWhile_eq_nil_iff.mpr fun m hm => by simp [hall m hm]]
  rfl

/-- A message is due when it is a draw message and comes after an INIT message. -/
theorem due_append (l : List Message) (m : Message) :
    due (l ++ [m]) = due l ++ if l.any Message.isInit then [m].filter Message.isDraw else [] := by
  induction l with
  | nil => cases m <;> simp [due, Message.isInit, Message.isDraw]
  | cons a l ih =>
    cases a with
    | init width height => simp [due, Message.isInit, Message.isDraw]
    | fillRect x0 y0 x1 y1 color_argb => simpa [due, Message.isInit] using ih
    | drawRect x0 y0 x1 y1 color_argb => simpa [due, Message.isInit] using ih

theorem due_afterFirst {l : List Message} :
    (afterFirst Message.isInit l).filter Message.isDraw = due l := by
  induction l with
  | nil => rfl
  | cons a l ih =>
    cases a with
    | init width height => simp [due, afterFirst, Message.isInit, Message.isDraw]
    | fillRect x0 y0 x1 y1 color_argb => simpa [due, afterFirst, Message.isInit] using ih
    | drawRect x0 y0 x1 y1 color_argb => simpa [due, afterFirst, Message.isInit] using ih

theorem afterFirst_length_le (wanted : Message → Bool) (l : List Message) :
    (afterFirst wanted l).length ≤ l.length := by
  rw [afterFirst, List.length_tail]
  have := (List.dropWhile_suffix (!wanted ·) (l := l)).length_le
  omega

/-- The bound, and where the messages are. -/
structure Inv (capacity : ℕ) (s : State) : Prop where
  bound : s.queue.length ≤ capacity
  before : s.initialized = false → s.delivered = [] ∧ due s.pushed = due s.queue ∧
    s.pushed.any Message.isInit = s.queue.any Message.isInit
  after : s.initialized = true → s.delivered ++ s.queue.filter Message.isDraw = due s.pushed ∧
    s.pushed.any Message.isInit = true

theorem start_inv (capacity : ℕ) : Inv capacity start := by
  constructor
  · exact Nat.zero_le capacity
  · intro _
    exact ⟨rfl, rfl, rfl⟩
  · intro h
    cases h

/-- A step that leaves the messages where they are. -/
structure Same (s s' : State) : Prop where
  queue : s'.queue = s.queue
  pushed : s'.pushed = s.pushed
  delivered : s'.delivered = s.delivered
  initialized : s'.initialized = s.initialized

theorem Inv.same {capacity : ℕ} {s s' : State} (h : Inv capacity s) (hs : Same s s') :
    Inv capacity s' := by
  obtain ⟨hqueue, hpushed, hdelivered, hinitialized⟩ := hs
  constructor
  · rw [hqueue]
    exact h.bound
  · rw [hqueue, hpushed, hdelivered, hinitialized]
    exact h.before
  · rw [hqueue, hpushed, hdelivered, hinitialized]
    exact h.after

theorem Inv.enqueue {capacity : ℕ} {s : State} (h : Inv capacity s) (p : Producer) :
    Inv capacity (s.enqueue capacity p) := by
  by_cases hfull : s.queue.length ≥ capacity
  · rw [State.enqueue, if_pos hfull]
    exact h.same ⟨rfl, rfl, rfl, rfl⟩
  · rw [State.enqueue, if_neg hfull]
    constructor
    · have hlength : (s.queue ++ [p.2]).length = s.queue.length + 1 := by simp
      exact hlength ▸ Nat.lt_of_not_le hfull
    · intro hinit
      obtain ⟨hdelivered, hdue, hany⟩ := h.before hinit
      refine ⟨hdelivered, ?_, ?_⟩
      · rw [due_append, due_append, hdue, hany]
      · rw [List.any_append, List.any_append, hany]
    · intro hinit
      obtain ⟨hdelivered, hany⟩ := h.after hinit
      constructor
      · rw [due_append, hany, if_pos rfl, List.filter_append, ← List.append_assoc, hdelivered]
      · rw [List.any_append, hany, Bool.true_or]

theorem Inv.popInit {capacity : ℕ} {s : State} (h : Inv capacity s) (w : ℕ)
    (hinit : s.initialized = false) : Inv capacity (s.popInitMessage capacity w s.queue) := by
  have hpopped := popInit_popped (w := w) (s := s) h.bound
  obtain ⟨hdelivered, hinitialized⟩ := popInit_effect capacity w s s.queue
  obtain ⟨hnone, hdue, hany⟩ := h.before hinit
  rw [hinit, Bool.false_or] at hinitialized
  constructor
  · rw [hpopped.left]
    exact (afterFirst_length_le _ _).trans h.bound
  · intro hno
    rw [hinitialized] at hno
    have hdrop : ∀ m ∈ s.queue, m.isInit = false := by simpa using hno
    have hempty : afterFirst Message.isInit s.queue = [] := by
      rw [afterFirst, List.dropWhile_eq_nil_iff.mpr fun m hm => by simp [hdrop m hm]]
      rfl
    rw [hpopped.left, hpopped.pushed, hdelivered, hempty, hdue, hany, hno, due_of_none hno]
    exact ⟨hnone, rfl, rfl⟩
  · intro hyes
    rw [hinitialized] at hyes
    rw [hpopped.left, hpopped.pushed, hdelivered, hnone, List.nil_append, due_afterFirst]
    exact ⟨hdue.symm, hany.trans hyes⟩

theorem Inv.popDraw {capacity : ℕ} {s : State} (h : Inv capacity s) (w : ℕ)
    (hinit : s.initialized = true) : Inv capacity (s.popDrawMessage capacity w s.queue) := by
  have hpopped := popDraw_popped (w := w) (s := s) h.bound
  obtain ⟨hinitialized, hdelivered, -, -⟩ := popDraw_effect capacity w s s.queue
  obtain ⟨hall, hany⟩ := h.after hinit
  constructor
  · rw [hpopped.left]
    exact (afterFirst_length_le _ _).trans h.bound
  · intro hno
    rw [hinitialized, hinit] at hno
    cases hno
  · intro _
    rw [hpopped.left, hpopped.pushed, hdelivered]
    exact ⟨hall, hany⟩

theorem step_inv (capacity : ℕ) : Preserves (step capacity) (Inv capacity) := by
  intro s e s' h hs
  cases e with
  | push t message =>
    simp only [step] at h
    split at h
    · cases h
    · cases h
      exact hs.enqueue _
  | wake t =>
    obtain ⟨p, -, rfl⟩ := Option.map_eq_some_iff.mp h
    have hsame : Inv capacity { s with signalled := s.signalled.erase p } :=
      hs.same ⟨rfl, rfl, rfl, rfl⟩
    exact hsame.enqueue p
  | spurious t =>
    obtain ⟨p, -, rfl⟩ := Option.map_eq_some_iff.mp h
    exact hs.same ⟨rfl, rfl, rfl, rfl⟩
  | retry t =>
    obtain ⟨p, -, rfl⟩ := Option.map_eq_some_iff.mp h
    have hsame : Inv capacity { s with awake := s.awake.erase p } :=
      hs.same ⟨rfl, rfl, rfl, rfl⟩
    exact hsame.enqueue p
  | popInit w =>
    simp only [step] at h
    split at h
    · cases h
    · rename_i hguard
      cases h
      apply hs.popInit
      simpa using fun hinit => hguard (Or.inl hinit)
  | popDraw w =>
    simp only [step] at h
    split at h
    · cases h
    · rename_i hguard
      cases h
      apply hs.popDraw
      simpa using fun hinit => hguard (Or.inl hinit)

/-- Unless no producer is blocked, there is a signalled one for each free place. -/
def Covered (capacity : ℕ) (s : State) : Prop :=
  s.blocked = [] ∨ capacity - s.queue.length ≤ s.signalled.length

theorem Covered.not_stranded {capacity : ℕ} {s : State} (h : Covered capacity s) :
    ¬Stranded capacity s := by
  rintro ⟨hblocked, hroom, hsignalled⟩
  rcases h with h | h
  · exact hblocked h
  · rw [hsignalled, List.length_nil] at h
    omega

/-- A producer that looks at the queue may use up one signal. -/
theorem covered_enqueue {capacity : ℕ} {s : State} (p : Producer)
    (h : s.blocked = [] ∨ capacity - s.queue.length ≤ s.signalled.length + 1) :
    Covered capacity (s.enqueue capacity p) := by
  by_cases hfull : s.queue.length ≥ capacity
  · rw [State.enqueue, if_pos hfull]
    refine Or.inr ?_
    change capacity - s.queue.length ≤ s.signalled.length
    omega
  · rw [State.enqueue, if_neg hfull]
    refine h.imp id fun h => ?_
    change capacity - (s.queue ++ [p.2]).length ≤ s.signalled.length
    rw [List.length_append, List.length_singleton]
    omega

theorem Covered.weaken {capacity : ℕ} {s : State} (h : Covered capacity s) :
    s.blocked = [] ∨ capacity - s.queue.length ≤ s.signalled.length + 1 :=
  h.imp id Nat.le_succ_of_le

theorem wake_length {s : State} {t : ℕ} {p : Producer}
    (h : s.signalled.find? (·.1 = t) = some p) :
    (s.signalled.erase p).length + 1 = s.signalled.length := by
  have hmem := List.mem_of_find?_eq_some h
  rw [List.length_erase_of_mem hmem]
  have := List.length_pos_of_mem hmem
  omega

theorem wake_covered {capacity : ℕ} {s s' : State} {t : ℕ}
    (h : step capacity s (.wake t) = some s') (hs : Covered capacity s) : Covered capacity s' := by
  obtain ⟨p, hp, rfl⟩ := Option.map_eq_some_iff.mp h
  apply covered_enqueue
  refine hs.imp id fun hs => ?_
  change _ ≤ (s.signalled.erase p).length + 1
  rwa [wake_length hp]

/-- Exactly the pops that are in time leave no producer uncovered. -/
theorem popped_covered {capacity w : ℕ} {s s' : State} {rest : List Message}
    (hs : Covered capacity s) (hw : ¬(s.blocked ≠ [] ∧ s.blocked.length ≤ w))
    (hbound : s.queue.length ≤ capacity)
    (h : Popped capacity w s s.queue rest s') :
    Covered capacity s' ↔ Spares capacity s rest := by
  rw [Covered, h.left, h.blocked, h.signalled, Spares]
  by_cases hfull : s.queue.length = capacity
  · rw [if_pos hfull]
    by_cases hempty : s.queue = []
    · have hzero : capacity = 0 := by rw [← hfull, hempty, List.length_nil]
      subst hzero
      simp
    · rw [served, if_neg hempty, State.signalFull, if_pos hfull]
      by_cases hnone : s.blocked = []
      · rw [signal_of_nil hnone]
        simp [hnone]
      · have hlt : w < s.blocked.length := Nat.lt_of_not_le fun hle => hw ⟨hnone, hle⟩
        obtain ⟨hblocked, hsignalled⟩ := signal_of_lt hlt
        rw [hsignalled, ← List.length_eq_zero_iff, hblocked]
        exact or_congr_left (by omega)
  · rw [if_neg hfull, served_of_lt w s (by omega)]

theorem step_covered {capacity : ℕ} {s s' : State} {e : Event} (hinv : Inv capacity s)
    (hs : Covered capacity s) (h : step capacity s e = some s') :
    Covered capacity s' ↔ InTime capacity s e := by
  cases e with
  | push t message =>
    apply iff_of_true _ trivial
    simp only [step] at h
    split at h
    · cases h
    · cases h
      exact covered_enqueue _ hs.weaken
  | wake t => exact iff_of_true (wake_covered h hs) trivial
  | spurious t =>
    apply iff_of_true _ trivial
    obtain ⟨p, -, rfl⟩ := Option.map_eq_some_iff.mp h
    refine hs.imp (fun hs => ?_) id
    change s.blocked.erase p = []
    rw [hs]
    rfl
  | retry t =>
    apply iff_of_true _ trivial
    obtain ⟨p, -, rfl⟩ := Option.map_eq_some_iff.mp h
    exact covered_enqueue p hs.weaken
  | popInit w =>
    simp only [step] at h
    split at h
    · cases h
    · rename_i hguard
      cases h
      exact popped_covered hs (fun hw => hguard (Or.inr hw)) hinv.bound
        (popInit_popped hinv.bound)
  | popDraw w =>
    simp only [step] at h
    split at h
    · cases h
    · rename_i hguard
      cases h
      exact popped_covered hs (fun hw => hguard (Or.inr hw)) hinv.bound
        (popDraw_popped hinv.bound)

theorem Covered.settles {capacity : ℕ} {s s' : State} (hs : Covered capacity s)
    (h : Settles capacity s s') : Covered capacity s' := by
  obtain ⟨es, hwake, hr⟩ := h
  induction es generalizing s with
  | nil =>
    cases hr
    exact hs
  | cons e es ih =>
    obtain ⟨u, rfl⟩ := hwake e List.mem_cons_self
    obtain ⟨t, ht, hrest⟩ := run_cons_eq_some.mp hr
    exact ih (wake_covered ht hs) (fun f hf => hwake f (List.mem_cons_of_mem _ hf)) hrest

/-- Once there are fewer signals than free places, the signalled producers leave one stranded. -/
theorem settles_stranded {capacity : ℕ} {s : State} (h : ¬Covered capacity s) :
    ∃ s', Settles capacity s s' ∧ Stranded capacity s' := by
  obtain ⟨hblocked, hroom⟩ := not_or.mp h
  induction hn : s.signalled.length generalizing s with
  | zero =>
    refine ⟨s, ⟨[], ?_, rfl⟩, hblocked, by omega, List.length_eq_zero_iff.mp hn⟩
    intro e he
    cases he
  | succ n ih =>
    obtain ⟨p, rest, hp⟩ := List.exists_cons_of_length_eq_add_one hn
    have hlen : rest.length = n := by simpa [hp] using hn
    have hstep : step capacity s (.wake p.1) =
        some { s with signalled := rest, queue := s.queue ++ [p.2], pushed := s.pushed ++ [p.2] } := by
      have hfull : ¬s.queue.length ≥ capacity := by omega
      simp [step, hp, State.enqueue, hfull]
    have hqueue : (s.queue ++ [p.2]).length = s.queue.length + 1 := by simp
    have hroom' : ¬capacity - (s.queue ++ [p.2]).length ≤ rest.length := by omega
    obtain ⟨s', ⟨es, hwake, hr⟩, hstranded⟩ := ih
      (s := { s with signalled := rest, queue := s.queue ++ [p.2], pushed := s.pushed ++ [p.2] })
      (not_or.mpr ⟨hblocked, hroom'⟩) hblocked hroom' hlen
    refine ⟨s', ⟨.wake p.1 :: es, ?_, run_cons_eq_some.mpr ⟨_, hstep, hr⟩⟩, hstranded⟩
    intro e he
    rcases List.mem_cons.mp he with rfl | he
    · exact ⟨p.1, rfl⟩
    · exact hwake e he

theorem covered_iff {capacity : ℕ} {s : State} :
    Covered capacity s ↔ ∀ s', Settles capacity s s' → ¬Stranded capacity s' := by
  constructor
  · intro h s' hs
    exact (h.settles hs).not_stranded
  · intro h
    by_contra hno
    obtain ⟨s', hs, hstranded⟩ := settles_stranded hno
    exact h s' hs hstranded

/-- A call of the consumer. -/
def Event.isPop : Event → Bool
  | .popInit _ => true
  | .popDraw _ => true
  | _ => false

def State.toInit (s : State) : ℕ := if s.initialized then 0 else 1

theorem due_prefix {l : List Message} (m : Message) : due l <+: due (l ++ [m]) := by
  rw [due_append]
  exact List.prefix_append _ _

/-- The messages and the flag after a step, which only the two pops change. -/
theorem step_messages {capacity : ℕ} {s s' : State} {e : Event} (h : step capacity s e = some s')
    (he : e.isPop = false) :
    s'.delivered = s.delivered ∧ s'.initialized = s.initialized ∧
      (s'.pushed = s.pushed ∨ ∃ m, s'.pushed = s.pushed ++ [m]) := by
  have henqueue : ∀ (s : State) (p : Producer), (s.enqueue capacity p).delivered = s.delivered ∧
      (s.enqueue capacity p).initialized = s.initialized ∧
        ((s.enqueue capacity p).pushed = s.pushed ∨
          ∃ m, (s.enqueue capacity p).pushed = s.pushed ++ [m]) := by
    intro s p
    unfold State.enqueue
    split
    · exact ⟨rfl, rfl, Or.inl rfl⟩
    · exact ⟨rfl, rfl, Or.inr ⟨p.2, rfl⟩⟩
  cases e with
  | push t message =>
    simp only [step] at h
    split at h
    · cases h
    · cases h
      exact henqueue s _
  | wake t =>
    obtain ⟨p, -, rfl⟩ := Option.map_eq_some_iff.mp h
    exact henqueue { s with signalled := s.signalled.erase p } p
  | spurious t =>
    obtain ⟨p, -, rfl⟩ := Option.map_eq_some_iff.mp h
    exact ⟨rfl, rfl, Or.inl rfl⟩
  | retry t =>
    obtain ⟨p, -, rfl⟩ := Option.map_eq_some_iff.mp h
    exact henqueue { s with awake := s.awake.erase p } p
  | popInit w => cases he
  | popDraw w => cases he

/-- What one step does to the number of messages delivered. -/
structure Advances (s s' : State) (calls : ℕ) : Prop where
  due : due s.pushed <+: due s'.pushed
  init : s.pushed.any Message.isInit = true → s'.pushed.any Message.isInit = true
  delivered : s.delivered.length ≤ s'.delivered.length
  call : s.pushed.any Message.isInit = true →
    (EventQueue.due s.pushed).length ≤ s'.delivered.length ∨
      s.delivered.length + calls + s'.toInit ≤ s'.delivered.length + s.toInit

theorem step_advances {capacity : ℕ} {s s' : State} {e : Event} (hs : Inv capacity s)
    (h : step capacity s e = some s') : Advances s s' (if e.isPop then 1 else 0) := by
  by_cases he : e.isPop = false
  · obtain ⟨hdelivered, hinitialized, hpushed⟩ := step_messages h he
    have htoInit : s'.toInit = s.toInit := by rw [State.toInit, hinitialized, State.toInit]
    have hcall : s.delivered.length + (if e.isPop then 1 else 0) + s'.toInit ≤
        s'.delivered.length + s.toInit := by
      rw [he, hdelivered, htoInit]
      exact le_rfl
    rcases hpushed with hpushed | ⟨m, hpushed⟩
    · refine ⟨?_, ?_, hdelivered ▸ le_rfl, fun _ => Or.inr hcall⟩
      · exact hpushed ▸ List.prefix_rfl
      · rw [hpushed]
        exact id
    · refine ⟨?_, ?_, hdelivered ▸ le_rfl, fun _ => Or.inr hcall⟩
      · rw [hpushed]
        exact due_prefix m
      · intro hany
        rw [hpushed, List.any_append, hany, Bool.true_or]
  · have hpop : e.isPop = true := by simpa using he
    rw [if_pos hpop]
    cases e with
    | popInit w =>
      simp only [step] at h
      split at h
      · cases h
      · rename_i hguard
        cases h
        have hinit : s.initialized = false := by simpa using fun hinit => hguard (Or.inl hinit)
        have hpushed := (popInit_popped (w := w) (s := s) hs.bound).pushed
        obtain ⟨hdelivered, hinitialized⟩ := popInit_effect capacity w s s.queue
        refine ⟨?_, ?_, hdelivered ▸ le_rfl, fun hany => Or.inr ?_⟩
        · exact hpushed ▸ List.prefix_rfl
        · rw [hpushed]
          exact id
        · rw [(hs.before hinit).2.2] at hany
          rw [hany, Bool.or_true] at hinitialized
          rw [State.toInit, State.toInit, hinitialized, hinit, hdelivered]
          exact le_rfl
    | popDraw w =>
      simp only [step] at h
      split at h
      · cases h
      · rename_i hguard
        cases h
        have hinit : s.initialized = true := by simpa using fun hinit => hguard (Or.inl hinit)
        have hpushed := (popDraw_popped (w := w) (s := s) hs.bound).pushed
        obtain ⟨hinitialized, -, hmono, hone⟩ := popDraw_effect capacity w s s.queue
        have hcall : (due s.pushed).length ≤
            (s.popDrawMessage capacity w s.queue).delivered.length ∨
              s.delivered.length + 1 = (s.popDrawMessage capacity w s.queue).delivered.length := by
          by_cases hnone : s.queue.filter Message.isDraw = []
          · refine Or.inl ?_
            rw [← (hs.after hinit).1, hnone, List.append_nil]
            exact hmono
          · exact Or.inr (hone hnone).symm
        refine ⟨?_, ?_, ?_, fun _ => hcall.imp id fun hcall => ?_⟩
        · exact hpushed ▸ List.prefix_rfl
        · rw [hpushed]
          exact id
        · exact hmono
        · rw [State.toInit, State.toInit, hinitialized, hcall]
    | _ => cases hpop

/-- Each call of the consumer delivers a message, as long as the messages due at the beginning
have not all been delivered. -/
theorem run_advances {capacity : ℕ} {s z : State} {es : List Event} (hs : Inv capacity s)
    (hany : s.pushed.any Message.isInit = true) (hr : run (step capacity) s es = some z) :
    due s.pushed <+: due z.pushed ∧ s.delivered.length ≤ z.delivered.length ∧
      ((due s.pushed).length ≤ z.delivered.length ∨
        s.delivered.length + es.countP Event.isPop ≤ z.delivered.length + s.toInit) := by
  induction es generalizing s with
  | nil =>
    cases hr
    exact ⟨List.prefix_rfl, le_rfl, Or.inr (Nat.le_add_right _ _)⟩
  | cons e es ih =>
    obtain ⟨t, ht, hr⟩ := run_cons_eq_some.mp hr
    have hadv := step_advances hs ht
    obtain ⟨hdue, hdelivered, hcalls⟩ := ih (step_inv capacity ht hs) (hadv.init hany) hr
    refine ⟨hadv.due.trans hdue, hadv.delivered.trans hdelivered, ?_⟩
    rw [List.countP_cons]
    rcases hcalls with hcalls | hcalls
    · exact Or.inl (hadv.due.length_le.trans hcalls)
    · refine (hadv.call hany).imp (fun hcall => hcall.trans hdelivered) fun hcall => ?_
      omega

theorem delivered_prefix {capacity : ℕ} {s : State} (h : Inv capacity s) :
    s.delivered <+: due s.pushed := by
  by_cases hinit : s.initialized = true
  · rw [← (h.after hinit).1]
    exact List.prefix_append _ _
  · rw [(h.before (by simpa using hinit)).1]
    exact List.nil_prefix

/-- The queue stays within its capacity. What has been delivered are the draw messages pushed
after the first INIT message, once each and in push order, up to a point; each call of the
consumer goes one further. The producers that are signalled never leave another one stranded
exactly when every pop takes no more messages than there are producers on the way. -/
theorem messages_delivered {capacity : ℕ} {es : List Event} {z : State}
    (hr : run (step capacity) start es = some z) :
    z.queue.length ≤ capacity ∧ z.delivered <+: due z.pushed ∧
      (∀ fs z', run (step capacity) z fs = some z' → z.pushed.any Message.isInit = true →
        (due z.pushed).length < z.delivered.length + fs.countP Event.isPop →
        due z.pushed <+: z'.delivered) ∧
      ((∀ n s, run (step capacity) start (es.take n) = some s →
          ∀ s', Settles capacity s s' → ¬Stranded capacity s') ↔
        Meets (step capacity) (InTime capacity) start es) := by
  have hinv := (step_inv capacity).run hr (start_inv capacity)
  refine ⟨hinv.bound, delivered_prefix hinv, ?_, ?_⟩
  · intro fs z' hfs hany hcalls
    obtain ⟨hdue, -, hcall⟩ := run_advances hinv hany hfs
    have hprefix := delivered_prefix ((step_inv capacity).run hfs hinv)
    apply List.prefix_of_prefix_length_le hdue hprefix
    rcases hcall with hcall | hcall
    · exact hcall
    · have : z.toInit ≤ 1 := by
        unfold State.toInit
        split <;> omega
      omega
  · rw [← always_iff_meets (step_inv capacity) (fun _ _ _ _ hj hi h => step_covered hj hi h) hr
      (start_inv capacity) (Or.inl rfl)]
    apply forall_congr'
    intro n
    apply forall_congr'
    intro s
    rw [covered_iff]

def windowInit : Message := .init 320 240
def pixel : Message := .fillRect 0 0 0 0 0

def line : Message := .fillRect 0 0 9 0 0
def picture : Message := .drawRect 0 0 9 9 1

/-- Two messages fill the queue, and a producer blocks with a third. -/
def filling : List Event :=
  [.push 0 windowInit, .popInit 0, .push 0 pixel, .push 0 line, .push 1 picture]

def drawing : List Event := [.popDraw 0, .wake 1, .popDraw 0, .popDraw 0]

theorem drawing_inTime : Meets (step 2) (InTime 2) start (filling ++ drawing) := by
  have spares : ∀ {s : State} {rest : List Message}, (s.queue.length == 2) = true →
      s.blocked.length ≤ 1 → Spares 2 s rest := by
    intro s rest hfull hblocked
    rw [Spares, if_pos (beq_iff_eq.mp hfull)]
    exact Or.inl hblocked
  have idle : ∀ {s : State} {rest : List Message}, (s.queue.length == 2) = false →
      s.blocked = [] → Spares 2 s rest := by
    intro s rest hfull hblocked
    rw [Spares, if_neg (beq_eq_false_iff_ne.mp hfull)]
    exact Or.inl hblocked
  exact .cons trivial rfl (.cons (idle rfl rfl) rfl (.cons trivial rfl (.cons trivial rfl
    (.cons trivial rfl (.cons (spares rfl (by decide)) rfl (.cons trivial rfl
      (.cons (spares rfl (by decide)) rfl (.cons (idle rfl rfl) rfl trivial))))))))

/-- Each pop takes one message, the producer that blocked gets its message in, and nobody is
left stranded. -/
theorem messages_delivered_drawn : ∃ y z, run (step 2) start filling = some y ∧
    y.queue = [pixel, line] ∧ y.blocked = [(1, picture)] ∧ run (step 2) y drawing = some z ∧
    due y.pushed <+: z.delivered ∧ z.delivered = [pixel, line, picture] ∧ ¬Stranded 2 z := by
  have hsound := @messages_delivered 2 (filling ++ drawing) _ rfl
  refine ⟨_, _, rfl, rfl, rfl, rfl, ?_, rfl, ?_⟩
  · exact (@messages_delivered 2 filling _ rfl).2.2.1 drawing _ rfl rfl (by decide)
  · exact hsound.2.2.2.mpr drawing_inTime 9 _ rfl _ ⟨[], by simp, rfl⟩

/-- The queue of an initialized window, with `n` pixels to draw. -/
def loaded (n : ℕ) : State :=
  { queue := List.replicate n pixel
    initialized := true
    pushed := windowInit :: List.replicate n pixel }

theorem run_loaded {capacity n : ℕ} (h : n ≤ capacity) :
    run (step capacity) (loaded 0) (List.replicate n (.push 0 pixel)) = some (loaded n) := by
  induction n with
  | zero => rfl
  | succ n ih =>
    rw [List.replicate_succ', run_append, ih (Nat.le_of_succ_le h), Option.bind_some, run_cons]
    have hroom : ¬capacity ≤ n := Nat.not_le.mpr h
    simp [step, loaded, State.producers, State.enqueue, hroom, List.replicate_succ']

/-- Two producers block on a full queue and two pops follow: the second one sends no signal, and
the producer that the first one has signalled leaves the other stranded. -/
def overrun (capacity : ℕ) : List Event :=
  [.push 0 windowInit, .popInit 0] ++ List.replicate capacity (.push 0 pixel) ++
    [.push 1 pixel, .push 2 pixel, .popDraw 1, .popDraw 0, .wake 1]

theorem popDraw_pixel (capacity w : ℕ) (s : State) (rest : List Message) :
    s.popDrawMessage capacity w (pixel :: rest) =
      { s.signalFull capacity w (pixel :: rest) with
        queue := rest
        delivered := (s.signalFull capacity w (pixel :: rest)).delivered ++ [pixel] } := rfl

theorem overrun_stranded (n : ℕ) :
    ∃ z, run (step (n + 2)) start (overrun (n + 2)) = some z ∧ Stranded (n + 2) z := by
  have hinit : run (step (n + 2)) start [.push 0 windowInit, .popInit 0] = some (loaded 0) := by
    simp [run_cons, step, start, State.producers, State.enqueue, State.popInitMessage, windowInit,
      State.signalFull, loaded]
  rw [overrun, run_append, run_append, hinit, Option.bind_some, run_loaded le_rfl, Option.bind_some]
  have hroom : ¬n + 2 ≤ n := by omega
  simp [run_cons, step, loaded, State.producers, State.enqueue, List.replicate_succ, popDraw_pixel,
    State.signalFull, State.signal, Stranded, hroom]

/-- With the capacity of the viewport's own queue. -/
theorem overrun_blocked :
    ¬∀ es z, run (step 100000) start es = some z → ¬Stranded 100000 z := by
  intro h
  obtain ⟨z, hz, hstranded⟩ := overrun_stranded 99998
  exact h _ z hz hstranded

end RooTesting.EventQueue
