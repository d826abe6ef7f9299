import RooTesting.ConsoleUart

/-! # Output on the console of the host

Any number of threads write at once. The host takes as many bytes of a write as it likes, and each
thread goes on until all of its own are out. -/
namespace RooTesting.ConsoleOutput
open ConsoleUart Transition Threads

/-- What `write` answers, and for a full output whether the runtime could delay. -/
inductive Written where
  | interrupted
  | again (delayed : Bool)
  | failed
  | count (count : ℕ)
  deriving DecidableEq

/-- What `poll` of the output answers. -/
inductive Polled where
  | interrupted | failed
  | ready (failure : Bool)
  deriving DecidableEq

/-- A thread that writes: the rest of the current buffer, and what the USB port has behind it.
`polling` waits for the output. -/
inductive Writer where
  | idle
  | writing (chunk later : Bytes)
  | polling (chunk later : Bytes)
  deriving DecidableEq

/-- Where a thread is, and what it has been asked to write so far. -/
structure Local where
  id : ℕ
  writer : Writer := .idle
  asked : Bytes := []
  deriving DecidableEq

/-- The bytes that are out, with the threads that wrote them. -/
structure Output where
  running : Bool := false
  written : List (ℕ × Byte) := []

def uint16Max : ℕ := 65535

/-- The next buffer of the USB port, or the return to the caller. -/
def next (later : Bytes) : Writer :=
  if later = [] then .idle else .writing (later.take uint16Max) (later.drop uint16Max)

inductive Event where
  | write (buf : Bytes)
  | usbBegin
  | usbEnd
  | usbWrite (bytes : Bytes)
  | written (answer : Written)
  | polled (answer : Polled)
  deriving DecidableEq

/-- A failed check ends the program. The host takes no more than it is offered. -/
def program : Program Output Local Event
  | .write buf, s, l =>
    if l.writer = .idle ∧ buf.length ≤ uint16Max then
      some (s, ⟨l.id, if buf = [] then .idle else .writing buf [], l.asked ++ buf⟩)
    else none
  | .usbBegin, s, l => if l.writer = .idle then some ({ s with running := true }, l) else none
  | .usbEnd, s, l => if l.writer = .idle then some ({ s with running := false }, l) else none
  | .usbWrite bytes, s, l =>
    if l.writer ≠ .idle then none
    else if s.running = false then some (s, l)
    else some (s, ⟨l.id, next bytes, l.asked ++ bytes⟩)
  | .written answer, s, l =>
    match l.writer with
    | .writing chunk later =>
      match answer with
      | .interrupted => some (s, l)
      | .again true => some (s, l)
      | .again false => some (s, { l with writer := .polling chunk later })
      | .failed => none
      | .count count =>
        if 0 < count ∧ count ≤ chunk.length then
          some ({ s with written := s.written ++ (chunk.take count).map (l.id, ·) },
            { l with writer :=
                if chunk.drop count = [] then next later else .writing (chunk.drop count) later })
        else none
    | _ => none
  | .polled answer, s, l =>
    match l.writer with
    | .polling chunk later =>
      match answer with
      | .interrupted => some (s, l)
      | .failed => none
      | .ready true => none
      | .ready false => some (s, { l with writer := .writing chunk later })
    | _ => none

def start : Config Output Local := ⟨{}, fun t => { id := t }⟩

/-- What a thread has still to write. -/
def Writer.rest : Writer → Bytes
  | .idle => []
  | .writing chunk later | .polling chunk later => chunk ++ later

/-- The bytes of one thread, in the order in which they came out. -/
def bytesOf (t : ℕ) (written : List (ℕ × Byte)) : Bytes :=
  (written.filter fun p => p.1 = t).map Prod.snd

theorem bytesOf_append_self (t : ℕ) (written : List (ℕ × Byte)) (bytes : Bytes) :
    bytesOf t (written ++ bytes.map (t, ·)) = bytesOf t written ++ bytes := by
  rw [bytesOf, List.filter_append, List.map_append]
  congr 1
  induction bytes with
  | nil => rfl
  | cons byte bytes ih => simpa using ih

theorem bytesOf_append_of_ne {t u : ℕ} (h : u ≠ t) (written : List (ℕ × Byte)) (bytes : Bytes) :
    bytesOf u (written ++ bytes.map (t, ·)) = bytesOf u written := by
  rw [bytesOf, List.filter_append, List.map_append, bytesOf]
  have hnone : (bytes.map (t, ·)).filter (fun p : ℕ × Byte => p.1 = u) = [] := by
    rw [List.filter_eq_nil_iff]
    intro p hp
    obtain ⟨byte, -, rfl⟩ := List.mem_map.mp hp
    simpa using h.symm
  rw [hnone, List.map_nil, List.append_nil]

theorem rest_next (later : Bytes) : (next later).rest = later := by
  unfold next
  split_ifs with h
  · exact h.symm
  · exact List.take_append_drop _ _

/-- What is out and what is left are what the thread was asked to write. -/
def Accounted (s : Output) (l : Local) : Prop :=
  bytesOf l.id s.written ++ l.writer.rest = l.asked

/-- A step of a thread writes only bytes of that thread. -/
structure Own (s : Output) (l : Local) (s' : Output) (l' : Local) : Prop where
  id : l'.id = l.id
  written : ∃ bytes : Bytes, s'.written = s.written ++ bytes.map (l.id, ·)
  accounted : Accounted s l → Accounted s' l'

theorem program_own {e : Event} {s s' : Output} {l l' : Local}
    (h : program e s l = some (s', l')) : Own s l s' l' := by
  have hkeeps : ∀ {s' : Output} {l' : Local}, s'.written = s.written → l'.id = l.id →
      l'.writer.rest = l.writer.rest → l'.asked = l.asked → Own s l s' l' := by
    intro s' l' hwritten hid hrest hasked
    refine ⟨hid, ⟨[], hwritten.trans (List.append_nil _).symm⟩, fun hacc => ?_⟩
    rw [Accounted, hwritten, hid, hrest, hasked]
    exact hacc
  cases e with
  | write buf =>
    rw [program] at h
    split_ifs at h with hidle
    all_goals
      cases h
      refine ⟨rfl, ⟨[], (List.append_nil _).symm⟩, fun hacc => ?_⟩
      rw [Accounted, hidle.1, Writer.rest, List.append_nil] at hacc
      rw [Accounted, hacc]
    · rename_i hnil
      rw [hnil]
      rfl
    · simp [Writer.rest]
  | usbBegin =>
    rw [program] at h
    split_ifs at h
    cases h
    exact hkeeps rfl rfl rfl rfl
  | usbEnd =>
    rw [program] at h
    split_ifs at h
    cases h
    exact hkeeps rfl rfl rfl rfl
  | usbWrite bytes =>
    rw [program] at h
    split_ifs at h with hbusy
    · cases h
      exact hkeeps rfl rfl rfl rfl
    · cases h
      refine ⟨rfl, ⟨[], (List.append_nil _).symm⟩, fun hacc => ?_⟩
      rw [Accounted, not_not.mp hbusy, Writer.rest, List.append_nil] at hacc
      rw [Accounted, hacc, rest_next]
  | written answer =>
    rw [program] at h
    split at h
    next chunk later hwriter =>
      cases answer with
      | interrupted =>
        cases h
        exact hkeeps rfl rfl rfl rfl
      | again delayed =>
        cases delayed with
        | true =>
          cases h
          exact hkeeps rfl rfl rfl rfl
        | false =>
          cases h
          exact hkeeps rfl rfl (by rw [hwriter]; rfl) rfl
      | failed => cases h
      | count count =>
        dsimp only at h
        split_ifs at h with hcount hdone
        all_goals
          cases h
          refine ⟨rfl, ⟨chunk.take count, rfl⟩, fun hacc => ?_⟩
          rw [Accounted, hwriter, Writer.rest] at hacc
          rw [Accounted, bytesOf_append_self, ← hacc, List.append_assoc]
          congr 1
        · rw [rest_next]
          have hall : chunk.take count = chunk := by
            rw [List.drop_eq_nil_iff] at hdone
            exact List.take_of_length_le hdone
          rw [hall]
        · rw [Writer.rest, ← List.append_assoc, List.take_append_drop]
    next => cases h
  | polled answer =>
    rw [program] at h
    split at h
    next chunk later hwriter =>
      cases answer with
      | interrupted =>
        cases h
        exact hkeeps rfl rfl rfl rfl
      | failed => cases h
      | ready failure =>
        cases failure with
        | true => cases h
        | false =>
          cases h
          exact hkeeps rfl rfl (by rw [hwriter]; rfl) rfl
    next => cases h

/-- Every thread has its number and its account. -/
structure Inv (c : Config Output Local) : Prop where
  id : ∀ t, (c.thread t).id = t
  accounted : ∀ t, Accounted c.shared (c.thread t)

theorem step_inv : Preserves (fire program) Inv := by
  intro c a c' h hc
  obtain ⟨s, l, hp, rfl⟩ := fire_eq_some.mp h
  obtain ⟨hid, ⟨bytes, hwritten⟩, hacc⟩ := program_own hp
  rw [hc.id] at hid hwritten
  refine ⟨fun u => ?_, fun u => ?_⟩ <;> dsimp only <;> by_cases hu : u = a.1
  · subst hu
    rw [Function.update_self, hid]
  · rw [Function.update_of_ne hu, hc.id]
  · subst hu
    rw [Function.update_self]
    exact hacc (hc.accounted _)
  · have hother := hc.accounted u
    rw [Accounted, hc.id] at hother
    rw [Function.update_of_ne hu, Accounted, hc.id, hwritten, bytesOf_append_of_ne hu]
    exact hother

/-- In every run of any number of threads, whatever the host answers: what has come out of a thread
and what it has still to write are, in order, what it was asked to write. So when a write returns
all of it is out, nothing twice, and what other threads write comes between but changes nothing. -/
theorem output_complete {acts : List (ℕ × Event)} {c : Config Output Local}
    (hr : run (fire program) start acts = some c) :
    (∀ t, bytesOf t c.shared.written ++ (c.thread t).writer.rest = (c.thread t).asked) ∧
    ∀ t, (c.thread t).writer = .idle → bytesOf t c.shared.written = (c.thread t).asked := by
  have hstart : Inv start := ⟨fun _ => rfl, fun _ => rfl⟩
  have h : Inv c := step_inv.run hr hstart
  have haccounted : ∀ t, bytesOf t c.shared.written ++ (c.thread t).writer.rest =
      (c.thread t).asked := by
    intro t
    have hacc := h.accounted t
    rwa [Accounted, h.id] at hacc
  refine ⟨haccounted, fun t hidle => ?_⟩
  have hacc := haccounted t
  rwa [hidle, Writer.rest, List.append_nil] at hacc

/-- A short write, a full output and another thread in between. -/
def shortWrite : List (ℕ × Event) :=
  [(1, .write [1, 2, 3]), (1, .written (.count 1)), (2, .write [9]), (1, .written (.again false)),
    (2, .written (.count 1)), (1, .polled .interrupted), (1, .polled (.ready false)),
    (1, .written (.count 2))]

theorem output_complete_shortWrite :
    ∃ c, run (fire program) start shortWrite = some c ∧
      c.shared.written.map Prod.snd = [1, 9, 2, 3] ∧
      bytesOf 1 c.shared.written = (c.thread 1).asked := by
  have hrun : run (fire program) start shortWrite =
      some ((run (fire program) start shortWrite).get (by decide)) :=
    (Option.some_get _).symm
  exact ⟨_, hrun, by decide, (output_complete hrun).2 1 (by decide)⟩

end RooTesting.ConsoleOutput
