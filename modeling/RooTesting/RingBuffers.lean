import Mathlib.Data.List.Range
import Mathlib.Logic.Function.Basic
import Mathlib.Tactic.Common

/-! # Ring buffers

A queue in a fixed number of cells, one of which is always free. The writer is the cell to fill
next and the reader the cell to empty next; the queue is empty where they meet. -/
namespace RooTesting.RingBuffers

universe u
variable {α : Type u}

/-- What is in the cells outside the queue does not matter. -/
structure RingBuffer (α : Type u) where
  cells : ℕ → α
  writer : ℕ
  reader : ℕ
  size : ℕ

namespace RingBuffer

variable (r : RingBuffer α)

def new (cells : ℕ → α) (size : ℕ) : RingBuffer α := ⟨cells, 0, 0, size⟩

/-- The cell after another one. -/
def after (i : ℕ) : ℕ := if i + 1 = r.size then 0 else i + 1

/-- How many cells are filled; the loop that takes the size off leaves the remainder. -/
def available : ℕ := (r.size + r.writer - r.reader) % r.size

/-- A full queue takes nothing. -/
def write (a : α) : Option (RingBuffer α) :=
  if r.after r.writer = r.reader then none
  else some { r with
    cells := Function.update r.cells r.writer a
    writer := r.after r.writer }

def peek : Option α := if r.writer = r.reader then none else some (r.cells r.reader)

def read : Option (α × RingBuffer α) :=
  if r.writer = r.reader then none
  else some (r.cells r.reader, { r with reader := r.after r.reader })

/-- Both indices are in the buffer. -/
structure Valid : Prop where
  writer : r.writer < r.size
  reader : r.reader < r.size

/-- The cell of the `i`th element. -/
def index (i : ℕ) : ℕ := if r.reader + i < r.size then r.reader + i else r.reader + i - r.size

/-- What is in the queue, the next one first. -/
def contents : List α := (List.range r.available).map fun i => r.cells (r.index i)

variable {r : RingBuffer α} {a : α}

@[simp] theorem length_contents : r.contents.length = r.available := by simp [contents]

theorem available_lt (h : r.Valid) : r.available < r.size :=
  Nat.mod_lt _ ((Nat.zero_le _).trans_lt h.writer)

/-- The number of filled cells without a remainder. -/
theorem available_eq (h : r.Valid) :
    r.available = if r.reader ≤ r.writer then r.writer - r.reader
      else r.size + r.writer - r.reader := by
  obtain ⟨hwriter, hreader⟩ := h
  unfold available
  split_ifs with hle
  · have hsum : r.size + r.writer - r.reader = r.writer - r.reader + r.size := by omega
    rw [hsum, Nat.add_mod_right, Nat.mod_eq_of_lt (by omega)]
  · exact Nat.mod_eq_of_lt (by omega)

theorem after_lt (h : r.Valid) {i : ℕ} (hi : i < r.size) : r.after i < r.size := by
  have hwriter := h.writer
  unfold after
  split_ifs <;> omega

/-- The writer fills the cell behind the last element. -/
theorem index_available (h : r.Valid) : r.index r.available = r.writer := by
  obtain ⟨hwriter, hreader⟩ := h
  rw [index, available_eq ⟨hwriter, hreader⟩]
  split_ifs <;> omega

theorem available_eq_zero (h : r.Valid) : r.available = 0 ↔ r.writer = r.reader := by
  obtain ⟨hwriter, hreader⟩ := h
  rw [available_eq ⟨hwriter, hreader⟩]
  split_ifs <;> omega

theorem valid_new (cells : ℕ → α) {size : ℕ} (h : 0 < size) : (new cells size).Valid := ⟨h, h⟩

theorem contents_new (cells : ℕ → α) (size : ℕ) : (new cells size).contents = [] := by
  simp [contents, available, new]

/-- A write is refused exactly when all cells but one are filled. -/
theorem write_eq_none (h : r.Valid) : r.write a = none ↔ r.size ≤ r.available + 1 := by
  obtain ⟨hwriter, hreader⟩ := h
  rw [available_eq ⟨hwriter, hreader⟩]
  unfold write after
  split_ifs <;> simp <;> omega

theorem write_spec (h : r.Valid) {r' : RingBuffer α} (hr : r.write a = some r') :
    r'.Valid ∧ r'.size = r.size ∧ r'.contents = r.contents ++ [a] := by
  unfold write at hr
  split_ifs at hr with hfull
  obtain rfl := Option.some.inj hr
  have hvalid : Valid { r with
      cells := Function.update r.cells r.writer a
      writer := r.after r.writer } := ⟨after_lt h h.writer, h.reader⟩
  refine ⟨hvalid, rfl, ?_⟩
  have hwriter := h.writer
  have hreader := h.reader
  have hcount : RingBuffer.available { r with
      cells := Function.update r.cells r.writer a
      writer := r.after r.writer } = r.available + 1 := by
    rw [available_eq hvalid, available_eq h]
    simp only [after] at hfull ⊢
    split_ifs at hfull ⊢ <;> omega
  rw [contents, hcount, List.range_succ, List.map_append, List.map_singleton]
  congr 1
  · -- the new cell is none of those that were filled
    apply List.map_congr_left
    intro i hi
    rw [List.mem_range, available_eq h] at hi
    apply Function.update_of_ne
    unfold index
    split_ifs at hi ⊢ <;> simp only at * <;> omega
  · have hlast : index { r with
        cells := Function.update r.cells r.writer a
        writer := r.after r.writer } r.available = r.writer := index_available h
    rw [hlast]
    simp

theorem read_eq_none (h : r.Valid) : r.read = none ↔ r.contents = [] := by
  rw [← List.length_eq_zero_iff, length_contents, available_eq_zero h, read]
  simp

/-- A read takes the first element. -/
theorem read_spec (h : r.Valid) {r' : RingBuffer α} (hr : r.read = some (a, r')) :
    r'.Valid ∧ r'.size = r.size ∧ r.contents = a :: r'.contents := by
  unfold read at hr
  split_ifs at hr with hempty
  obtain ⟨rfl, rfl⟩ := Prod.mk.inj (Option.some.inj hr)
  have hvalid : Valid { r with reader := r.after r.reader } := ⟨h.writer, after_lt h h.reader⟩
  refine ⟨hvalid, rfl, ?_⟩
  have hwriter := h.writer
  have hreader := h.reader
  have hcount : r.available = RingBuffer.available { r with reader := r.after r.reader } + 1 := by
    rw [available_eq hvalid, available_eq h]
    simp only [after]
    split_ifs <;> omega
  have hfirst : r.index 0 = r.reader := by simp [index, hreader]
  rw [contents, hcount, List.range_succ_eq_map, List.map_cons, hfirst, List.map_map]
  congr 1
  apply List.map_congr_left
  intro i hi
  rw [List.mem_range, available_eq hvalid] at hi
  have hnext : r.index (i + 1) = index { r with reader := r.after r.reader } i := by
    simp only [index, after] at hi ⊢
    split_ifs at hi ⊢ <;> omega
  exact congrArg r.cells hnext

/-- What is peeked at is what the next read takes. -/
theorem peek_eq : r.peek = r.read.map Prod.fst := by
  unfold peek read
  split_ifs <;> rfl

theorem peek_eq_head (h : r.Valid) : r.peek = r.contents.head? := by
  rw [peek_eq]
  cases hr : r.read with
  | none => rw [(read_eq_none h).mp hr, Option.map_none, List.head?_nil]
  | some p =>
    rw [(read_spec h hr).2.2, Option.map_some, List.head?_cons]

end RingBuffer

end RooTesting.RingBuffers
