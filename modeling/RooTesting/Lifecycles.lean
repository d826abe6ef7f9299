import Mathlib.Tactic.Common

/-! # Lives of many subjects in one log

A log of marks, latest first, each on one of many subjects. A partial step function says which
marks may follow which, and the marks on one subject are replayed through it. -/
namespace RooTesting.Lifecycles

universe u v w
variable {ι : Type u} {M : Type v} {L : Type w}

structure Entry (ι : Type u) (M : Type v) where
  subject : ι
  mark : M
  deriving DecidableEq

/-- The marks on one subject, in the order of the log. -/
def marksOf [DecidableEq ι] (x : ι) (log : List (Entry ι M)) : List M :=
  log.filterMap fun e => if e.subject = x then some e.mark else none

section MarksOf

variable [DecidableEq ι] {x y : ι} {m : M} {log : List (Entry ι M)}

@[simp] theorem marksOf_nil : marksOf x ([] : List (Entry ι M)) = [] := rfl

@[simp] theorem marksOf_cons_self : marksOf x (⟨x, m⟩ :: log) = m :: marksOf x log := by
  simp [marksOf]

theorem marksOf_cons_of_ne (h : y ≠ x) : marksOf x (⟨y, m⟩ :: log) = marksOf x log := by
  simp [marksOf, h]

end MarksOf

/-- The life after some marks, when each of them was allowed in its turn. -/
def replay (next : L → M → Option L) (start : L) : List M → Option L
  | [] => some start
  | m :: ms => (replay next start ms).bind fun life => next life m

variable {next : L → M → Option L} {start : L}

theorem replay_cons {life life' : L} {m : M} {ms : List M} (h : replay next start ms = some life)
    (hnext : next life m = some life') : replay next start (m :: ms) = some life' := by
  simp [replay, h, hnext]

/-- Later marks are replayed from where the earlier ones have led. -/
theorem replay_append {life : L} {ms later : List M} (h : replay next start ms = some life) :
    replay next start (later ++ ms) = replay next life later := by
  induction later with
  | nil => exact h
  | cons m later ih => rw [List.cons_append, replay, replay, ih]

/-- What each allowed mark keeps holds of every life that can be replayed. -/
theorem replay_induction {P : List M → L → Prop} (hstart : P [] start)
    (hnext : ∀ ⦃ms life m life'⦄, P ms life → next life m = some life' → P (m :: ms) life')
    {ms : List M} {life : L} (h : replay next start ms = some life) : P ms life := by
  induction ms generalizing life with
  | nil =>
    cases h
    exact hstart
  | cons m ms ih =>
    obtain ⟨before, hbefore, h⟩ := Option.bind_eq_some_iff.mp h
    exact hnext (ih hbefore) h

end RooTesting.Lifecycles
