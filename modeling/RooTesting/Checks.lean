import Mathlib.Data.List.Basic
import Mathlib.Tactic.Common

/-! # Computations that stop at a failed check

A check passes or ends the computation with its message. What a computation that ended
well has done is read off its checks and its steps, and a loop over the numbers below a
bound keeps whatever each turn keeps. -/
namespace RooTesting.Checks

universe u v w
variable {ε : Type u} {α : Type v} {β : Type w}

def check (p : Prop) [Decidable p] (message : ε) : Except ε Unit :=
  if p then .ok () else .error message

theorem bind_ok {α β : Type v} {x : Except ε α} {f : α → Except ε β} {b : β} :
    x >>= f = .ok b ↔ ∃ a, x = .ok a ∧ f a = .ok b := by
  cases x with
  | error e => simp [bind, Except.bind]
  | ok a => simp [bind, Except.bind]

theorem check_ok {p : Prop} [Decidable p] {message : ε} {u : Unit} :
    check p message = .ok u ↔ p := by
  by_cases h : p <;> simp [check, h]

theorem check_bind_ok {β : Type} {p : Prop} [Decidable p] {message : ε}
    {f : Unit → Except ε β} {b : β} :
    check p message >>= f = .ok b ↔ p ∧ f () = .ok b := by
  by_cases h : p <;> simp [check, h, bind, Except.bind]

theorem pure_ok {a b : α} : (pure a : Except ε α) = .ok b ↔ a = b := by
  simp [pure, Except.pure]

/-- What holds of the result, when there is one. -/
def Yields (x : Except ε α) (P : α → Prop) : Prop := ∀ a, x = .ok a → P a

theorem Yields.bind {α β : Type v} {x : Except ε α} {f : α → Except ε β} {P : β → Prop}
    (h : ∀ a, Yields (f a) P) : Yields (x >>= f) P := by
  intro b hb
  obtain ⟨a, -, hfa⟩ := bind_ok.mp hb
  exact h a b hfa

theorem Yields.pure {P : α → Prop} {a : α} (h : P a) : Yields (pure a : Except ε α) P := by
  intro b hb
  exact pure_ok.mp hb ▸ h

/-- A loop over the numbers below `n`, by an invariant of the index and the state. -/
theorem foldlM_range_ok {f : β → ℕ → Except ε β} {I : ℕ → β → Prop} {n : ℕ} {a b : β}
    (h : (List.range n).foldlM f a = .ok b) (start : I 0 a)
    (turn : ∀ k x y, k < n → I k x → f x k = .ok y → I (k + 1) y) : I n b := by
  induction n generalizing b with
  | zero =>
    simp only [List.range_zero, List.foldlM_nil, pure_ok] at h
    exact h ▸ start
  | succ n ih =>
    simp only [List.range_succ, List.foldlM_append, List.foldlM_cons, List.foldlM_nil] at h
    obtain ⟨c, hc, h⟩ := bind_ok.mp h
    obtain ⟨d, hd, h⟩ := bind_ok.mp h
    obtain rfl := pure_ok.mp h
    have hprefix : I n c := ih hc fun k x y hk => turn k x y (by omega)
    exact turn n c d (by omega) hprefix hd

end RooTesting.Checks
