import Mathlib.Tactic.Common

/-! # Machines that answer

A machine takes a call, answers it and goes on. Two machines whose calls answer alike and keep
them related answer alike for ever, and what every call keeps holds after all of them. -/
namespace RooTesting.Answers

universe u v w x
variable {σ : Type u} {τ : Type v} {ε : Type w} {β : Type x}

/-- What a machine answers to a list of calls, and where it is then. -/
def answers (call : σ → ε → β × σ) : σ → List ε → List β × σ
  | s, [] => ([], s)
  | s, e :: es =>
    ((call s e).1 :: (answers call (call s e).2 es).1, (answers call (call s e).2 es).2)

/-- The relation is kept by calls that answer alike. -/
theorem answers_agree {call : σ → ε → β × σ} {call' : τ → ε → β × τ} {R : σ → τ → Prop}
    (hcall : ∀ ⦃s t⦄ e, R s t → (call s e).1 = (call' t e).1 ∧ R (call s e).2 (call' t e).2)
    {s : σ} {t : τ} (h : R s t) (es : List ε) :
    (answers call s es).1 = (answers call' t es).1 ∧
      R (answers call s es).2 (answers call' t es).2 := by
  induction es generalizing s t with
  | nil => exact ⟨rfl, h⟩
  | cons e es ih =>
    obtain ⟨hanswer, hrel⟩ := hcall e h
    obtain ⟨hanswers, hend⟩ := ih hrel
    exact ⟨by rw [answers, answers, hanswer, hanswers], hend⟩

end RooTesting.Answers
