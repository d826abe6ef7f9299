import RooTesting.Transition
import Mathlib.Logic.Function.Basic
import Mathlib.Order.Nat

/-! # Threads over one shared state

Any number of threads take atomic steps in any order. A step of one thread may
read and write the shared state and its own local state, and no other thread's.
A token is something at most one thread can hold, counted in the local states. -/
namespace RooTesting.Threads
open Transition

universe u v w
variable {σ : Type u} {ℓ : Type v} {ε : Type w}

structure Config (σ : Type u) (ℓ : Type v) where
  shared : σ
  thread : ℕ → ℓ

/-- One atomic step of one thread, if it is enabled. -/
abbrev Program (σ : Type u) (ℓ : Type v) (ε : Type w) := ε → σ → ℓ → Option (σ × ℓ)

def fire (p : Program σ ℓ ε) (c : Config σ ℓ) (a : ℕ × ε) : Option (Config σ ℓ) :=
  (p a.2 c.shared (c.thread a.1)).map fun r => ⟨r.1, Function.update c.thread a.1 r.2⟩

theorem fire_eq_some {p : Program σ ℓ ε} {c c' : Config σ ℓ} {a : ℕ × ε} :
    fire p c a = some c' ↔ ∃ s l, p a.2 c.shared (c.thread a.1) = some (s, l) ∧
      c' = ⟨s, Function.update c.thread a.1 l⟩ := by
  simp only [fire, Option.map_eq_some_iff, Prod.exists]
  constructor
  · rintro ⟨s, l, h, rfl⟩
    exact ⟨s, l, h, rfl⟩
  · rintro ⟨s, l, h, rfl⟩
    exact ⟨s, l, h, rfl⟩

/-- A thread that takes no step stays where it is. -/
theorem run_thread {p : Program σ ℓ ε} {c c' : Config σ ℓ} {es : List (ℕ × ε)} {u : ℕ}
    (hr : run (fire p) c es = some c') (hu : ∀ a ∈ es, a.1 ≠ u) : c'.thread u = c.thread u := by
  induction es generalizing c with
  | nil => cases hr; rfl
  | cons a es ih =>
    obtain ⟨d, hd, hr⟩ := run_cons_eq_some.mp hr
    obtain ⟨s, l, -, rfl⟩ := fire_eq_some.mp hd
    rw [ih hr fun b hb => hu b (List.mem_cons_of_mem _ hb)]
    exact Function.update_of_ne (hu a List.mem_cons_self).symm ..

theorem forall_update {f : ℕ → ℓ} {t : ℕ} {l : ℓ} {Q : ℓ → Prop} :
    (∀ u, Q (Function.update f t l u)) ↔ Q l ∧ ∀ u, u ≠ t → Q (f u) := by
  constructor
  · intro h
    refine ⟨by simpa using h t, fun u hu => ?_⟩
    simpa [Function.update_of_ne hu] using h u
  · rintro ⟨hl, hf⟩ u
    by_cases h : u = t
    · subst h
      simpa using hl
    · simpa [Function.update_of_ne h] using hf u h

theorem exists_update {f : ℕ → ℓ} {t : ℕ} {l : ℓ} {Q : ℓ → Prop} :
    (∃ u, Q (Function.update f t l u)) ↔ Q l ∨ ∃ u, u ≠ t ∧ Q (f u) := by
  constructor
  · rintro ⟨u, hu⟩
    by_cases h : u = t
    · subst h
      exact Or.inl (by simpa using hu)
    · exact Or.inr ⟨u, h, by simpa [Function.update_of_ne h] using hu⟩
  · rintro (hl | ⟨u, hu, hq⟩)
    · exact ⟨t, by simpa using hl⟩
    · exact ⟨u, by simpa [Function.update_of_ne hu] using hq⟩

/-- Nobody holds the token, or exactly one thread holds it exactly once. -/
def Held (count : ℓ → ℕ) (f : ℕ → ℓ) : Bool → Prop
  | false => ∀ t, count (f t) = 0
  | true => ∃ t, count (f t) = 1 ∧ ∀ u, u ≠ t → count (f u) = 0

namespace Held

variable {count : ℓ → ℕ} {f : ℕ → ℓ} {t : ℕ} {l : ℓ} {b : Bool}

theorem count_le_one (h : Held count f b) (t : ℕ) : count (f t) ≤ 1 := by
  cases b with
  | false => exact (h t).le.trans (Nat.zero_le 1)
  | true =>
    obtain ⟨u, hu, hothers⟩ := h
    by_cases htu : t = u
    · subst htu
      exact hu.le
    · exact (hothers t htu).le.trans (Nat.zero_le 1)

/-- A thread with the token is the only one with it. -/
theorem eq_of_pos (h : Held count f b) {t u : ℕ} (ht : 0 < count (f t)) (hu : 0 < count (f u)) :
    t = u := by
  cases b with
  | false => exact absurd (h t) (Nat.pos_iff_ne_zero.mp ht)
  | true =>
    obtain ⟨v, hv, hothers⟩ := h
    have hself : ∀ w, 0 < count (f w) → w = v := fun w hw =>
      by_contra fun hne => Nat.pos_iff_ne_zero.mp hw (hothers w hne)
    exact (hself t ht).trans (hself u hu).symm

theorem true_of_pos (h : Held count f b) (ht : 0 < count (f t)) : b = true := by
  cases b with
  | false => exact absurd (h t) (Nat.pos_iff_ne_zero.mp ht)
  | true => rfl

/-- A step that neither takes nor gives the token. -/
theorem keep (h : Held count f b) (hl : count l = count (f t)) :
    Held count (Function.update f t l) b := by
  have hc : ∀ u, count (Function.update f t l u) = count (f u) := by
    intro u
    by_cases hu : u = t
    · subst hu
      simpa using hl
    · rw [Function.update_of_ne hu]
  cases b with
  | false => exact fun u => (hc u).trans (h u)
  | true =>
    obtain ⟨v, hv, hothers⟩ := h
    exact ⟨v, (hc v).trans hv, fun u hu => (hc u).trans (hothers u hu)⟩

theorem acquire (h : Held count f false) (hl : count l = 1) :
    Held count (Function.update f t l) true := by
  refine ⟨t, by simpa using hl, fun u hu => ?_⟩
  rw [Function.update_of_ne hu]
  exact h u

theorem release (h : Held count f b) (ht : 0 < count (f t)) (hl : count l = 0) :
    Held count (Function.update f t l) false := by
  intro u
  by_cases hu : u = t
  · subst hu
    simpa using hl
  · rw [Function.update_of_ne hu]
    by_contra hne
    exact hu (h.eq_of_pos (Nat.pos_of_ne_zero hne) ht)

end Held

end RooTesting.Threads
