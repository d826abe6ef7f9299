import Mathlib.Order.Defs.LinearOrder
import Mathlib.Order.Basic
import Mathlib.Data.List.Pairwise
import Mathlib.Tactic.Common
import Mathlib.Order.Lattice

/-! # Tables kept in key order

A table is a list of entries in key order. The multimap keeps entries of one key
in the order of their insertion. -/
namespace RooTesting.OrderedTables

universe u v
variable {K : Type u} {V : Type v} [LinearOrder K]

/-- Insertion at the upper end of the range of equal keys. -/
def insertLast (k : K) (v : V) : List (K × V) → List (K × V)
  | [] => [(k, v)]
  | e :: es => if k < e.1 then (k, v) :: e :: es else e :: insertLast k v es

/-- The entries are in key order; equal keys may occur. -/
def KeyOrdered (es : List (K × V)) : Prop := es.Pairwise fun a b => a.1 ≤ b.1

/-- The new entry stands behind all keys up to its own and before all larger keys. -/
theorem insertLast_split (k : K) (v : V) {es : List (K × V)} (h : KeyOrdered es) :
    ∃ xs ys, es = xs ++ ys ∧ insertLast k v es = xs ++ (k, v) :: ys ∧
      (∀ e ∈ xs, e.1 ≤ k) ∧ ∀ e ∈ ys, k < e.1 := by
  induction es with
  | nil => exact ⟨[], [], rfl, rfl, by simp, by simp⟩
  | cons a es ih =>
    obtain ⟨ha, hes⟩ := List.pairwise_cons.mp h
    by_cases hk : k < a.1
    · refine ⟨[], a :: es, rfl, by simp [insertLast, hk], by simp, ?_⟩
      intro e he
      rcases List.mem_cons.mp he with rfl | he
      · exact hk
      · exact hk.trans_le (ha e he)
    · obtain ⟨xs, ys, hsplit, hins, hxs, hys⟩ := ih hes
      refine ⟨a :: xs, ys, by simp [hsplit], by simp [insertLast, hk, hins], ?_, hys⟩
      intro e he
      rcases List.mem_cons.mp he with rfl | he
      · exact not_lt.mp hk
      · exact hxs e he

theorem insertLast_perm (k : K) (v : V) (es : List (K × V)) :
    (insertLast k v es).Perm ((k, v) :: es) := by
  induction es with
  | nil => exact List.Perm.refl _
  | cons e es ih =>
    by_cases hk : k < e.1
    · simp [insertLast, hk]
    · simp only [insertLast, hk, if_false]
      exact (ih.cons e).trans (List.Perm.swap _ _ _)

@[simp] theorem mem_insertLast {k : K} {v : V} {es : List (K × V)} {e : K × V} :
    e ∈ insertLast k v es ↔ e = (k, v) ∨ e ∈ es := by
  rw [(insertLast_perm k v es).mem_iff, List.mem_cons]

/-- Key order, and among equal keys the order `r` of the values. -/
def Stable (r : V → V → Prop) (es : List (K × V)) : Prop :=
  es.Pairwise fun a b => a.1 < b.1 ∨ a.1 = b.1 ∧ r a.2 b.2

theorem Stable.keyOrdered {r : V → V → Prop} {es : List (K × V)} (h : Stable r es) :
    KeyOrdered es :=
  h.imp fun hab => hab.elim le_of_lt fun he => he.1.le

/-- A value that comes after all the present ones keeps the order of values. -/
theorem Stable.insertLast {r : V → V → Prop} {es : List (K × V)} (h : Stable r es) {k : K} {v : V}
    (hv : ∀ e ∈ es, r e.2 v) : Stable r (insertLast k v es) := by
  obtain ⟨xs, ys, rfl, hins, hxs, hys⟩ := insertLast_split k v h.keyOrdered
  obtain ⟨hx, hy, hxy⟩ := List.pairwise_append.mp h
  rw [hins]
  refine List.pairwise_append.mpr
    ⟨hx, List.pairwise_cons.mpr ⟨fun e he => Or.inl (hys e he), hy⟩, ?_⟩
  intro a ha b hb
  rcases List.mem_cons.mp hb with rfl | hb
  · rcases (hxs a ha).lt_or_eq with hlt | heq
    · exact Or.inl hlt
    · exact Or.inr ⟨heq, hv a (List.mem_append_left _ ha)⟩
  · exact hxy a ha b hb

theorem Stable.sublist {r : V → V → Prop} {es fs : List (K × V)} (h : Stable r es)
    (hs : fs.Sublist es) : Stable r fs :=
  List.Pairwise.sublist hs h

end RooTesting.OrderedTables
