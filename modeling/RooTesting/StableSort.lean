import Mathlib.Data.List.Sort

/-! # Lists in the order of a key

Elements with the same key keep their order. A list whose later keys come in later batches can be
sorted batch by batch. -/
namespace RooTesting.StableSort

universe u v
variable {α : Type u} {κ : Type v} [LinearOrder κ] (key : α → κ)

def byKey (l : List α) : List α := l.insertionSort fun a b => key a ≤ key b

theorem byKey_cons (a : α) (l : List α) :
    byKey key (a :: l) = (byKey key l).orderedInsert (fun a b => key a ≤ key b) a :=
  List.insertionSort_cons ..

theorem mem_byKey {a : α} {l : List α} : a ∈ byKey key l ↔ a ∈ l := List.mem_insertionSort _

theorem byKey_perm (l : List α) : (byKey key l).Perm l := List.perm_insertionSort _ l

/-- An element goes into the first of two lists when none of the second has to come before it. -/
theorem orderedInsert_append_left {a : α} (first : List α) {second : List α}
    (h : ∀ b ∈ second, key a ≤ key b) :
    (first ++ second).orderedInsert (fun a b => key a ≤ key b) a =
      first.orderedInsert (fun a b => key a ≤ key b) a ++ second := by
  induction first with
  | nil =>
    cases second with
    | nil => rfl
    | cons b second => exact List.orderedInsert_cons_of_le _ _ (h b List.mem_cons_self)
  | cons b first ih =>
    rw [List.cons_append, List.orderedInsert_cons, List.orderedInsert_cons, ih]
    split
    · rfl
    · rfl

theorem orderedInsert_append_right {a : α} {first : List α} (second : List α)
    (h : ∀ b ∈ first, key b < key a) :
    (first ++ second).orderedInsert (fun a b => key a ≤ key b) a =
      first ++ second.orderedInsert (fun a b => key a ≤ key b) a := by
  induction first with
  | nil => rfl
  | cons b first ih =>
    have hlt : ¬ key a ≤ key b := not_le.2 (h b List.mem_cons_self)
    rw [List.cons_append, List.orderedInsert_cons, if_neg hlt,
      ih fun b hb => h b (List.mem_cons_of_mem _ hb)]
    rfl

/-- What lies up to a bound comes first, when nothing that is added lies below it. -/
theorem byKey_split (bound : κ) (old : List α) {added : List α}
    (hadded : ∀ a ∈ added, bound ≤ key a) :
    byKey key (old ++ added) = byKey key (old.filter fun a => key a ≤ bound) ++
      byKey key ((old.filter fun a => bound < key a) ++ added) := by
  induction old with
  | nil => rfl
  | cons a old ih =>
    rw [List.cons_append, byKey_cons, ih]
    rcases le_or_gt (key a) bound with hle | hlt
    · rw [List.filter_cons_of_pos (by simpa using hle),
        List.filter_cons_of_neg (by simpa using hle), byKey_cons]
      apply orderedInsert_append_left
      intro b hb
      rcases List.mem_append.1 ((mem_byKey key).1 hb) with hin | hin
      · exact hle.trans (of_decide_eq_true (List.mem_filter.1 hin).2).le
      · exact hle.trans (hadded b hin)
    · rw [List.filter_cons_of_neg (by simpa using hlt),
        List.filter_cons_of_pos (by simpa using hlt), List.cons_append, byKey_cons]
      apply orderedInsert_append_right
      intro b hb
      have hin := (mem_byKey key).1 hb
      exact lt_of_le_of_lt (of_decide_eq_true (List.mem_filter.1 hin).2) hlt

end RooTesting.StableSort
