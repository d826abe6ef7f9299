import Mathlib.Data.Set.Card
import Mathlib.Logic.Function.Basic
import Mathlib.Tactic.Common

/-! # Lists of records with distinct keys

A list whose records carry a key of their own is a map as long as no key comes twice. What is found
at each key after an append, a removal or a replacement, and how many keys there are. -/
namespace RooTesting.KeyedLists

universe u v
variable {κ : Type u} [DecidableEq κ] {ρ : Type v} {key : ρ → κ} {l : List ρ} {r : ρ} {k : κ}

/-- The first record with the key. -/
def lookup (key : ρ → κ) (l : List ρ) (k : κ) : Option ρ := l.find? fun r => key r = k

def Distinct (key : ρ → κ) (l : List ρ) : Prop := (l.map key).Nodup

omit [DecidableEq κ] in
theorem distinct_nil : Distinct key ([] : List ρ) := List.nodup_nil

/-- The first record with the key of `r` is replaced by it. -/
def replace (key : ρ → κ) (r : ρ) : List ρ → List ρ
  | [] => []
  | x :: l => if key x = key r then r :: l else x :: replace key r l

theorem lookup_cons (x : ρ) :
    lookup key (x :: l) k = if key x = k then some x else lookup key l k := by
  unfold lookup
  rw [List.find?_cons]
  by_cases h : key x = k <;> simp [h]

theorem lookup_eq_none : lookup key l k = none ↔ ∀ r ∈ l, key r ≠ k := by
  simp [lookup]

theorem lookup_isSome : (lookup key l k).isSome ↔ k ∈ l.map key := by
  simp [lookup, List.mem_map]

theorem lookup_any (l : List ρ) (k : κ) : (l.any fun r => key r = k) = (lookup key l k).isSome := by
  rw [Bool.eq_iff_iff, lookup_isSome]
  simp

/-- A record with a new key, put at the end. -/
theorem lookup_append (h : lookup key l (key r) = none) :
    lookup key (l ++ [r]) = Function.update (lookup key l) (key r) (some r) := by
  funext k
  by_cases hk : k = key r
  · subst hk
    rw [Function.update_self]
    induction l with
    | nil => simp [lookup]
    | cons x l ih =>
      rw [lookup_cons] at h
      split_ifs at h with hx
      rw [List.cons_append, lookup_cons, if_neg hx, ih h]
  · rw [Function.update_of_ne hk]
    unfold lookup
    rw [List.find?_append]
    simp [Ne.symm hk]

theorem Distinct.append (hl : Distinct key l) (h : lookup key l (key r) = none) :
    Distinct key (l ++ [r]) := by
  unfold Distinct
  rw [List.map_append, List.nodup_append]
  refine ⟨hl, List.nodup_singleton _, ?_⟩
  intro x hx y hy heq
  obtain ⟨x, hmem, rfl⟩ := List.mem_map.mp hx
  rw [List.map_singleton, List.mem_singleton] at hy
  exact lookup_eq_none.mp h x hmem (heq.trans hy)

/-- Every record with the key taken out. -/
theorem lookup_filter (l : List ρ) (k : κ) :
    lookup key (l.filter fun r => key r ≠ k) = Function.update (lookup key l) k none := by
  funext j
  induction l with
  | nil => by_cases hj : j = k <;> simp [lookup, Function.update_apply]
  | cons x l ih =>
    by_cases hx : key x = k
    · rw [List.filter_cons_of_neg (by simpa using hx), ih]
      by_cases hj : j = k
      · rw [hj, Function.update_self, Function.update_self]
      · rw [Function.update_of_ne hj, Function.update_of_ne hj, lookup_cons, if_neg]
        exact fun h => hj (h.symm.trans hx)
    · rw [List.filter_cons_of_pos (by simpa using hx), lookup_cons, ih]
      by_cases hj : j = k
      · rw [hj, Function.update_self, Function.update_self, if_neg hx]
      · rw [Function.update_of_ne hj, Function.update_of_ne hj, lookup_cons]

omit [DecidableEq κ] in
theorem Distinct.filter (hl : Distinct key l) (p : ρ → Bool) : Distinct key (l.filter p) :=
  hl.sublist (List.filter_sublist.map key)

/-- Something is taken out exactly when the key was there. -/
theorem length_filter_eq (l : List ρ) (k : κ) :
    (l.filter fun r => key r ≠ k).length = l.length ↔ lookup key l k = none := by
  rw [List.length_filter_eq_length_iff, lookup_eq_none]
  simp

theorem map_replace (l : List ρ) : (replace key r l).map key = l.map key := by
  induction l with
  | nil => rfl
  | cons x l ih =>
    rw [replace]
    split_ifs with hx
    · rw [List.map_cons, List.map_cons, hx]
    · rw [List.map_cons, List.map_cons, ih]

theorem Distinct.replace (hl : Distinct key l) : Distinct key (replace key r l) := by
  rw [Distinct, map_replace]
  exact hl

theorem lookup_replace (h : (lookup key l (key r)).isSome) :
    lookup key (replace key r l) = Function.update (lookup key l) (key r) (some r) := by
  funext k
  induction l with
  | nil => cases h
  | cons x l ih =>
    rw [KeyedLists.replace]
    by_cases hx : key x = key r
    · rw [if_pos hx, lookup_cons]
      by_cases hk : k = key r
      · rw [hk, if_pos rfl, Function.update_self]
      · rw [if_neg (Ne.symm hk), Function.update_of_ne hk, lookup_cons, if_neg]
        exact fun h => hk (h.symm.trans hx)
    · rw [lookup_cons, if_neg hx] at h
      rw [if_neg hx, lookup_cons, ih h]
      by_cases hk : k = key r
      · rw [hk, if_neg hx, Function.update_self, Function.update_self]
      · rw [Function.update_of_ne hk, Function.update_of_ne hk, lookup_cons]

/-- The records that meet a condition, counted by their keys. -/
theorem countP_eq_ncard (hl : Distinct key l) (p : ρ → Bool) :
    l.countP p = {k | (lookup key l k).any p}.ncard := by
  induction l with
  | nil => simp [lookup]
  | cons x l ih =>
    obtain ⟨hnew, hl⟩ := List.nodup_cons.mp hl
    have hnone : lookup key l (key x) = none := by
      rw [← Option.not_isSome_iff_eq_none, lookup_isSome]
      exact hnew
    have hrest : ∀ k, (lookup key (x :: l) k).any p = true ↔
        k = key x ∧ p x = true ∨ (lookup key l k).any p = true := by
      intro k
      rw [lookup_cons]
      by_cases hk : key x = k
      · subst hk
        simp [hnone]
      · simp [hk, Ne.symm hk]
    have hfinite : {k | (lookup key l k).any p}.Finite := by
      apply (l.map key).finite_toSet.subset
      intro k hk
      apply lookup_isSome.mp
      cases hfound : lookup key l k with
      | none =>
        simp [hfound] at hk
      | some r => rfl
    rw [List.countP_cons, ih hl]
    by_cases hx : p x = true
    · have hset : {k | (lookup key (x :: l) k).any p} =
          insert (key x) {k | (lookup key l k).any p} := by
        ext k
        simp [hrest, hx]
      have hnot : key x ∉ {k | (lookup key l k).any p} := by simp [hnone]
      rw [hset, Set.ncard_insert_of_notMem hnot hfinite, if_pos hx]
    · have hset : {k | (lookup key (x :: l) k).any p} = {k | (lookup key l k).any p} := by
        ext k
        simp [hrest, hx]
      rw [hset, if_neg hx, Nat.add_zero]

end RooTesting.KeyedLists
