import Mathlib.Data.List.Lex
import Mathlib.Data.List.Pairwise
import Mathlib.Data.Nat.Notation
import Mathlib.Tactic.Common
import Mathlib.Order.Lattice
import Mathlib.Algebra.GroupWithZero.Nat

/-! # Ordered maps

A map is a list of its entries in the order of their keys. Everything that changes a map
alters the value at one key; what is found at a key afterwards, and that the order is
kept, is proved for that operation once. -/
namespace RooTesting.OrderedMaps

universe u v
variable {κ : Type u} [LinearOrder κ] {ν : Type v}

section Lists

/-- The value of the first entry with the key. -/
def find (k : κ) : List (κ × ν) → Option ν
  | [] => none
  | e :: l => if e.1 = k then some e.2 else find k l

/-- Puts the value that `f` makes of the present one at a key, or nothing. -/
def alter (k : κ) (f : Option ν → Option ν) : List (κ × ν) → List (κ × ν)
  | [] => (f none).toList.map (k, ·)
  | e :: l =>
    if k < e.1 then (f none).toList.map (k, ·) ++ e :: l
    else if e.1 = k then (f (some e.2)).toList.map (k, ·) ++ l
    else e :: alter k f l

def Ordered (l : List (κ × ν)) : Prop := l.Pairwise fun a b => a.1 < b.1

theorem find_eq_none {k : κ} {l : List (κ × ν)} (h : ∀ e ∈ l, k < e.1) : find k l = none := by
  induction l with
  | nil => rfl
  | cons e l ih =>
    rw [find, if_neg (h e List.mem_cons_self).ne']
    exact ih fun x hx => h x (List.mem_cons_of_mem _ hx)

theorem mem_alter {k : κ} {f : Option ν → Option ν} {l : List (κ × ν)} {x : κ × ν}
    (h : x ∈ alter k f l) : x.1 = k ∨ x ∈ l := by
  have made : ∀ {o : Option ν}, x ∈ o.toList.map (k, ·) → x.1 = k := by
    intro o ho
    obtain ⟨v, -, rfl⟩ := List.mem_map.mp ho
    rfl
  induction l with
  | nil => exact Or.inl (made h)
  | cons e l ih =>
    unfold alter at h
    split at h
    · exact (List.mem_append.mp h).imp made id
    split at h
    · exact (List.mem_append.mp h).imp made (List.mem_cons_of_mem _)
    · rcases List.mem_cons.mp h with rfl | h
      · exact Or.inr List.mem_cons_self
      · exact (ih h).imp id (List.mem_cons_of_mem _)

theorem ordered_alter (k : κ) (f : Option ν → Option ν) {l : List (κ × ν)} (h : Ordered l) :
    Ordered (alter k f l) := by
  have front : ∀ {o : Option ν} {l : List (κ × ν)}, Ordered l → (∀ e ∈ l, k < e.1) →
      Ordered (o.toList.map (k, ·) ++ l) := by
    intro o l hl hk
    cases o with
    | none => exact hl
    | some v => exact List.pairwise_cons.mpr ⟨hk, hl⟩
  induction l with
  | nil => simpa [alter] using front (o := f none) (l := []) List.Pairwise.nil (by simp)
  | cons e l ih =>
    obtain ⟨he, hl⟩ := List.pairwise_cons.mp h
    unfold alter
    split
    · rename_i hk
      refine front h fun x hx => ?_
      rcases List.mem_cons.mp hx with rfl | hx
      · exact hk
      · exact hk.trans (he x hx)
    split
    · rename_i hk
      exact front hl fun x hx => hk ▸ he x hx
    · rename_i hlt hne
      refine List.pairwise_cons.mpr ⟨fun x hx => ?_, ih hl⟩
      rcases mem_alter hx with hx | hx
      · exact hx ▸ lt_of_le_of_ne (not_lt.mp hlt) hne
      · exact he x hx

theorem find_made_append {k j : κ} (o : Option ν) (l : List (κ × ν)) :
    find j (o.toList.map (k, ·) ++ l) = if j = k then o.or (find j l) else find j l := by
  cases o with
  | none => simp
  | some v =>
    by_cases h : j = k
    · simp [find, h]
    · simp [find, h, Ne.symm h]

/-- What is found after one key has been altered. -/
theorem find_alter (k j : κ) (f : Option ν → Option ν) {l : List (κ × ν)} (h : Ordered l) :
    find j (alter k f l) = if j = k then f (find k l) else find j l := by
  induction l with
  | nil => simpa [alter, find] using find_made_append (f none) ([] : List (κ × ν))
  | cons e l ih =>
    obtain ⟨he, hl⟩ := List.pairwise_cons.mp h
    unfold alter
    split
    · rename_i hk
      have hnone : find k (e :: l) = none := by
        refine find_eq_none fun x hx => ?_
        rcases List.mem_cons.mp hx with rfl | hx
        · exact hk
        · exact hk.trans (he x hx)
      rw [find_made_append, hnone]
      split
      · subst j
        rw [hnone, Option.or_none]
      · rfl
    split
    · rename_i hlt hk
      subst hk
      have hnone : find e.1 l = none := find_eq_none he
      rw [find_made_append]
      by_cases hj : j = e.1
      · subst hj
        simp [find, hnone]
      · simp [find, hj, Ne.symm hj]
    · rename_i hlt hne
      by_cases hj : e.1 = j
      · subst hj
        simp [find, hne]
      · simp only [find, if_neg hj, if_neg hne]
        exact ih hl

/-- The entry that is in front of the others is the one at its key. -/
theorem find_eq_none_of_lt {k : κ} {e : κ × ν} {l : List (κ × ν)} (h : Ordered (e :: l))
    (hk : k < e.1) : find k (e :: l) = none := by
  apply find_eq_none
  intro x hx
  rcases List.mem_cons.mp hx with rfl | hx
  · exact hk
  · exact hk.trans ((List.pairwise_cons.mp h).1 x hx)

/-- A lookup finds what is in the list. -/
theorem find_eq_some {k : κ} {v : ν} {l : List (κ × ν)} (h : Ordered l) :
    find k l = some v ↔ (k, v) ∈ l := by
  induction l with
  | nil => exact iff_of_false nofun List.not_mem_nil
  | cons e l ih =>
    obtain ⟨hfirst, hl⟩ := List.pairwise_cons.mp h
    rw [find, List.mem_cons]
    by_cases hk : e.1 = k
    · subst hk
      rw [if_pos rfl, Option.some.injEq]
      constructor
      · rintro rfl
        exact Or.inl rfl
      · rintro (heq | hmem)
        · rw [← heq]
        · exact absurd (hfirst _ hmem) (lt_irrefl _)
    · rw [if_neg hk, ih hl]
      refine ⟨Or.inr, fun hmem => hmem.resolve_left ?_⟩
      rintro rfl
      exact hk rfl

/-- A value that is put back changes nothing. -/
theorem alter_eq_self {k : κ} {f : Option ν → Option ν} {l : List (κ × ν)} (h : Ordered l)
    (hf : f (find k l) = find k l) : alter k f l = l := by
  induction l with
  | nil =>
    rw [find] at hf
    simp [alter, hf]
  | cons e l ih =>
    unfold alter
    split
    · rename_i hk
      rw [find_eq_none_of_lt h hk] at hf
      simp [hf]
    split
    · rename_i hlt hk
      rw [find, if_pos hk] at hf
      simp [hf, ← hk]
    · rename_i hlt hne
      rw [find, if_neg hne] at hf
      rw [ih (List.pairwise_cons.mp h).2 hf]

/-- The sum of a measure of the values. -/
def weight (g : ν → ℕ) (l : List (κ × ν)) : ℕ := (l.map fun e => g e.2).sum

omit [LinearOrder κ] in
theorem weight_made_append (g : ν → ℕ) (k : κ) (o : Option ν) (l : List (κ × ν)) :
    weight g (o.toList.map (k, ·) ++ l) = (o.map g).getD 0 + weight g l := by
  cases o <;> simp [weight]

/-- Altering one key adds the new value there and takes the old one away. -/
theorem weight_alter (g : ν → ℕ) (k : κ) (f : Option ν → Option ν) {l : List (κ × ν)}
    (h : Ordered l) :
    weight g (alter k f l) + ((find k l).map g).getD 0 =
      weight g l + ((f (find k l)).map g).getD 0 := by
  induction l with
  | nil =>
    have hmade := weight_made_append g k (f none) []
    rw [List.append_nil] at hmade
    simp only [alter, find, hmade, Option.map_none, Option.getD_none]
    omega
  | cons e l ih =>
    unfold alter
    split
    · rename_i hk
      rw [find_eq_none_of_lt h hk, weight_made_append]
      simp only [Option.map_none, Option.getD_none]
      omega
    split
    · rename_i hlt hk
      rw [find, if_pos hk, weight_made_append]
      simp only [weight, List.map_cons, List.sum_cons, Option.map_some, Option.getD_some]
      omega
    · rename_i hlt hne
      have htail := ih (List.pairwise_cons.mp h).2
      rw [find, if_neg hne]
      simp only [weight, List.map_cons, List.sum_cons] at htail ⊢
      omega

/-- Altering at a key behind all others appends. -/
theorem alter_append {k : κ} {f : Option ν → Option ν} {l : List (κ × ν)}
    (h : ∀ e ∈ l, e.1 < k) : alter k f l = l ++ (f none).toList.map (k, ·) := by
  induction l with
  | nil => rfl
  | cons e l ih =>
    have he := h e List.mem_cons_self
    rw [alter, if_neg he.not_gt, if_neg he.ne, List.cons_append,
      ih fun x hx => h x (List.mem_cons_of_mem _ hx)]

/-- `emplace`: an entry for the key is added unless there is one. -/
def emplace (k : κ) (v : ν) : List (κ × ν) → List (κ × ν) := alter k fun o => some (o.getD v)

def emplaceAll (acc l : List (κ × ν)) : List (κ × ν) := l.foldl (fun m e => emplace e.1 e.2 m) acc

/-- Of several entries with one key the first one stays. -/
theorem find_emplaceAll {acc : List (κ × ν)} (l : List (κ × ν)) (k : κ) (h : Ordered acc) :
    find k (emplaceAll acc l) = (find k acc).or (find k l) := by
  induction l generalizing acc with
  | nil => simp [emplaceAll, find]
  | cons e l ih =>
    refine (ih (ordered_alter e.1 (fun o => some (o.getD e.2)) h)).trans ?_
    rw [find_alter _ _ _ h]
    by_cases hk : k = e.1
    · subst hk
      cases hf : find e.1 acc <;> simp [find]
    · rw [if_neg hk, find, if_neg (Ne.symm hk)]

/-- Entries in order, emplaced one by one, are the map again. -/
theorem emplaceAll_append {acc l : List (κ × ν)} (h : Ordered (acc ++ l)) :
    emplaceAll acc l = acc ++ l := by
  induction l generalizing acc with
  | nil => simp [emplaceAll]
  | cons e l ih =>
    have hacc : ∀ x ∈ acc, x.1 < e.1 := fun x hx =>
      (List.pairwise_append.mp h).2.2 x hx e List.mem_cons_self
    have hstep : emplace e.1 e.2 acc = acc ++ [e] := alter_append hacc
    calc emplaceAll acc (e :: l) = emplaceAll (acc ++ [e]) l := by rw [← hstep]; rfl
      _ = acc ++ [e] ++ l := ih (by simpa using h)
      _ = acc ++ e :: l := by simp

end Lists

/-- A list of entries that is in the order of its keys. -/
@[ext] structure OrderedMap (κ : Type u) [LinearOrder κ] (ν : Type v) where
  entries : List (κ × ν)
  ordered : Ordered entries

namespace OrderedMap

variable (m : OrderedMap κ ν)

def empty : OrderedMap κ ν := ⟨[], List.Pairwise.nil⟩

instance : Inhabited (OrderedMap κ ν) := ⟨empty⟩

instance [DecidableEq κ] [DecidableEq ν] : DecidableEq (OrderedMap κ ν) := fun a b =>
  decidable_of_iff (a.entries = b.entries) OrderedMap.ext_iff.symm

def find (k : κ) : Option ν := OrderedMaps.find k m.entries

def alter (k : κ) (f : Option ν → Option ν) : OrderedMap κ ν :=
  ⟨OrderedMaps.alter k f m.entries, ordered_alter k f m.ordered⟩

/-- `m[k] = v` -/
def insert (k : κ) (v : ν) : OrderedMap κ ν := m.alter k fun _ => some v

/-- Changes `m[k]` in place, which is made first when there is none. -/
def modify (k : κ) (default : ν) (f : ν → ν) : OrderedMap κ ν :=
  m.alter k fun o => some (f (o.getD default))

def emplace (k : κ) (v : ν) : OrderedMap κ ν := m.alter k fun o => some (o.getD v)

def erase (k : κ) : OrderedMap κ ν := m.alter k fun _ => none

theorem mem_entries {k : κ} {v : ν} : (k, v) ∈ m.entries ↔ m.find k = some v :=
  (find_eq_some m.ordered).symm

@[simp] theorem find_empty (k : κ) : (empty : OrderedMap κ ν).find k = none := rfl

theorem find_alter (k j : κ) (f : Option ν → Option ν) :
    (m.alter k f).find j = if j = k then f (m.find k) else m.find j :=
  OrderedMaps.find_alter k j f m.ordered

@[simp] theorem find_insert (k j : κ) (v : ν) :
    (m.insert k v).find j = if j = k then some v else m.find j :=
  m.find_alter k j _

@[simp] theorem find_modify (k j : κ) (default : ν) (f : ν → ν) :
    (m.modify k default f).find j =
      if j = k then some (f ((m.find k).getD default)) else m.find j :=
  m.find_alter k j _

theorem alter_eq_self {k : κ} {f : Option ν → Option ν} (h : f (m.find k) = m.find k) :
    m.alter k f = m :=
  OrderedMap.ext (OrderedMaps.alter_eq_self m.ordered h)

theorem insert_eq_self {k : κ} {v : ν} (h : m.find k = some v) : m.insert k v = m :=
  m.alter_eq_self h.symm

theorem modify_eq_self {k : κ} {default v : ν} {f : ν → ν} (h : m.find k = some v)
    (hf : f v = v) : m.modify k default f = m := by
  apply m.alter_eq_self
  rw [h]
  exact congrArg some hf

def weight (g : ν → ℕ) : ℕ := OrderedMaps.weight g m.entries

theorem weight_alter (g : ν → ℕ) (k : κ) (f : Option ν → Option ν) :
    (m.alter k f).weight g + ((m.find k).map g).getD 0 =
      m.weight g + ((f (m.find k)).map g).getD 0 :=
  OrderedMaps.weight_alter g k f m.ordered

theorem foldl_emplace (l : List (κ × ν)) (acc : OrderedMap κ ν) :
    (l.foldl (fun m e => m.emplace e.1 e.2) acc).entries = emplaceAll acc.entries l := by
  induction l generalizing acc with
  | nil => rfl
  | cons e l ih => exact ih _

/-- A map whose entries are emplaced one by one is built again. -/
theorem foldl_emplace_entries :
    m.entries.foldl (fun m e => m.emplace e.1 e.2) empty = m :=
  OrderedMap.ext ((foldl_emplace m.entries empty).trans (emplaceAll_append m.ordered))

end OrderedMap

end RooTesting.OrderedMaps
