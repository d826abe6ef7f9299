import Mathlib.Data.List.Count
import Mathlib.Order.Nat

/-! # Tables with a fixed number of slots

A slot holds an entry or is free. An entry goes to the first free slot and is taken out of the
first slot that holds it; the loop of `pick` finds the first of the entries of largest rank. -/
namespace RooTesting.WaitTable

universe u
variable {τ : Type u}

abbrev Slots (τ : Type u) := List (Option τ)

/-- The entry in the first free slot, where there is one. -/
def enqueue (me : τ) : Slots τ → Option (Slots τ)
  | [] => none
  | none :: rest => some (some me :: rest)
  | some t :: rest => (enqueue me rest).map (some t :: ·)

def dequeue [DecidableEq τ] (me : τ) : Slots τ → Slots τ
  | [] => []
  | slot :: rest => if slot = some me then none :: rest else slot :: dequeue me rest

/-- An entry replaces the one chosen before it when its priority is larger. -/
def better (priority : τ → ℕ) (i : ℕ) (t : τ) : Option (ℕ × τ) → ℕ × τ
  | none => (i, t)
  | some (j, u) => if priority u < priority t then (i, t) else (j, u)

/-- The slot and the entry chosen so far, after the slots from `i` on. -/
def pickFrom (priority : τ → ℕ) : ℕ → Option (ℕ × τ) → Slots τ → Option (ℕ × τ)
  | _, chosen, [] => chosen
  | i, chosen, none :: rest => pickFrom priority (i + 1) chosen rest
  | i, chosen, some t :: rest => pickFrom priority (i + 1) (some (better priority i t chosen)) rest

def pick (priority : τ → ℕ) (slots : Slots τ) : Option (ℕ × τ) := pickFrom priority 0 none slots

theorem count_enqueue [DecidableEq τ] {me : τ} {slots slots' : Slots τ}
    (h : enqueue me slots = some slots') (t : τ) :
    slots'.count (some t) = slots.count (some t) + if me = t then 1 else 0 := by
  induction slots generalizing slots' with
  | nil => cases h
  | cons slot rest ih =>
    cases slot with
    | none =>
      cases h
      by_cases hme : me = t
      · subst hme
        simp
      · simp [hme]
    | some u =>
      obtain ⟨rest', hrest, rfl⟩ := Option.map_eq_some_iff.mp h
      simp only [List.count_cons, ih hrest]
      omega

theorem mem_enqueue {me t : τ} {slots slots' : Slots τ} (h : enqueue me slots = some slots') :
    some t ∈ slots' ↔ t = me ∨ some t ∈ slots := by
  induction slots generalizing slots' with
  | nil => cases h
  | cons slot rest ih =>
    cases slot with
    | none =>
      cases h
      simp
    | some u =>
      obtain ⟨rest', hrest, rfl⟩ := Option.map_eq_some_iff.mp h
      simp only [List.mem_cons, ih hrest]
      exact or_left_comm

theorem better_eq (priority : τ → ℕ) (i : ℕ) (t : τ) (chosen : Option (ℕ × τ)) :
    better priority i t chosen = (i, t) ∨ chosen = some (better priority i t chosen) := by
  rcases chosen with _ | ⟨j, u⟩
  · exact Or.inl rfl
  · by_cases h : priority u < priority t
    · exact Or.inl (if_pos h)
    · exact Or.inr (by rw [better, if_neg h])

theorem le_better (priority : τ → ℕ) (i : ℕ) (t : τ) (chosen : Option (ℕ × τ)) :
    priority t ≤ priority (better priority i t chosen).2 ∧
      ∀ j u, chosen = some (j, u) → priority u ≤ priority (better priority i t chosen).2 := by
  rcases chosen with _ | ⟨j, u⟩
  · exact ⟨le_rfl, fun _ _ h => nomatch h⟩
  · by_cases h : priority u < priority t
    · rw [better, if_pos h]
      exact ⟨le_rfl, fun _ _ he => by cases he; exact h.le⟩
    · rw [better, if_neg h]
      exact ⟨not_lt.mp h, fun _ _ he => by cases he; exact le_rfl⟩

theorem pickFrom_isSome (priority : τ → ℕ) (i : ℕ) (chosen : Option (ℕ × τ)) (slots : Slots τ) :
    (pickFrom priority i chosen slots).isSome ↔ chosen.isSome ∨ ∃ t, some t ∈ slots := by
  induction slots generalizing i chosen with
  | nil => simp [pickFrom]
  | cons slot rest ih =>
    cases slot with
    | none => simp [pickFrom, ih]
    | some t =>
      rw [pickFrom, ih]
      exact iff_of_true (Or.inl rfl) (Or.inr ⟨t, List.mem_cons_self⟩)

theorem pickFrom_slot {priority : τ → ℕ} {i j : ℕ} {t : τ} {chosen : Option (ℕ × τ)}
    {slots : Slots τ} (h : pickFrom priority i chosen slots = some (j, t)) :
    chosen = some (j, t) ∨ ∃ k, j = i + k ∧ slots[k]? = some (some t) := by
  induction slots generalizing i chosen with
  | nil => exact Or.inl h
  | cons slot rest ih =>
    have hlater : ∀ {chosen'}, pickFrom priority (i + 1) chosen' rest = some (j, t) →
        chosen' = some (j, t) ∨ ∃ k, j = i + k ∧ (slot :: rest)[k]? = some (some t) := by
      intro chosen' h'
      rcases ih h' with h' | ⟨k, rfl, hk⟩
      · exact Or.inl h'
      · exact Or.inr ⟨k + 1, by omega, by simpa using hk⟩
    cases slot with
    | none => exact hlater h
    | some u =>
      rcases hlater h with hb | hk
      · rcases better_eq priority i u chosen with hu | hu
        · rw [hu] at hb
          cases hb
          exact Or.inr ⟨0, rfl, rfl⟩
        · exact Or.inl (hu.trans hb)
      · exact Or.inr hk

theorem pickFrom_priority {priority : τ → ℕ} {i j : ℕ} {t : τ} {chosen : Option (ℕ × τ)}
    {slots : Slots τ} (h : pickFrom priority i chosen slots = some (j, t)) :
    (∀ k u, chosen = some (k, u) → priority u ≤ priority t) ∧
      ∀ u, some u ∈ slots → priority u ≤ priority t := by
  induction slots generalizing i chosen with
  | nil =>
    cases h
    exact ⟨fun _ _ he => by cases he; exact le_rfl, fun u hu => nomatch hu⟩
  | cons slot rest ih =>
    cases slot with
    | none =>
      obtain ⟨hchosen, hrest⟩ := ih h
      exact ⟨hchosen, fun u hu => hrest u (by simpa using hu)⟩
    | some v =>
      obtain ⟨hchosen, hrest⟩ := ih h
      have hb := hchosen _ _ rfl
      obtain ⟨hv, hle⟩ := le_better priority i v chosen
      refine ⟨fun k u he => (hle k u he).trans hb, fun u hu => ?_⟩
      rcases List.mem_cons.mp hu with he | hu
      · cases he
        exact hv.trans hb
      · exact hrest u hu

theorem pick_isSome {priority : τ → ℕ} {slots : Slots τ} :
    (pick priority slots).isSome ↔ ∃ t, some t ∈ slots := by
  simp [pick, pickFrom_isSome]

/-- The entry chosen is in its slot, and no entry has a larger priority. -/
theorem pick_spec {priority : τ → ℕ} {slots : Slots τ} {j : ℕ} {t : τ}
    (h : pick priority slots = some (j, t)) :
    slots[j]? = some (some t) ∧ ∀ u, some u ∈ slots → priority u ≤ priority t := by
  constructor
  · rcases pickFrom_slot h with he | ⟨k, rfl, hk⟩
    · cases he
    · simpa using hk
  · exact (pickFrom_priority h).2

variable [DecidableEq τ]

theorem count_dequeue (me t : τ) (slots : Slots τ) :
    (dequeue me slots).count (some t) = slots.count (some t) - if me = t then 1 else 0 := by
  induction slots with
  | nil => simp [dequeue]
  | cons slot rest ih =>
    by_cases h : slot = some me
    · subst h
      by_cases hme : me = t
      · subst hme
        simp [dequeue]
      · simp [dequeue, hme]
    · rw [dequeue, if_neg h, List.count_cons, List.count_cons, ih]
      by_cases hme : me = t
      · subst hme
        simp [h]
      · simp [hme]

/-- Nothing but the entry itself leaves. -/
theorem mem_dequeue_of_ne {me t : τ} (h : t ≠ me) {slots : Slots τ} :
    some t ∈ dequeue me slots ↔ some t ∈ slots := by
  rw [← List.count_pos_iff, ← List.count_pos_iff, count_dequeue, if_neg (Ne.symm h)]
  rfl

theorem not_mem_dequeue {me : τ} {slots : Slots τ} (h : slots.count (some me) ≤ 1) :
    some me ∉ dequeue me slots := by
  rw [← List.count_pos_iff, count_dequeue, if_pos rfl]
  omega

/-- A slot that is freed loses its entry and no other. -/
theorem count_free {slots : Slots τ} {j : ℕ} {t : τ} (h : slots[j]? = some (some t)) (u : τ) :
    (slots.set j none).count (some u) = slots.count (some u) - if t = u then 1 else 0 := by
  induction slots generalizing j with
  | nil => cases h
  | cons slot rest ih =>
    cases j with
    | zero =>
      obtain rfl : slot = some t := by simpa using h
      by_cases hu : t = u
      · subst hu
        simp
      · simp [hu]
    | succ j =>
      have hrest : rest[j]? = some (some t) := by simpa using h
      rw [List.set_cons_succ, List.count_cons, List.count_cons, ih hrest]
      by_cases hu : t = u
      · subst hu
        have hpos := List.count_pos_iff.mpr (List.mem_of_getElem? hrest)
        simp only [if_true]
        omega
      · simp [hu]

end RooTesting.WaitTable
