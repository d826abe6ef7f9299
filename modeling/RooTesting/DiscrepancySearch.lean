import Mathlib.Order.PiLex
import Mathlib.Data.Finset.Sort
import Mathlib.Tactic.Common

/-! # Enumeration of words by their discrepancies

A walk chooses the bits of a word of a finite set one after the other. At a position where
the words that share the chosen prefix differ, the walk follows a rule made from the word
found before and from the last position where that word chose zero. Walks made so visit
the words in their lexicographic order. -/
namespace RooTesting.DiscrepancySearch

variable {n : ℕ}

abbrev Word (n : ℕ) := Fin n → Bool

/-- Two words have the same first `k` bits. -/
def Agree (k : ℕ) (v w : Word n) : Prop := ∀ i : Fin n, i.val < k → v i = w i

theorem Agree.refl (k : ℕ) (w : Word n) : Agree k w w := fun _ _ => rfl

theorem Agree.symm {k : ℕ} {v w : Word n} (h : Agree k v w) : Agree k w v :=
  fun i hi => (h i hi).symm

theorem Agree.trans {k : ℕ} {u v w : Word n} (h : Agree k u v) (h' : Agree k v w) :
    Agree k u w := fun i hi => (h i hi).trans (h' i hi)

theorem Agree.mono {j k : ℕ} {v w : Word n} (h : Agree k v w) (hle : j ≤ k) : Agree j v w :=
  fun i hi => h i (hi.trans_le hle)

theorem Agree.succ {k : Fin n} {v w : Word n} (h : Agree k v w) (hk : v k = w k) :
    Agree (k + 1) v w := by
  intro i hi
  rcases Nat.lt_succ_iff_lt_or_eq.mp hi with hlt | heq
  · exact h i hlt
  · rw [Fin.ext heq]
    exact hk

theorem agree_succ {k : Fin n} {v w : Word n} :
    Agree (k + 1) v w ↔ Agree k v w ∧ v k = w k := by
  constructor
  · intro h
    exact ⟨h.mono (Nat.le_succ _), h k (Nat.lt_succ_self _)⟩
  · rintro ⟨h, hk⟩
    exact h.succ hk

theorem Agree.eq {v w : Word n} (h : Agree n v w) : v = w := funext fun i => h i i.isLt

theorem lt_iff_agree {v w : Word n} :
    toLex v < toLex w ↔ ∃ i : Fin n, Agree i v w ∧ v i = false ∧ w i = true := by
  constructor
  · rintro ⟨i, hagree, hlt⟩
    exact ⟨i, hagree, Bool.lt_iff.mp hlt⟩
  · rintro ⟨i, hagree, hi⟩
    exact ⟨i, hagree, Bool.lt_iff.mpr hi⟩

variable {A : Finset (Word n)}

/-- Some word of the set shares the bits of `w` before `i` and differs there. -/
def Branches (A : Finset (Word n)) (w : Word n) (i : Fin n) : Prop :=
  ∃ v ∈ A, Agree i v w ∧ v i ≠ w i

theorem Branches.congr {v w : Word n} {i : Fin n} (h : Branches A v i)
    (hagree : Agree (i + 1) v w) : Branches A w i := by
  obtain ⟨u, hu, hui, hne⟩ := h
  obtain ⟨hbefore, hat⟩ := agree_succ.mp hagree
  exact ⟨u, hu, hui.trans hbefore, hat ▸ hne⟩

/-- Among the first `k` positions, `z` is one past the last discrepancy at which `w` chose
zero, and zero when there is none. -/
structure LastZero (A : Finset (Word n)) (w : Word n) (k z : ℕ) : Prop where
  chosen : z = 0 ∨ ∃ i : Fin n, i.val < k ∧ z = i + 1 ∧ w i = false ∧ Branches A w i
  last : ∀ i : Fin n, i.val < k → w i = false → Branches A w i → i + 1 ≤ z

theorem LastZero.none (A : Finset (Word n)) (w : Word n) : LastZero A w 0 0 where
  chosen := Or.inl rfl
  last := fun _ hi => absurd hi (Nat.not_lt_zero _)

theorem LastZero.congr {v w : Word n} {k z : ℕ} (h : LastZero A v k z) (hagree : Agree k v w) :
    LastZero A w k z := by
  constructor
  · rcases h.chosen with hz | ⟨i, hi, hz, hzero, hbranch⟩
    · exact Or.inl hz
    · exact Or.inr ⟨i, hi, hz, hagree i hi ▸ hzero, hbranch.congr (hagree.mono hi)⟩
  · intro i hi hzero hbranch
    exact h.last i hi ((hagree i hi).trans hzero) (hbranch.congr (hagree.symm.mono hi))

/-- A zero at a discrepancy moves the mark to it. -/
theorem LastZero.of_zero {w : Word n} {k : Fin n} (hzero : w k = false)
    (hbranch : Branches A w k) : LastZero A w (k + 1) (k + 1) where
  chosen := Or.inr ⟨k, Nat.lt_succ_self _, rfl, hzero, hbranch⟩
  last := fun _ hi _ _ => hi

/-- At a one, or without a discrepancy, the mark stays. -/
theorem LastZero.stay {w : Word n} {k : Fin n} {z : ℕ} (h : LastZero A w k z)
    (hk : w k = true ∨ ¬ Branches A w k) : LastZero A w (k + 1) z := by
  constructor
  · rcases h.chosen with hz | ⟨i, hi, hrest⟩
    · exact Or.inl hz
    · exact Or.inr ⟨i, hi.trans (Nat.lt_succ_self _), hrest⟩
  · intro i hi hzero hbranch
    rcases Nat.lt_succ_iff_lt_or_eq.mp hi with hlt | heq
    · exact h.last i hlt hzero hbranch
    · obtain rfl := Fin.ext heq
      rcases hk with hone | hnone
      · rw [hzero] at hone
        cases hone
      · exact absurd hbranch hnone

/-- The bit to choose at a discrepancy: before the mark that of the word found last, at the
mark one, behind it zero. -/
def direction (w : Word n) (mark : ℕ) (i : Fin n) : Bool :=
  if i + 1 < mark then w i else decide (i.val + 1 = mark)

/-- The walk to `w'` has followed the rule. -/
def Answers (A : Finset (Word n)) (w : Word n) (mark : ℕ) (w' : Word n) : Prop :=
  ∀ i, Branches A w' i → w' i = direction w mark i

/-- A walk along the rule whose first `k` bits are chosen; its other bits are still those of
the word found last. -/
structure Walked (A : Finset (Word n)) (w : Word n) (mark : ℕ) (c : Word n) (k z : ℕ) :
    Prop where
  inhabited : ∃ v ∈ A, Agree k v c
  answers : ∀ i : Fin n, i.val < k → Branches A c i → c i = direction w mark i
  rest : ∀ i : Fin n, k ≤ i.val → c i = w i
  lastZero : LastZero A c k z

theorem Walked.start (hA : A.Nonempty) (w : Word n) (mark : ℕ) : Walked A w mark w 0 0 where
  inhabited := by
    obtain ⟨v, hv⟩ := hA
    exact ⟨v, hv, fun _ hi => absurd hi (Nat.not_lt_zero _)⟩
  answers := fun _ hi => absurd hi (Nat.not_lt_zero _)
  rest := fun _ _ => rfl
  lastZero := LastZero.none A w

/-- The bit at `k` is chosen, the others stay. -/
def Chooses (c : Word n) (k : Fin n) (b : Bool) (c' : Word n) : Prop :=
  ∀ i, c' i = if i = k then b else c i

variable {w c c' : Word n} {mark z : ℕ} {k : Fin n} {b : Bool}

theorem Chooses.agree (h : Chooses c k b c') : Agree k c c' := by
  intro i hi
  rw [h i, if_neg fun heq => by rw [heq] at hi; exact absurd hi (Nat.lt_irrefl _)]

theorem Chooses.at (h : Chooses c k b c') : c' k = b := by
  rw [h k, if_pos rfl]

private theorem Walked.choose (h : Walked A w mark c k z) (hc : Chooses c k b c') {z' : ℕ}
    (hinhabited : ∃ v ∈ A, Agree k v c ∧ v k = b)
    (hanswers : Branches A c' k → c' k = direction w mark k)
    (hzero : LastZero A c' (k + 1) z') : Walked A w mark c' (k + 1) z' := by
  constructor
  · obtain ⟨v, hv, hagree, hvk⟩ := hinhabited
    exact ⟨v, hv, (hagree.trans hc.agree).succ (hvk.trans hc.at.symm)⟩
  · intro i hi hbranch
    rcases Nat.lt_succ_iff_lt_or_eq.mp hi with hlt | heq
    · rw [← hc.agree i hlt]
      exact h.answers i hlt (hbranch.congr (hc.agree.symm.mono hlt))
    · obtain rfl := Fin.ext heq
      exact hanswers hbranch
  · intro i hi
    rw [hc i, if_neg fun heq => by rw [heq] at hi; exact absurd hi (Nat.not_succ_le_self _)]
    exact h.rest i (by omega)
  · exact hzero

/-- All words that share the prefix have the same bit: it is taken. -/
theorem Walked.common (h : Walked A w mark c k z) (hall : ∀ v ∈ A, Agree k v c → v k = b)
    (hc : Chooses c k b c') : Walked A w mark c' (k + 1) z := by
  have hnone : ¬ Branches A c' k := by
    rintro ⟨v, hv, hagree, hne⟩
    exact hne ((hall v hv (hagree.trans hc.agree.symm)).trans hc.at.symm)
  obtain ⟨v, hv, hagree⟩ := h.inhabited
  exact h.choose hc ⟨v, hv, hagree, hall v hv hagree⟩ (fun hbranch => absurd hbranch hnone)
    ((h.lastZero.congr hc.agree).stay (Or.inr hnone))

/-- At a discrepancy the rule decides, and a zero is recorded. -/
theorem Walked.discrepancy (h : Walked A w mark c k z)
    (hzero : ∃ v ∈ A, Agree k v c ∧ v k = false) (hone : ∃ v ∈ A, Agree k v c ∧ v k = true)
    (hb : b = direction w mark k) (hc : Chooses c k b c') :
    Walked A w mark c' (k + 1) (if b then z else k + 1) := by
  have hbranch : Branches A c' k := by
    cases hbit : b with
    | false =>
      obtain ⟨v, hv, hagree, hvk⟩ := hone
      refine ⟨v, hv, hagree.trans hc.agree, ?_⟩
      rw [hvk, hc.at, hbit]
      decide
    | true =>
      obtain ⟨v, hv, hagree, hvk⟩ := hzero
      refine ⟨v, hv, hagree.trans hc.agree, ?_⟩
      rw [hvk, hc.at, hbit]
      decide
  refine h.choose hc ?_ (fun _ => hc.at.trans hb) ?_
  · cases b with
    | false => exact hzero
    | true => exact hone
  · cases hbit : b with
    | false => exact LastZero.of_zero (hc.at.trans hbit) hbranch
    | true => exact (h.lastZero.congr hc.agree).stay (Or.inl (hc.at.trans hbit))

theorem Walked.found (h : Walked A w mark c n z) :
    c ∈ A ∧ Answers A w mark c ∧ LastZero A c n z := by
  obtain ⟨v, hv, hagree⟩ := h.inhabited
  obtain rfl := hagree.eq
  exact ⟨hv, fun i => h.answers i i.isLt, h.lastZero⟩

/-- Without a mark the walk leads to the first word. -/
theorem Answers.least {w w' : Word n} (h : Answers A w 0 w') :
    ∀ v ∈ A, toLex w' ≤ toLex v := by
  intro v hv
  by_contra hnot
  obtain ⟨i, hagree, hzero, hone⟩ := lt_iff_agree.mp (not_le.mp hnot)
  have hbranch : Branches A w' i := ⟨v, hv, hagree, by rw [hzero, hone]; decide⟩
  have := h i hbranch
  rw [hone] at this
  simp [direction] at this

/-- Without a mark the word is the last one. -/
theorem LastZero.greatest {w : Word n} (h : LastZero A w n 0) : ∀ v ∈ A, toLex v ≤ toLex w := by
  intro v hv
  by_contra hnot
  obtain ⟨i, hagree, hzero, hone⟩ := lt_iff_agree.mp (not_le.mp hnot)
  have hbranch : Branches A w i := ⟨v, hv, hagree.symm, by rw [hzero, hone]; decide⟩
  exact absurd (h.last i i.isLt hzero hbranch) (Nat.not_succ_le_zero _)

theorem LastZero.not_greatest {w : Word n} {z : ℕ} (h : LastZero A w n z) (hz : z ≠ 0) :
    ∃ v ∈ A, toLex w < toLex v := by
  rcases h.chosen with hzero | ⟨i, _, _, hzero, v, hv, hagree, hne⟩
  · exact absurd hzero hz
  · refine ⟨v, hv, lt_iff_agree.mpr ⟨i, hagree.symm, hzero, ?_⟩⟩
    rw [hzero] at hne
    simpa using hne

/-- Up to the mark, the next walk follows the last word. -/
private theorem Answers.agree {w w' : Word n} {d : Fin n} (h : Answers A w (d + 1) w')
    (hw : w ∈ A) : ∀ k ≤ d.val, Agree k w' w := by
  intro k
  induction k with
  | zero => exact fun _ i hi => absurd hi (Nat.not_lt_zero _)
  | succ k ih =>
    intro hk
    have hbefore := ih (by omega)
    have hlt : k < n := by omega
    refine Agree.succ (k := ⟨k, hlt⟩) hbefore ?_
    by_contra hne
    have hbranch : Branches A w' ⟨k, hlt⟩ := ⟨w, hw, hbefore.symm, fun heq => hne heq.symm⟩
    have := h _ hbranch
    rw [direction, if_pos (Nat.succ_lt_succ hk)] at this
    exact hne this

private theorem Answers.one {w w' : Word n} {d : Fin n} (h : Answers A w (d + 1) w')
    (hw : w ∈ A) (hzero : w d = false) (hbranch : Branches A w d) : w' d = true := by
  have hagree := h.agree hw d le_rfl
  by_contra hne
  have hsame : w' d = w d := by
    rw [hzero]
    simpa using hne
  have hbranch' : Branches A w' d := hbranch.congr (hagree.symm.succ hsame.symm)
  have := h d hbranch'
  rw [direction, if_neg (Nat.lt_irrefl _)] at this
  exact hne (by simpa using this)

/-- With the mark of a word of the set, the walk leads to the next word of the set. -/
theorem Answers.next {w w' : Word n} {z : ℕ} (h : Answers A w z w') (hw : w ∈ A)
    (hmark : LastZero A w n z) (hz : z ≠ 0) :
    toLex w < toLex w' ∧ ∀ v ∈ A, toLex w < toLex v → toLex w' ≤ toLex v := by
  rcases hmark.chosen with hzero | ⟨d, _, rfl, hzero, hbranch⟩
  · exact absurd hzero hz
  have hagree := h.agree hw d le_rfl
  have hone := h.one hw hzero hbranch
  refine ⟨lt_iff_agree.mpr ⟨d, hagree.symm, hzero, hone⟩, ?_⟩
  intro v hv hlt
  obtain ⟨i, hwv, hwi, hvi⟩ := lt_iff_agree.mp hlt
  have hnotLater : i + 1 ≤ d.val + 1 :=
    hmark.last i i.isLt hwi ⟨v, hv, hwv.symm, by rw [hwi, hvi]; decide⟩
  rcases Nat.lt_or_eq_of_le (Nat.le_of_succ_le_succ hnotLater) with hbefore | heq
  · -- the word leaves the last one before the mark and is far behind the next
    have hi : w' i = false := (hagree i hbefore).trans hwi
    exact (lt_iff_agree.mpr ⟨i, (hagree.mono hbefore.le).trans hwv, hi, hvi⟩).le
  · obtain rfl := Fin.ext heq
    by_contra hnot
    obtain ⟨j, hvw', hvj, hw'j⟩ := lt_iff_agree.mp (not_le.mp hnot)
    have hprefix : Agree (i + 1) v w' := ((hwv.symm.trans hagree.symm)).succ (hvi.trans hone.symm)
    have hj : i < j := by
      by_contra hle
      have := hprefix j (Nat.lt_succ_of_le (not_lt.mp hle))
      rw [hvj, hw'j] at this
      cases this
    have := h j ⟨v, hv, hvw', by rw [hvj, hw'j]; decide⟩
    have hj' : i.val < j.val := hj
    rw [hw'j, direction, if_neg (by omega)] at this
    have : j.val + 1 = i.val + 1 := by simpa using this.symm
    omega

/-- The words of a set in their order. -/
noncomputable def inOrder (A : Finset (Word n)) : List (Lex (Word n)) :=
  (A.map toLex.toEmbedding).sort

theorem mem_inOrder {v : Word n} : toLex v ∈ inOrder A ↔ v ∈ A := by
  simp [inOrder]

theorem inOrder_pairwise (A : Finset (Word n)) : (inOrder A).Pairwise (· < ·) :=
  (Finset.sortedLT_sort _).pairwise

theorem inOrder_nodup (A : Finset (Word n)) : (inOrder A).Nodup := Finset.sort_nodup _ _

/-- In a sorted list, what is above a member stands behind it. -/
private theorem mem_behind {l r : List (Lex (Word n))} {u x : Lex (Word n)}
    (hsplit : inOrder A = l ++ u :: r) (hx : x ∈ inOrder A) (hlt : u < x) : x ∈ r := by
  have hsorted := inOrder_pairwise A
  rw [hsplit] at hx hsorted
  obtain ⟨_, _, hcross⟩ := List.pairwise_append.mp hsorted
  rcases List.mem_append.mp hx with hl | hr
  · exact absurd hlt (hcross x hl u List.mem_cons_self).asymm
  · rcases List.mem_cons.mp hr with rfl | hr
    · exact absurd hlt (lt_irrefl _)
    · exact hr

private theorem behind_lt {l r : List (Lex (Word n))} {u x : Lex (Word n)}
    (hsplit : inOrder A = l ++ u :: r) (hx : x ∈ r) : u < x := by
  have hsorted := inOrder_pairwise A
  rw [hsplit] at hsorted
  exact (List.pairwise_cons.mp (List.pairwise_append.mp hsorted).2.1).1 x hx

/-- The walk without a mark finds the head of the sorted list. -/
theorem Answers.least_inOrder {w w' : Word n} (h : Answers A w 0 w') (hmem : w' ∈ A) :
    ∃ r, inOrder A = toLex w' :: r := by
  have hin := mem_inOrder.mpr hmem
  have hsorted := inOrder_pairwise A
  cases hsplit : inOrder A with
  | nil => simp [hsplit] at hin
  | cons v r =>
    refine ⟨r, ?_⟩
    rw [hsplit] at hin
    rcases List.mem_cons.mp hin with heq | hr
    · rw [heq]
    · have hlt := behind_lt (l := []) hsplit hr
      have hv : ofLex v ∈ A := mem_inOrder.mp (by rw [hsplit]; exact List.mem_cons_self)
      exact absurd hlt (h.least (ofLex v) hv).not_gt

/-- The mark of a word is zero exactly at the end of the sorted list. -/
theorem LastZero.eq_zero_iff {w : Word n} {z : ℕ} (h : LastZero A w n z)
    {l r : List (Lex (Word n))} (hsplit : inOrder A = l ++ toLex w :: r) : z = 0 ↔ r = [] := by
  constructor
  · intro hz
    rw [hz] at h
    apply List.eq_nil_iff_forall_not_mem.mpr
    intro x hx
    have hxA : ofLex x ∈ A := mem_inOrder.mp (by rw [hsplit]; simp [hx])
    exact absurd (behind_lt hsplit hx) (h.greatest _ hxA).not_gt
  · intro hr
    by_contra hz
    obtain ⟨v, hv, hlt⟩ := h.not_greatest hz
    have := mem_behind hsplit (mem_inOrder.mpr hv) hlt
    rw [hr] at this
    exact absurd this List.not_mem_nil

/-- The walk with the mark of a word finds the word that stands behind it in the sorted
list. -/
theorem Answers.next_inOrder {w w' : Word n} {z : ℕ} (h : Answers A w z w') (hw : w ∈ A)
    (hmark : LastZero A w n z) (hz : z ≠ 0) (hmem : w' ∈ A) {l r : List (Lex (Word n))}
    {v : Lex (Word n)} (hsplit : inOrder A = l ++ toLex w :: v :: r) : toLex w' = v := by
  obtain ⟨hlt, hleast⟩ := h.next hw hmark hz
  have hvA : ofLex v ∈ A := mem_inOrder.mp (by rw [hsplit]; simp)
  have hle : toLex w' ≤ v := hleast _ hvA (behind_lt hsplit List.mem_cons_self)
  rcases List.mem_cons.mp (mem_behind hsplit (mem_inOrder.mpr hmem) hlt) with heq | hr
  · exact heq
  · have hsplit' : inOrder A = (l ++ [toLex w]) ++ v :: r := by simpa using hsplit
    exact absurd (behind_lt hsplit' hr) hle.not_gt

end RooTesting.DiscrepancySearch
