import Mathlib.Algebra.Group.Nat.Defs
import Mathlib.Data.List.Basic
import Mathlib.Tactic.Common

/-! # Paths of the Pico filesystems

`PicoFilesystemState::resolve` confines a path to the root its files live in. Strings are lists of
characters, the empty one stands for failure; which host files are symbolic links is given. -/
namespace RooTesting.PicoFiles

theorem shorter {rest : List Char} (h : rest ≠ []) {n : ℕ} :
    (rest.drop (n + 1)).length < rest.length := by
  have hpos := List.length_pos_iff.mpr h
  rw [List.length_drop]
  omega

/-- The loop over the parts of a path; `rest` is the path from `start` on. -/
def resolveFrom (isLink : List Char → Bool) (result rest : List Char) : List Char :=
  if rest = [] then result
  else
    let part := rest.takeWhile (· ≠ '/')
    if part = ['.', '.'] then []
    else if part ≠ [] ∧ part ≠ ['.'] then
      if isLink (result ++ '/' :: part) then []
      else resolveFrom isLink (result ++ '/' :: part) (rest.drop (part.length + 1))
    else resolveFrom isLink result (rest.drop (part.length + 1))
  termination_by rest.length
  decreasing_by all_goals exact shorter ‹_›

/-- A path that is no path is a null pointer. -/
def resolve (isLink : List Char → Bool) (root : List Char) (path : Option (List Char)) : List Char :=
  match path with
  | none => []
  | some relative =>
    if root = [] ∨ relative.head? ≠ some '/' then []
    else resolveFrom isLink root (relative.drop 1)

/-- The parts of a path that name something. -/
def components (path : List Char) : List (List Char) :=
  (path.splitOn '/').filter fun part => part ≠ [] ∧ part ≠ ['.']

/-- A file below a directory, named by components. -/
def below (directory : List Char) (parts : List (List Char)) : List Char :=
  directory ++ parts.flatMap ('/' :: ·)

/-- Components are followed until one is the parent or leads to a link. -/
def place (isLink : List Char → Bool) (result : List Char) : List (List Char) → List Char
  | [] => result
  | part :: parts =>
    if part = ['.', '.'] then []
    else if isLink (result ++ '/' :: part) then []
    else place isLink (result ++ '/' :: part) parts

section Components

variable {isLink : List Char → Bool} {part : List Char}

/-- A path is its only part, or a part and what stands behind the separator. -/
theorem path_cases (rest : List Char) :
    '/' ∉ rest ∨ ∃ part next, '/' ∉ part ∧ rest = part ++ '/' :: next := by
  by_cases h : '/' ∈ rest
  · obtain ⟨part, next, heq, hpart⟩ := List.eq_append_cons_of_mem h
    exact Or.inr ⟨part, next, hpart, heq⟩
  · exact Or.inl h

theorem takeWhile_part (h : '/' ∉ part) (next : List Char) :
    (part ++ '/' :: next).takeWhile (· ≠ '/') = part := by
  rw [List.takeWhile_append_of_pos]
  · simp
  · intro c hc
    exact decide_eq_true fun heq => h (heq ▸ hc)

theorem takeWhile_last (h : '/' ∉ part) : part.takeWhile (· ≠ '/') = part := by
  induction part with
  | nil => rfl
  | cons c rest ih =>
    rw [List.mem_cons, not_or] at h
    have hc : decide (c ≠ '/') = true := decide_eq_true (Ne.symm h.1)
    rw [List.takeWhile_cons, if_pos hc, ih h.2]

theorem components_part (h : '/' ∉ part) (next : List Char) :
    components (part ++ '/' :: next)
      = (if part ≠ [] ∧ part ≠ ['.'] then [part] else []) ++ components next := by
  unfold components
  rw [List.splitOn_append_cons_self_of_not_mem h, List.filter_cons]
  split <;> rename_i hkept
  · rw [if_pos (of_decide_eq_true hkept)]
    rfl
  · rw [if_neg fun hand => hkept (decide_eq_true hand)]
    rfl

theorem components_last (h : '/' ∉ part) :
    components part = if part ≠ [] ∧ part ≠ ['.'] then [part] else [] := by
  unfold components
  rw [List.splitOn_eq_singleton h, List.filter_cons, List.filter_nil]
  split <;> rename_i hkept
  · rw [if_pos (of_decide_eq_true hkept)]
  · rw [if_neg fun hand => hkept (decide_eq_true hand)]

theorem resolveFrom_nil (isLink : List Char → Bool) (result : List Char) :
    resolveFrom isLink result [] = result := by
  rw [resolveFrom, if_pos rfl]

/-- A part is followed, skipped or refused. -/
theorem place_part (isLink : List Char → Bool) (result part : List Char)
    (parts : List (List Char)) :
    place isLink result ((if part ≠ [] ∧ part ≠ ['.'] then [part] else []) ++ parts) =
      if part = ['.', '.'] then []
      else if part ≠ [] ∧ part ≠ ['.'] then
        if isLink (result ++ '/' :: part) then []
        else place isLink (result ++ '/' :: part) parts
      else place isLink result parts := by
  by_cases hkept : part ≠ [] ∧ part ≠ ['.']
  · rw [if_pos hkept, if_pos hkept]
    rfl
  · rw [if_neg hkept, if_neg hkept, List.nil_append, if_neg]
    intro hparent
    subst hparent
    exact hkept (by decide)

/-- The loop places the components of the path. -/
theorem resolveFrom_eq (isLink : List Char → Bool) (result rest : List Char) :
    resolveFrom isLink result rest = place isLink result (components rest) := by
  induction hlength : rest.length using Nat.strongRecOn generalizing result rest with
  | ind length ih =>
    by_cases hnil : rest = []
    · rw [hnil, resolveFrom_nil]
      rfl
    · rw [resolveFrom, if_neg hnil]
      rcases path_cases rest with hlast | ⟨part, next, hpart, rfl⟩
      · have hend : rest.drop (rest.length + 1) = [] := List.drop_eq_nil_of_le (Nat.le_succ _)
        dsimp only
        have hplace := place_part isLink result rest []
        rw [List.append_nil] at hplace
        rw [takeWhile_last hlast, hend, resolveFrom_nil, resolveFrom_nil, components_last hlast,
          hplace]
        rfl
      · have hnext : (part ++ '/' :: next).drop (part.length + 1) = next := by
          rw [List.drop_append, List.drop_eq_nil_of_le (Nat.le_succ _), List.nil_append,
            Nat.add_sub_cancel_left]
          rfl
        have hshort : next.length < length := by
          rw [← hlength, List.length_append, List.length_cons]
          omega
        dsimp only
        rw [takeWhile_part hpart, hnext, ih next.length hshort _ next rfl,
          ih next.length hshort _ next rfl, components_part hpart, place_part]

theorem components_separator (rest : List Char) : components ('/' :: rest) = components rest := by
  have hempty := components_part (List.not_mem_nil (a := '/')) rest
  rwa [if_neg fun hkept => hkept.1 rfl] at hempty

/-- What holds of the parts a path is made of. -/
def Named (part : List Char) : Prop := part ≠ [] ∧ part ≠ ['.'] ∧ '/' ∉ part

theorem named_components (path : List Char) : ∀ part ∈ components path, Named part := by
  induction hlength : path.length using Nat.strongRecOn generalizing path with
  | ind length ih =>
    intro part hpart
    rcases path_cases path with hlast | ⟨first, next, hfirst, rfl⟩
    · rw [components_last hlast] at hpart
      split at hpart
      · rename_i hkept
        rw [List.mem_singleton.mp hpart]
        exact ⟨hkept.1, hkept.2, hlast⟩
      · exact absurd hpart List.not_mem_nil
    · have hshort : next.length < length := by
        rw [← hlength, List.length_append, List.length_cons]
        omega
      rw [components_part hfirst, List.mem_append] at hpart
      rcases hpart with hpart | hpart
      · split at hpart
        · rename_i hkept
          rw [List.mem_singleton.mp hpart]
          exact ⟨hkept.1, hkept.2, hfirst⟩
        · exact absurd hpart List.not_mem_nil
      · exact ih next.length hshort next rfl part hpart

/-- Components joined again are the components of what they make up. -/
theorem components_intercalate {parts : List (List Char)} (h : ∀ part ∈ parts, Named part) :
    components ('/' :: ['/'].intercalate parts) = parts := by
  rw [components_separator]
  by_cases hnil : parts = []
  · rw [hnil]
    rfl
  · unfold components
    rw [List.splitOn_intercalate '/' (fun part hpart => (h part hpart).2.2) hnil,
      List.filter_eq_self]
    intro part hpart
    obtain ⟨hempty, hdot, -⟩ := h part hpart
    exact decide_eq_true ⟨hempty, hdot⟩

end Components

section Confinement

variable (isLink : List Char → Bool) {root : List Char}

theorem place_cases (result : List Char) (parts : List (List Char)) :
    place isLink result parts = [] ∨
      ['.', '.'] ∉ parts ∧ place isLink result parts = below result parts := by
  induction parts generalizing result with
  | nil => exact Or.inr ⟨List.not_mem_nil, (List.append_nil _).symm⟩
  | cons part parts ih =>
    rw [place]
    split
    · exact Or.inl rfl
    split
    · exact Or.inl rfl
    · rename_i hparent _
      refine (ih (result ++ '/' :: part)).imp_right fun h => ⟨?_, ?_⟩
      · exact fun hmem => (List.mem_cons.mp hmem).elim (fun heq => hparent heq.symm) h.1
      · rw [h.2, below, below, List.flatMap_cons, List.append_assoc]

theorem place_parent {parts : List (List Char)} (h : ['.', '.'] ∈ parts) (result : List Char) :
    place isLink result parts = [] := by
  rcases place_cases isLink result parts with hfail | ⟨hnot, -⟩
  · exact hfail
  · exact absurd h hnot

theorem resolve_relative {path : List Char} (h : path.head? ≠ some '/') :
    resolve isLink root (some path) = [] :=
  if_pos (Or.inr h)

theorem resolve_absolute (hroot : root ≠ []) {path : List Char} (h : path.head? = some '/') :
    resolve isLink root (some path) = place isLink root (components path) := by
  obtain ⟨rest, rfl⟩ : ∃ rest, path = '/' :: rest := by
    cases path with
    | nil => cases h
    | cons c rest =>
      cases h
      exact ⟨rest, rfl⟩
  rw [resolve, if_neg fun hor => hor.elim hroot fun hne => hne h, resolveFrom_eq,
    components_separator]
  rfl

theorem resolve_no_root (path : Option (List Char)) : resolve isLink [] path = [] := by
  cases path with
  | none => rfl
  | some path =>
    rw [resolve]
    exact if_pos (Or.inl rfl)

/-- A path resolves to nothing or to a file below the root, named by components that resolve to it
again; a parent component is refused, and the components of an absolute path decide. -/
theorem resolve_confined (root : List Char) :
    (∀ path, resolve isLink root path = [] ∨
      ∃ parts, (∀ part ∈ parts, part ≠ [] ∧ part ≠ ['.'] ∧ part ≠ ['.', '.'] ∧ '/' ∉ part) ∧
        resolve isLink root path = below root parts ∧
        resolve isLink root (some ('/' :: ['/'].intercalate parts)) = resolve isLink root path) ∧
    (∀ path : List Char, ['.', '.'] ∈ path.splitOn '/' →
      resolve isLink root (some path) = []) ∧
    (∀ path : List Char, path.head? ≠ some '/' → resolve isLink root (some path) = []) ∧
    (∀ path path' : List Char, path.head? = some '/' → path'.head? = some '/' →
      components path = components path' →
      resolve isLink root (some path) = resolve isLink root (some path')) := by
  by_cases hroot : root = []
  · subst hroot
    refine ⟨fun path => Or.inl (resolve_no_root isLink path), ?_, ?_, ?_⟩
    · exact fun path _ => resolve_no_root isLink _
    · exact fun path _ => resolve_no_root isLink _
    · exact fun path path' _ _ _ => by rw [resolve_no_root, resolve_no_root]
  refine ⟨fun path => ?_, fun path hparent => ?_, fun path h => resolve_relative isLink h, ?_⟩
  · cases path with
    | none => exact Or.inl rfl
    | some path =>
      by_cases habsolute : path.head? = some '/'
      · have heq := resolve_absolute isLink hroot habsolute
        rcases place_cases isLink root (components path) with hfail | ⟨hparent, hplace⟩
        · exact Or.inl (heq.trans hfail)
        · refine Or.inr ⟨components path, fun part hpart => ?_, heq.trans hplace, ?_⟩
          · obtain ⟨hempty, hdot, hslash⟩ := named_components path part hpart
            exact ⟨hempty, hdot, fun heq => hparent (heq ▸ hpart), hslash⟩
          · rw [resolve_absolute isLink hroot rfl, heq,
              components_intercalate (named_components path)]
      · exact Or.inl (resolve_relative isLink habsolute)
  · by_cases habsolute : path.head? = some '/'
    · rw [resolve_absolute isLink hroot habsolute]
      exact place_parent isLink (List.mem_filter.mpr ⟨hparent, by decide⟩) root
    · exact resolve_relative isLink habsolute
  · intro path path' h h' heq
    rw [resolve_absolute isLink hroot h, resolve_absolute isLink hroot h', heq]

/-- Without its leading separator a path has the same components and no file. -/
theorem relative_path :
    components ['a'] = components ['/', 'a'] ∧
    resolve (fun _ => false) ['/', 'r'] (some ['a']) = [] ∧
    resolve (fun _ => false) ['/', 'r'] (some ['/', 'a']) = ['/', 'r', '/', 'a'] := by
  refine ⟨rfl, rfl, ?_⟩
  rw [resolve_absolute (fun _ => false) (List.cons_ne_nil _ _) rfl]
  rfl

end Confinement

end RooTesting.PicoFiles
