import RooTesting.NvsJson

/-! # The bounds of the parser

Every part of the parser leaves less of the input than it was given, so that neither the
bound on the depth nor the bounds on the loops are ever met. -/
namespace RooTesting.Nvs
open OrderedMaps

/-- What the parser succeeds on gets shorter. -/
def Consumes {α : Type} (p : Bytes → Option (α × Bytes)) : Prop :=
  ∀ input a rest, p input = some (a, rest) → rest.length < input.length

theorem length_skipWhitespace (input : Bytes) : (skipWhitespace input).length ≤ input.length :=
  (List.dropWhile_sublist _).length_le

theorem consumeChar_length {ch : UInt8} {input rest : Bytes}
    (h : consumeChar ch input = some rest) : rest.length < input.length := by
  have hskip := length_skipWhitespace input
  unfold consumeChar at h
  split at h
  · cases h
  · rename_i c tail heq
    split at h
    · cases h
      rw [heq] at hskip
      exact hskip
    · cases h

theorem push_length {c : UInt8} {o : Option (Bytes × Bytes)} {s rest : Bytes}
    (h : push c o = some (s, rest)) : ∃ s', o = some (s', rest) := by
  obtain ⟨⟨s', rest'⟩, ho, h⟩ := Option.map_eq_some_iff.mp h
  cases h
  exact ⟨s', ho⟩

theorem parseChars_length {input s rest : Bytes} (h : parseChars input = some (s, rest)) :
    rest.length < input.length := by
  induction hn : input.length using Nat.strong_induction_on generalizing input s with
  | _ n ih =>
    subst hn
    -- behind every character read the induction hypothesis takes over
    have next : ∀ {c : UInt8} {tail : Bytes}, tail.length < input.length →
        push c (parseChars tail) = some (s, rest) → rest.length < input.length := by
      intro c tail htail hpush
      obtain ⟨s', hs'⟩ := push_length hpush
      exact (ih _ htail hs' rfl).trans htail
    rw [parseChars.eq_def] at h
    split at h
    · cases h
    split at h
    · cases h
      exact Nat.lt_succ_self _
    split at h
    · split at h
      · cases h
      split at h
      · split at h
        · split at h
          · cases h
          · exact next (by simp only [List.length_cons]; omega) h
        · cases h
      · split at h
        · cases h
        · exact next (by simp only [List.length_cons]; omega) h
    · exact next (Nat.lt_succ_self _) h

theorem consumes_parseString : Consumes parseString := by
  intro input s rest h
  obtain ⟨tail, htail, h⟩ := Option.bind_eq_some_iff.mp h
  exact (parseChars_length h).trans (consumeChar_length htail)

theorem consumes_parseNumber : Consumes parseNumber := by
  intro input s rest h
  have hskip := length_skipWhitespace input
  unfold parseNumber at h
  dsimp only at h
  generalize hsign : (if (skipWhitespace input).head? = some '-'.toUInt8 then ['-'.toUInt8]
    else []) = sign at h
  split at h
  · cases h
  · rename_i hdigits
    cases h
    have hsplit := congrArg List.length
      (List.takeWhile_append_dropWhile (p := isDigit) (l := (skipWhitespace input).drop sign.length))
    have hpos := List.length_pos_of_ne_nil hdigits
    have hdrop := List.length_drop (i := sign.length) (l := skipWhitespace input)
    rw [List.length_append] at hsplit
    omega

section Loops

variable {value value' : Bytes → Option (Json × Bytes)} {n m b : ℕ}

theorem parseElements_length (hv : Consumes value) {elements elements' : List Json}
    {input rest : Bytes} (h : parseElements value n elements input = some (elements', rest)) :
    rest.length < input.length := by
  induction n generalizing elements input with
  | zero => cases h
  | succ n ih =>
    obtain ⟨⟨element, tail⟩, hvalue, h⟩ := Option.bind_eq_some_iff.mp h
    have htail := hv _ _ _ hvalue
    have hskip := length_skipWhitespace tail
    dsimp only at h
    split at h
    · cases h
      rw [List.length_tail]
      omega
    · obtain ⟨behind, hcomma, h⟩ := Option.bind_eq_some_iff.mp h
      have := consumeChar_length hcomma
      have := ih h
      omega

theorem parseElements_nil (hv : Consumes value) (n : ℕ) (elements : List Json) :
    parseElements value n elements [] = none := by
  cases h : parseElements value n elements [] with
  | none => rfl
  | some r => exact absurd (parseElements_length hv h) (Nat.not_lt_zero _)

/-- The loop over the elements does not depend on its bound, nor on what the parser of
values does with texts that are longer than the input. -/
theorem parseElements_congr (hv : Consumes value) (hv' : Consumes value')
    (h : ∀ i, i.length ≤ b → value i = value' i) {elements : List Json} {input : Bytes}
    (hb : input.length ≤ b) (hn : input.length ≤ n) (hm : input.length ≤ m) :
    parseElements value n elements input = parseElements value' m elements input := by
  induction n generalizing m elements input with
  | zero =>
    obtain rfl := List.eq_nil_of_length_eq_zero (Nat.le_zero.mp hn)
    rw [parseElements_nil hv, parseElements_nil hv']
  | succ n ih =>
    cases m with
    | zero =>
      obtain rfl := List.eq_nil_of_length_eq_zero (Nat.le_zero.mp hm)
      rw [parseElements_nil hv, parseElements_nil hv']
    | succ m =>
      rw [parseElements, parseElements, h input hb]
      cases hvalue : value' input with
      | none => rfl
      | some r =>
        obtain ⟨element, tail⟩ := r
        have htail := hv' _ _ _ hvalue
        have hskip := length_skipWhitespace tail
        simp only [Option.bind_eq_bind, Option.bind_some]
        split
        · rfl
        cases hcomma : consumeChar ','.toUInt8 (skipWhitespace tail) with
        | none => rfl
        | some behind =>
          have hbehind := consumeChar_length hcomma
          exact ih (by omega) (by omega) (by omega)

theorem parseMembers_length (hv : Consumes value) {members members' : List (Bytes × Json)}
    {input rest : Bytes} (h : parseMembers value n members input = some (members', rest)) :
    rest.length < input.length := by
  induction n generalizing members input with
  | zero => cases h
  | succ n ih =>
    obtain ⟨⟨key, tail⟩, hkey, h⟩ := Option.bind_eq_some_iff.mp h
    obtain ⟨behind, hcolon, h⟩ := Option.bind_eq_some_iff.mp h
    obtain ⟨⟨element, tail'⟩, hvalue, h⟩ := Option.bind_eq_some_iff.mp h
    have htail := consumes_parseString _ _ _ hkey
    have hbehind := consumeChar_length hcolon
    have htail' := hv _ _ _ hvalue
    have hskip := length_skipWhitespace tail'
    dsimp only at h hbehind
    split at h
    · cases h
      rw [List.length_tail]
      omega
    · obtain ⟨behind', hcomma, h⟩ := Option.bind_eq_some_iff.mp h
      have := consumeChar_length hcomma
      have := ih h
      omega

theorem parseMembers_nil (hv : Consumes value) (n : ℕ) (members : List (Bytes × Json)) :
    parseMembers value n members [] = none := by
  cases h : parseMembers value n members [] with
  | none => rfl
  | some r => exact absurd (parseMembers_length hv h) (Nat.not_lt_zero _)

theorem parseMembers_congr (hv : Consumes value) (hv' : Consumes value')
    (h : ∀ i, i.length ≤ b → value i = value' i) {members : List (Bytes × Json)} {input : Bytes}
    (hb : input.length ≤ b) (hn : input.length ≤ n) (hm : input.length ≤ m) :
    parseMembers value n members input = parseMembers value' m members input := by
  induction n generalizing m members input with
  | zero =>
    obtain rfl := List.eq_nil_of_length_eq_zero (Nat.le_zero.mp hn)
    rw [parseMembers_nil hv, parseMembers_nil hv']
  | succ n ih =>
    cases m with
    | zero =>
      obtain rfl := List.eq_nil_of_length_eq_zero (Nat.le_zero.mp hm)
      rw [parseMembers_nil hv, parseMembers_nil hv']
    | succ m =>
      rw [parseMembers, parseMembers]
      cases hkey : parseString input with
      | none => rfl
      | some r =>
        obtain ⟨key, tail⟩ := r
        have htail := consumes_parseString _ _ _ hkey
        simp only [Option.bind_eq_bind, Option.bind_some]
        cases hcolon : consumeChar ':'.toUInt8 tail with
        | none => rfl
        | some behind =>
          have hbehind := consumeChar_length hcolon
          rw [Option.bind_some, Option.bind_some, h behind (by omega)]
          cases hvalue : value' behind with
          | none => rfl
          | some r =>
            obtain ⟨element, tail'⟩ := r
            have htail' := hv' _ _ _ hvalue
            have hskip := length_skipWhitespace tail'
            rw [Option.bind_some, Option.bind_some]
            split
            · rfl
            cases hcomma : consumeChar ','.toUInt8 (skipWhitespace tail') with
            | none => rfl
            | some behind' =>
              have hbehind' := consumeChar_length hcomma
              exact ih (by omega) (by omega) (by omega)

end Loops

section Values

variable {value value' : Bytes → Option (Json × Bytes)}

/-- Something between brackets, empty or read by a loop that consumes. -/
theorem bracketed_length {α : Type} {opening closing : UInt8} {empty : Json} {whole : α → Json}
    (loop : Bytes → Option (α × Bytes))
    (hloop : ∀ input a rest, loop input = some (a, rest) → rest.length < input.length)
    {input rest : Bytes} {a : Json}
    (h : ((consumeChar opening input).bind fun tail =>
      if (skipWhitespace tail).head? = some closing then some (empty, (skipWhitespace tail).tail)
      else (loop (skipWhitespace tail)).bind fun r => some (whole r.1, r.2)) = some (a, rest)) :
    rest.length < input.length := by
  obtain ⟨tail, htail, h⟩ := Option.bind_eq_some_iff.mp h
  have hlength := consumeChar_length htail
  have hskip := length_skipWhitespace tail
  split at h
  · cases h
    rw [List.length_tail]
    omega
  · obtain ⟨r, hr, h⟩ := Option.bind_eq_some_iff.mp h
    cases h
    have hrest := hloop _ _ _ hr
    omega

theorem consumes_parseArray (hv : Consumes value) : Consumes (parseArray value) := by
  intro input a rest h
  exact bracketed_length (fun input => parseElements value input.length [] input)
    (fun _ _ _ hloop => parseElements_length hv hloop) h

theorem consumes_parseObject (hv : Consumes value) : Consumes (parseObject value) := by
  intro input a rest h
  exact bracketed_length (fun input => parseMembers value input.length [] input)
    (fun _ _ _ hloop => parseMembers_length hv hloop) h

/-- Only what follows the opening bracket is given to the loop. -/
theorem bracketed_congr {α : Type} {opening closing : UInt8} {empty : Json} {whole : α → Json}
    {input : Bytes} (loop loop' : Bytes → Option (α × Bytes))
    (h : ∀ tail : Bytes, tail.length < input.length → loop tail = loop' tail) :
    ((consumeChar opening input).bind fun tail =>
      if (skipWhitespace tail).head? = some closing then some (empty, (skipWhitespace tail).tail)
      else (loop (skipWhitespace tail)).bind fun r => some (whole r.1, r.2)) =
    (consumeChar opening input).bind fun tail =>
      if (skipWhitespace tail).head? = some closing then some (empty, (skipWhitespace tail).tail)
      else (loop' (skipWhitespace tail)).bind fun r => some (whole r.1, r.2) := by
  cases htail : consumeChar opening input with
  | none => rfl
  | some tail =>
    have hlength := consumeChar_length htail
    have hskip := length_skipWhitespace tail
    simp only [Option.bind_some]
    rw [h (skipWhitespace tail) (by omega)]

theorem parseArray_congr (hv : Consumes value) (hv' : Consumes value') {input : Bytes}
    (h : ∀ i, i.length < input.length → value i = value' i) :
    parseArray value input = parseArray value' input :=
  bracketed_congr (fun input => parseElements value input.length [] input)
    (fun input => parseElements value' input.length [] input) fun tail htail =>
      parseElements_congr hv hv' (b := input.length - 1) (fun i hi => h i (by omega)) (by omega)
        (Nat.le_refl _) (Nat.le_refl _)

theorem parseObject_congr (hv : Consumes value) (hv' : Consumes value') {input : Bytes}
    (h : ∀ i, i.length < input.length → value i = value' i) :
    parseObject value input = parseObject value' input :=
  bracketed_congr (fun input => parseMembers value input.length [] input)
    (fun input => parseMembers value' input.length [] input) fun tail htail =>
      parseMembers_congr hv hv' (b := input.length - 1) (fun i hi => h i (by omega)) (by omega)
        (Nat.le_refl _) (Nat.le_refl _)

theorem consumes_parseValue (n : ℕ) : Consumes (parseValue n) := by
  induction n with
  | zero => exact fun _ _ _ h => nomatch h
  | succ n ih =>
    intro input a rest h
    have hskip := length_skipWhitespace input
    refine Nat.lt_of_lt_of_le ?_ hskip
    have token : ∀ {p : Bytes → Option (Bytes × Bytes)} {f : Bytes → Json}, Consumes p →
        (p (skipWhitespace input)).map (fun r => (f r.1, r.2)) = some (a, rest) →
        rest.length < (skipWhitespace input).length := by
      intro p f hp hr
      obtain ⟨r, hparse, hr⟩ := Option.map_eq_some_iff.mp hr
      cases hr
      exact hp _ _ _ hparse
    have word : ∀ {w : Bytes} {j : Json}, 0 < w.length → w <+: skipWhitespace input →
        some (j, (skipWhitespace input).drop w.length) = some (a, rest) →
        rest.length < (skipWhitespace input).length := by
      intro w j hw hprefix hr
      cases hr
      have := hprefix.length_le
      rw [List.length_drop]
      omega
    rw [parseValue] at h
    split at h
    · cases h
    split at h
    · exact token consumes_parseString h
    split at h
    · exact consumes_parseObject ih _ _ _ h
    split at h
    · exact consumes_parseArray ih _ _ _ h
    split at h
    · exact token consumes_parseNumber h
    split at h
    · exact word (w := text "true") (by decide) ‹_› h
    split at h
    · exact word (w := text "false") (by decide) ‹_› h
    split at h
    · exact word (w := text "null") (by decide) ‹_› h
    · cases h

/-- A parser that may go deeper than the input is long reads the same, however deep it may go. -/
theorem parseValue_bound {n m : ℕ} {input : Bytes} (hn : input.length < n)
    (hm : input.length < m) : parseValue n input = parseValue m input := by
  induction n generalizing m input with
  | zero => exact absurd hn (Nat.not_lt_zero _)
  | succ n ih =>
    obtain ⟨m, rfl⟩ : ∃ i, m = i + 1 := ⟨m - 1, by omega⟩
    have hskip := length_skipWhitespace input
    have hinner : ∀ i, i.length < (skipWhitespace input).length →
        parseValue n i = parseValue m i := fun i hi => ih (by omega) (by omega)
    have harray := parseArray_congr (consumes_parseValue n) (consumes_parseValue m) hinner
    have hobject := parseObject_congr (consumes_parseValue n) (consumes_parseValue m) hinner
    rw [parseValue, parseValue, harray, hobject]

/-- The parse of a text is what a parser without a bound on the depth makes of it. -/
theorem parse_bound {n : ℕ} {input : Bytes} (hn : input.length < n) :
    parse input = (parseValue n input).map fun r => (r.1, skipWhitespace r.2) := by
  rw [parse, parseValue_bound (Nat.lt_succ_self _) hn]

end Values

end RooTesting.Nvs
