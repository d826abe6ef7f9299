import RooTesting.NvsStorage

/-! # Tokens read back

What the writer writes for a string, a number and a blob, the lexer reads back, whatever
follows. -/
namespace RooTesting.Nvs
open OrderedMaps

section Strings

theorem hexValue_hexDigit {n : ℕ} (h : n < 16) : hexValue (hexDigit n) = some n := by
  revert n
  decide

theorem hexDecode_hexEncode (value : Bytes) : hexDecode (hexEncode value) = some value := by
  induction value with
  | nil => rfl
  | cons c value ih =>
    have hc := c.toNat_lt
    have hbyte : c.toNat / 16 * 16 + c.toNat % 16 = c.toNat := by omega
    simp only [hexEncode, List.flatMap_cons, List.cons_append, List.nil_append, hexDecode,
      hexValue_hexDigit (show c.toNat / 16 < 16 by omega),
      hexValue_hexDigit (show c.toNat % 16 < 16 by omega), hbyte, UInt8.ofNat_toNat]
    rw [← hexEncode, ih]
    rfl

theorem parseChars_escaped {esc c : UInt8} (rest : Bytes) (hu : esc ≠ 'u'.toUInt8)
    (h : unescape esc = some c) :
    parseChars ('\\'.toUInt8 :: esc :: rest) = push c (parseChars rest) := by
  rw [parseChars.eq_def]
  show (if esc = 'u'.toUInt8 then _ else _) = _
  rw [if_neg hu, h]

theorem parseChars_unicode {h₁ h₂ h₃ h₄ : UInt8} {code : ℕ} (rest : Bytes)
    (hcode : hexCode [h₁, h₂, h₃, h₄] = some code) (hfits : code ≤ 0x7F) :
    parseChars ('\\'.toUInt8 :: 'u'.toUInt8 :: h₁ :: h₂ :: h₃ :: h₄ :: rest)
      = push (UInt8.ofNat code) (parseChars rest) := by
  have hquote : '\\'.toUInt8 ≠ '"'.toUInt8 := by decide
  rw [parseChars.eq_def]
  simp only [if_neg hquote, if_true, hcode, if_pos hfits]

/-- Every byte of a string, escaped or not, is read back. -/
theorem parseChars_escape (c : UInt8) (rest : Bytes) :
    parseChars (escape c ++ rest) = push c (parseChars rest) := by
  unfold escape
  iterate 7
    split
    · subst c
      exact parseChars_escaped rest (by decide) rfl
  split
  · rename_i hc
    have hlt : c.toNat < 32 := UInt8.lt_iff_toNat_lt.mp hc
    have hcode : hexCode [hexDigit 0, hexDigit 0, hexDigit (c.toNat / 16), hexDigit (c.toNat % 16)]
        = some c.toNat := by
      simp only [hexCode, List.foldlM, hexValue_hexDigit (show 0 < 16 by omega),
        hexValue_hexDigit (show c.toNat / 16 < 16 by omega),
        hexValue_hexDigit (show c.toNat % 16 < 16 by omega), Option.map_some, Option.bind_some,
        Option.pure_def, Option.bind_eq_bind]
      congr 1
      omega
    have hfits : c.toNat ≤ 0x7F := by omega
    exact (parseChars_unicode rest hcode hfits).trans (by rw [UInt8.ofNat_toNat])
  · rename_i hbackslash hquote _ _ _ _ _ _
    show parseChars (c :: rest) = _
    rw [parseChars.eq_def]
    simp only [if_neg hquote, if_neg hbackslash]

theorem parseChars_write (value rest : Bytes) :
    parseChars (value.flatMap escape ++ (text "\"" ++ rest)) = some (value, rest) := by
  induction value with
  | nil =>
    show parseChars ('"'.toUInt8 :: rest) = _
    rw [parseChars.eq_def]
    rfl
  | cons c value ih =>
    rw [List.flatMap_cons, List.append_assoc, parseChars_escape, ih]
    rfl

theorem skipWhitespace_append {spaces rest : Bytes} (h : spaces.all isSpace = true) :
    skipWhitespace (spaces ++ rest) = skipWhitespace rest := by
  rw [skipWhitespace, List.dropWhile_append_of_pos (by simpa using h)]
  rfl

theorem skipWhitespace_cons {c : UInt8} {rest : Bytes} (h : isSpace c = false) :
    skipWhitespace (c :: rest) = c :: rest := by
  simp [skipWhitespace, h]

/-- A string behind white space. -/
theorem parseString_write {spaces : Bytes} (value rest : Bytes)
    (h : spaces.all isSpace = true) :
    parseString (spaces ++ (writeJsonString value ++ rest)) = some (value, rest) := by
  have hquote : skipWhitespace (writeJsonString value ++ rest) = writeJsonString value ++ rest :=
    skipWhitespace_cons rfl
  rw [parseString, consumeChar, skipWhitespace_append h, hquote]
  show Option.bind (some (value.flatMap escape ++ text "\"" ++ rest)) parseChars = _
  rw [Option.bind_some, List.append_assoc, parseChars_write]

end Strings

section Numbers

/-- A digit of a number. -/
def digitChar (d : ℕ) : UInt8 := UInt8.ofNat ('0'.toNat + d)

theorem isDigit_digitChar {d : ℕ} (h : d < 10) :
    isDigit (digitChar d) = true ∧ (digitChar d).toNat - '0'.toNat = d := by
  revert d
  decide

theorem digits_lt {n d : ℕ} (h : d ∈ (Nat.digits 10 n).reverse) : d < 10 :=
  Nat.digits_lt_base (by omega) (List.mem_reverse.mp h)

theorem writeUint_eq (n : ℕ) : ∃ ds : List ℕ, ds ≠ [] ∧ (∀ d ∈ ds, d < 10) ∧
    writeUint n = ds.map digitChar ∧ ds.foldl (fun acc d => acc * 10 + d) 0 = n := by
  unfold writeUint
  split
  · subst n
    exact ⟨[0], by simp, by simp, rfl, rfl⟩
  · rename_i hn
    refine ⟨(Nat.digits 10 n).reverse, by simpa [Nat.digits_eq_nil_iff_eq_zero] using hn,
      fun d hd => digits_lt hd, rfl, ?_⟩
    rw [List.foldl_reverse]
    calc (Nat.digits 10 n).foldr (fun d acc => acc * 10 + d) 0
        = (Nat.digits 10 n).foldr (fun d acc => d + 10 * acc) 0 := by
          congr 1
          funext d acc
          omega
      _ = Nat.ofDigits 10 (Nat.digits 10 n) := by simp [Nat.ofDigits_eq_foldr]
      _ = n := Nat.ofDigits_digits 10 n

theorem digitsValue_map {ds : List ℕ} (h : ∀ d ∈ ds, d < 10) :
    digitsValue (ds.map digitChar) = ds.foldl (fun acc d => acc * 10 + d) 0 := by
  rw [digitsValue, List.foldl_map]
  generalize 0 = acc
  induction ds generalizing acc with
  | nil => rfl
  | cons d ds ih =>
    simp only [List.foldl_cons, (isDigit_digitChar (h d List.mem_cons_self)).2]
    exact ih (fun x hx => h x (List.mem_cons_of_mem _ hx)) _

theorem digitsValue_writeUint (n : ℕ) : digitsValue (writeUint n) = n := by
  obtain ⟨ds, -, hlt, heq, hvalue⟩ := writeUint_eq n
  rw [heq, digitsValue_map hlt, hvalue]

theorem isDigit_of_mem_writeUint {n : ℕ} : ∀ c ∈ writeUint n, isDigit c = true := by
  obtain ⟨ds, -, hlt, heq, -⟩ := writeUint_eq n
  rw [heq]
  intro c hc
  obtain ⟨d, hd, rfl⟩ := List.mem_map.mp hc
  exact (isDigit_digitChar (hlt d hd)).1

theorem writeUint_eq_cons (n : ℕ) : ∃ c cs, writeUint n = c :: cs ∧ isDigit c = true := by
  obtain ⟨ds, hne, hlt, heq, -⟩ := writeUint_eq n
  cases ds with
  | nil => exact absurd rfl hne
  | cons d ds =>
    exact ⟨_, _, heq, (isDigit_digitChar (hlt d List.mem_cons_self)).1⟩

theorem isDigit_ne {c : UInt8} (h : isDigit c = true) : c ≠ '-'.toUInt8 ∧ isSpace c = false := by
  have hbound : 48 ≤ c.toNat ∧ c.toNat ≤ 57 := by
    simp only [isDigit, UInt8.le_iff_toNat_le, Bool.and_eq_true, decide_eq_true_eq] at h
    exact h
  constructor
  · rintro rfl
    exact absurd hbound (by decide)
  · simp only [isSpace, Bool.or_eq_false_iff, decide_eq_false_iff_not]
    refine ⟨⟨⟨⟨⟨?_, ?_⟩, ?_⟩, ?_⟩, ?_⟩, ?_⟩
    all_goals
      rintro rfl
      exact absurd hbound (by decide)

/-- The text behind a number does not go on with a digit. -/
def Ends (rest : Bytes) : Prop := rest.head?.all (!isDigit ·) = true

theorem ends_cons {c : UInt8} {rest : Bytes} (h : isDigit c = false) : Ends (c :: rest) := by
  simpa [Ends] using h

theorem takeWhile_digits {ds rest : Bytes} (hds : ∀ c ∈ ds, isDigit c = true) (hrest : Ends rest) :
    (ds ++ rest).takeWhile isDigit = ds ∧ (ds ++ rest).dropWhile isDigit = rest := by
  have hstop : rest.takeWhile isDigit = [] ∧ rest.dropWhile isDigit = rest := by
    cases rest with
    | nil => exact ⟨rfl, rfl⟩
    | cons c rest =>
      have hc : isDigit c = false := by simpa [Ends] using hrest
      simp [hc]
  rw [List.takeWhile_append_of_pos hds, List.dropWhile_append_of_pos hds, hstop.1, hstop.2,
    List.append_nil]
  exact ⟨rfl, rfl⟩

theorem parseNumber_writeUint (n : ℕ) {rest : Bytes} (hrest : Ends rest) :
    parseNumber (writeUint n ++ rest) = some (writeUint n, rest) := by
  obtain ⟨c, cs, heq, hc⟩ := writeUint_eq_cons n
  obtain ⟨hminus, hspace⟩ := isDigit_ne hc
  have hskip : skipWhitespace (writeUint n ++ rest) = writeUint n ++ rest := by
    rw [heq]
    exact skipWhitespace_cons hspace
  have hhead : (writeUint n ++ rest).head? ≠ some '-'.toUInt8 := by
    rw [heq]
    simpa using hminus
  obtain ⟨htake, hdrop⟩ := takeWhile_digits (isDigit_of_mem_writeUint (n := n)) hrest
  simp only [parseNumber, hskip, hhead, if_false, List.length_nil, List.drop_zero, htake, hdrop,
    List.nil_append]
  rw [if_neg (by rw [heq]; simp)]

theorem parseNumber_minus (n : ℕ) {rest : Bytes} (hrest : Ends rest) :
    parseNumber (text "-" ++ writeUint n ++ rest) = some (text "-" ++ writeUint n, rest) := by
  obtain ⟨c, cs, heq, -⟩ := writeUint_eq_cons n
  have hskip : skipWhitespace (text "-" ++ writeUint n ++ rest) = text "-" ++ writeUint n ++ rest :=
    skipWhitespace_cons rfl
  have hhead : (text "-" ++ writeUint n ++ rest).head? = some '-'.toUInt8 := rfl
  have htail : (text "-" ++ writeUint n ++ rest).drop 1 = writeUint n ++ rest := rfl
  obtain ⟨htake, hdrop⟩ := takeWhile_digits (isDigit_of_mem_writeUint (n := n)) hrest
  simp only [parseNumber, hskip, hhead, if_true, List.length_singleton, htail, htake, hdrop]
  rw [if_neg (by rw [heq]; simp)]
  rfl

theorem parseNumber_writeSint (n : ℤ) {rest : Bytes} (hrest : Ends rest) :
    parseNumber (writeSint n ++ rest) = some (writeSint n, rest) := by
  unfold writeSint
  split
  · exact parseNumber_minus _ hrest
  · exact parseNumber_writeUint _ hrest

theorem head_writeUint_ne_minus (n : ℕ) : (writeUint n).head? ≠ some '-'.toUInt8 := by
  obtain ⟨c, cs, heq, hc⟩ := writeUint_eq_cons n
  rw [heq]
  simpa using (isDigit_ne hc).1

theorem stoull_writeUint (value : UInt64) : stoull (writeUint value.toNat) = some value.toNat := by
  rw [stoull, if_neg (head_writeUint_ne_minus _), digitsValue_writeUint,
    if_pos (by exact value.toNat_lt)]

theorem stoll_writeSint (value : Int64) : stoll (writeSint value.toInt) = some value.toInt := by
  have hlow := value.le_toInt
  have hhigh := value.toInt_lt
  have hvalue : (if (writeSint value.toInt).head? = some '-'.toUInt8 then
      -(digitsValue (writeSint value.toInt).tail : ℤ)
      else digitsValue (writeSint value.toInt)) = value.toInt := by
    unfold writeSint
    split
    · rename_i hneg
      show -(digitsValue (writeUint value.toInt.natAbs) : ℤ) = _
      rw [digitsValue_writeUint]
      omega
    · rename_i hneg
      rw [if_neg (head_writeUint_ne_minus _), digitsValue_writeUint]
      omega
  rw [stoll, hvalue]
  exact if_pos ⟨by simpa using hlow, by simpa using hhigh⟩

end Numbers

end RooTesting.Nvs
