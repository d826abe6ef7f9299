import RooTesting.OrderedMaps
import Mathlib.Data.Nat.Digits.Defs

/-! # The JSON of the NVS file

The lexer and the parser over the rest of the input, and what the writer writes. An
object is the map that the source builds of its members, of which the first of several
with one name stays. -/
namespace RooTesting.Nvs
open OrderedMaps

abbrev Bytes := List UInt8

instance uint8LinearOrder : LinearOrder UInt8 where
  le_refl := UInt8.le_refl
  le_trans _ _ _ := UInt8.le_trans
  le_antisymm _ _ := UInt8.le_antisymm
  le_total := UInt8.le_total
  lt_iff_le_not_ge _ _ := by simp [UInt8.lt_iff_toNat_lt, UInt8.le_iff_toNat_le]; omega
  toDecidableLE := inferInstance

def text (s : String) : Bytes := s.toList.map Char.toUInt8

inductive Json where
  | null
  | bool (value : Bool)
  | number (value : Bytes)
  | string (value : Bytes)
  | object (value : List (Bytes × Json))
  | array (value : List Json)

def isSpace (c : UInt8) : Bool :=
  c = ' '.toUInt8 || c = '\t'.toUInt8 || c = '\n'.toUInt8 || c = 11 || c = 12 || c = '\r'.toUInt8

def isDigit (c : UInt8) : Bool := '0'.toUInt8 ≤ c && c ≤ '9'.toUInt8

def skipWhitespace (input : Bytes) : Bytes := input.dropWhile isSpace

def consumeChar (ch : UInt8) (input : Bytes) : Option Bytes :=
  match skipWhitespace input with
  | [] => none
  | c :: rest => if c = ch then some rest else none

def hexValue (h : UInt8) : Option ℕ :=
  if '0'.toUInt8 ≤ h ∧ h ≤ '9'.toUInt8 then some (h.toNat - '0'.toNat)
  else if 'a'.toUInt8 ≤ h ∧ h ≤ 'f'.toUInt8 then some (10 + (h.toNat - 'a'.toNat))
  else if 'A'.toUInt8 ≤ h ∧ h ≤ 'F'.toUInt8 then some (10 + (h.toNat - 'A'.toNat))
  else none

/-- The four digits of a `\u` escape, shifted in one after the other. -/
def hexCode (digits : List UInt8) : Option ℕ :=
  digits.foldlM (fun code h => (hexValue h).map fun d => code * 16 + d) 0

def unescape (esc : UInt8) : Option UInt8 :=
  if esc = '"'.toUInt8 then some '"'.toUInt8
  else if esc = '\\'.toUInt8 then some '\\'.toUInt8
  else if esc = '/'.toUInt8 then some '/'.toUInt8
  else if esc = 'b'.toUInt8 then some 8
  else if esc = 'f'.toUInt8 then some 12
  else if esc = 'n'.toUInt8 then some '\n'.toUInt8
  else if esc = 'r'.toUInt8 then some '\r'.toUInt8
  else if esc = 't'.toUInt8 then some '\t'.toUInt8
  else none

def push (c : UInt8) (r : Option (Bytes × Bytes)) : Option (Bytes × Bytes) :=
  r.map fun p => (c :: p.1, p.2)

/-- The characters of a string behind its opening quote. -/
def parseChars : Bytes → Option (Bytes × Bytes)
  | [] => none
  | c :: rest =>
    if c = '"'.toUInt8 then some ([], rest)
    else if c = '\\'.toUInt8 then
      match rest with
      | [] => none
      | esc :: rest =>
        if esc = 'u'.toUInt8 then
          match rest with
          | h₁ :: h₂ :: h₃ :: h₄ :: rest =>
            match hexCode [h₁, h₂, h₃, h₄] with
            | none => none
            | some code =>
              push (if code ≤ 0x7F then UInt8.ofNat code else '?'.toUInt8) (parseChars rest)
          | _ => none
        else
          match unescape esc with
          | none => none
          | some c => push c (parseChars rest)
    else push c (parseChars rest)

def parseString (input : Bytes) : Option (Bytes × Bytes) :=
  (consumeChar '"'.toUInt8 input).bind parseChars

def parseNumber (input : Bytes) : Option (Bytes × Bytes) :=
  let input := skipWhitespace input
  let sign : Bytes := if input.head? = some '-'.toUInt8 then ['-'.toUInt8] else []
  let input := input.drop sign.length
  let digits := input.takeWhile isDigit
  if digits = [] then none else some (sign ++ digits, input.dropWhile isDigit)

/-- The loop of `ParseArray`. -/
def parseElements (value : Bytes → Option (Json × Bytes)) :
    ℕ → List Json → Bytes → Option (List Json × Bytes)
  | 0, _, _ => none
  | n + 1, elements, input => do
    let (element, input) ← value input
    let elements := elements ++ [element]
    let input := skipWhitespace input
    if input.head? = some ']'.toUInt8 then some (elements, input.tail)
    else
      let input ← consumeChar ','.toUInt8 input
      parseElements value n elements input

def parseArray (value : Bytes → Option (Json × Bytes)) (input : Bytes) : Option (Json × Bytes) := do
  let input ← consumeChar '['.toUInt8 input
  let input := skipWhitespace input
  if input.head? = some ']'.toUInt8 then some (.array [], input.tail)
  else
    let (elements, input) ← parseElements value input.length [] input
    some (.array elements, input)

/-- The loop of `ParseObject`. -/
def parseMembers (value : Bytes → Option (Json × Bytes)) :
    ℕ → List (Bytes × Json) → Bytes → Option (List (Bytes × Json) × Bytes)
  | 0, _, _ => none
  | n + 1, members, input => do
    let (key, input) ← parseString input
    let input ← consumeChar ':'.toUInt8 input
    let (element, input) ← value input
    let members := emplace key element members
    let input := skipWhitespace input
    if input.head? = some '}'.toUInt8 then some (members, input.tail)
    else
      let input ← consumeChar ','.toUInt8 input
      parseMembers value n members input

def parseObject (value : Bytes → Option (Json × Bytes)) (input : Bytes) :
    Option (Json × Bytes) := do
  let input ← consumeChar '{'.toUInt8 input
  let input := skipWhitespace input
  if input.head? = some '}'.toUInt8 then some (.object [], input.tail)
  else
    let (members, input) ← parseMembers value input.length [] input
    some (.object members, input)

/-- The number bounds the depth of the value; the loops inside are bounded by the input. -/
def parseValue : ℕ → Bytes → Option (Json × Bytes)
  | 0, _ => none
  | n + 1, input =>
    let input := skipWhitespace input
    match input with
    | [] => none
    | c :: _ =>
      if c = '"'.toUInt8 then (parseString input).map fun r => (.string r.1, r.2)
      else if c = '{'.toUInt8 then parseObject (parseValue n) input
      else if c = '['.toUInt8 then parseArray (parseValue n) input
      else if c = '-'.toUInt8 || isDigit c then
        (parseNumber input).map fun r => (.number r.1, r.2)
      else if text "true" <+: input then some (.bool true, input.drop 4)
      else if text "false" <+: input then some (.bool false, input.drop 5)
      else if text "null" <+: input then some (.null, input.drop 4)
      else none

/-- The whole text, up to white space behind the value; every value is less deep than
its text is long. -/
def parse (input : Bytes) : Option (Json × Bytes) :=
  (parseValue (input.length + 1) input).map fun r => (r.1, skipWhitespace r.2)

def hexDigit (n : ℕ) : UInt8 := UInt8.ofNat (if n < 10 then '0'.toNat + n else 'a'.toNat + (n - 10))

/-- Two digits for every byte. -/
def hexEncode (input : Bytes) : Bytes :=
  input.flatMap fun c => [hexDigit (c.toNat / 16), hexDigit (c.toNat % 16)]

def hexDecode : Bytes → Option Bytes
  | [] => some []
  | [_] => none
  | hi :: lo :: rest =>
    match hexValue hi, hexValue lo with
    | some h, some l => (hexDecode rest).map (UInt8.ofNat (h * 16 + l) :: ·)
    | _, _ => none

def escape (c : UInt8) : Bytes :=
  if c = '\\'.toUInt8 then text "\\\\"
  else if c = '"'.toUInt8 then text "\\\""
  else if c = 8 then text "\\b"
  else if c = 12 then text "\\f"
  else if c = '\n'.toUInt8 then text "\\n"
  else if c = '\r'.toUInt8 then text "\\r"
  else if c = '\t'.toUInt8 then text "\\t"
  else if c < 0x20 then
    text "\\u" ++ [hexDigit 0, hexDigit 0, hexDigit (c.toNat / 16), hexDigit (c.toNat % 16)]
  else [c]

def writeJsonString (value : Bytes) : Bytes :=
  text "\"" ++ value.flatMap escape ++ text "\""

def writeIndent (indent : ℕ) : Bytes := List.replicate indent ' '.toUInt8

/-- An unsigned number in decimal. -/
def writeUint (n : ℕ) : Bytes :=
  if n = 0 then text "0"
  else (Nat.digits 10 n).reverse.map fun d => UInt8.ofNat ('0'.toNat + d)

def writeSint (n : ℤ) : Bytes :=
  if n < 0 then text "-" ++ writeUint n.natAbs else writeUint n.natAbs

/-- The members of an object, each on a line of its own, between braces. -/
def writeObject (indent : ℕ) (members : List (Bytes × Bytes)) : Bytes :=
  text "\x7b" ++
    (if members = [] then []
    else text "\n" ++ (text ",\n").intercalate (members.map fun m =>
      writeIndent (indent + 2) ++ writeJsonString m.1 ++ text ": " ++ m.2) ++ text "\n") ++
    writeIndent indent ++ text "\x7d"

def digitsValue (digits : Bytes) : ℕ :=
  digits.foldl (fun acc d => acc * 10 + (d.toNat - '0'.toNat)) 0

/-- `std::stoull` on a number token; `none` is `std::out_of_range`. A minus sign negates
modulo the range. -/
def stoull (token : Bytes) : Option ℕ :=
  if token.head? = some '-'.toUInt8 then
    let magnitude := digitsValue token.tail
    if magnitude < 2 ^ 64 then some ((2 ^ 64 - magnitude) % 2 ^ 64) else none
  else if digitsValue token < 2 ^ 64 then some (digitsValue token) else none

/-- `std::stoll` on a number token. -/
def stoll (token : Bytes) : Option ℤ :=
  let value : ℤ := if token.head? = some '-'.toUInt8 then -digitsValue token.tail
    else digitsValue token
  if -2 ^ 63 ≤ value ∧ value < 2 ^ 63 then some value else none

end RooTesting.Nvs
