import RooTesting.NvsTokens

/-! # A written storage is read back

The parser reads what `WriteStorage` writes for every storage, to the end of the text, and
`JsonToStorage` makes the same storage of it. -/
namespace RooTesting.Nvs
open OrderedMaps

/-- The text is read as the value, behind white space, whatever follows it but a digit,
by a parser that may go as deep as `n`. -/
def Reads (n : ℕ) (t : Bytes) (j : Json) : Prop :=
  ∀ k ≥ n, ∀ spaces rest, spaces.all isSpace = true → Ends rest →
    parseValue k (spaces ++ (t ++ rest)) = some (j, rest)

section Values

theorem Reads.mono {n m : ℕ} {t : Bytes} {j : Json} (h : Reads n t j) (hnm : n ≤ m) :
    Reads m t j :=
  fun k hk => h k (hnm.trans hk)

theorem parseValue_spaces {k : ℕ} {spaces rest : Bytes} (hs : spaces.all isSpace = true) :
    parseValue (k + 1) (spaces ++ rest) = parseValue (k + 1) rest := by
  simp only [parseValue, skipWhitespace_append hs]

theorem reads_string (value : Bytes) : Reads 1 (writeJsonString value) (.string value) := by
  intro k hk spaces rest hs _
  obtain ⟨k, rfl⟩ : ∃ i, k = i + 1 := ⟨k - 1, by omega⟩
  have hquote : skipWhitespace (writeJsonString value ++ rest) = writeJsonString value ++ rest :=
    skipWhitespace_cons rfl
  simp only [parseValue, skipWhitespace_append hs, hquote]
  show (parseString (writeJsonString value ++ rest)).map _ = _
  rw [← List.nil_append (writeJsonString value ++ rest), parseString_write value rest rfl]
  rfl

theorem parseValue_digit {k : ℕ} {c : UInt8} {cs : Bytes} (h : isDigit c = true) :
    parseValue (k + 1) (c :: cs) = (parseNumber (c :: cs)).map fun r => (.number r.1, r.2) := by
  have hne : ∀ d : UInt8, isDigit d = false → c ≠ d := by
    rintro d hd rfl
    rw [hd] at h
    cases h
  simp only [parseValue, skipWhitespace_cons (isDigit_ne h).2, if_neg (hne '"'.toUInt8 rfl),
    if_neg (hne '{'.toUInt8 rfl), if_neg (hne '['.toUInt8 rfl), h, Bool.or_true, if_true]

theorem reads_uint (n : ℕ) : Reads 1 (writeUint n) (.number (writeUint n)) := by
  intro k hk spaces rest hs hrest
  obtain ⟨k, rfl⟩ : ∃ i, k = i + 1 := ⟨k - 1, by omega⟩
  obtain ⟨c, cs, heq, hc⟩ := writeUint_eq_cons n
  have hparse := parseNumber_writeUint n hrest
  rw [heq, List.cons_append] at hparse ⊢
  rw [parseValue_spaces hs, parseValue_digit hc, hparse]
  rfl

theorem reads_sint (n : ℤ) : Reads 1 (writeSint n) (.number (writeSint n)) := by
  by_cases hn : n < 0
  · intro k hk spaces rest hs hrest
    obtain ⟨k, rfl⟩ : ∃ i, k = i + 1 := ⟨k - 1, by omega⟩
    have heq : writeSint n = '-'.toUInt8 :: writeUint n.natAbs := by
      rw [writeSint, if_pos hn]
      rfl
    have hparse := parseNumber_writeSint n hrest
    rw [heq, List.cons_append] at hparse ⊢
    rw [parseValue_spaces hs, parseValue]
    simp only [skipWhitespace_cons (show isSpace '-'.toUInt8 = false from rfl)]
    show (parseNumber ('-'.toUInt8 :: (writeUint n.natAbs ++ rest))).map _ = _
    rw [hparse]
    rfl
  · rw [writeSint, if_neg hn]
    exact reads_uint _

end Values

section Objects

/-- A member of an object: its text and the value that the text is read as. -/
structure Member where
  key : Bytes
  text : Bytes
  json : Json

/-- A member without its indentation. -/
def Member.core (m : Member) : Bytes := writeJsonString m.key ++ (Nvs.text ": " ++ m.text)

/-- A member behind a comma, on a new line. -/
def Member.next (indent : ℕ) (m : Member) : Bytes :=
  ','.toUInt8 :: ('\n'.toUInt8 :: writeIndent indent) ++ m.core

def closing (indent : ℕ) : Bytes := '\n'.toUInt8 :: writeIndent indent ++ ['}'.toUInt8]

variable {value : Bytes → Option (Json × Bytes)} {indent : ℕ}

theorem writeIndent_spaces (indent : ℕ) : (writeIndent indent).all isSpace = true := by
  rw [List.all_eq_true]
  intro c hc
  rw [List.eq_of_mem_replicate hc]
  rfl

theorem intercalate_members (m : Member) (ms : List Member) :
    (text ",\n").intercalate ((m :: ms).map fun m => writeIndent indent ++ m.core) =
      writeIndent indent ++ (m.core ++ ms.flatMap (Member.next indent)) := by
  induction ms generalizing m with
  | nil => simp [List.intercalate]
  | cons m' ms ih =>
    have hsplit : ∀ (a b : Bytes) (l : List Bytes), (text ",\n").intercalate (a :: b :: l) =
        a ++ (text ",\n" ++ (text ",\n").intercalate (b :: l)) := by
      intro a b l
      simp [List.intercalate]
    have htail := ih m'
    rw [List.map_cons] at htail
    rw [List.map_cons, List.map_cons, hsplit, htail]
    simp [Member.next, text]

/-- An object with members, written, is its first line, the other lines and the end. -/
theorem writeObject_cons (m : Member) (ms : List Member) :
    writeObject indent ((m :: ms).map fun m => (m.key, m.text)) =
      '{'.toUInt8 :: ('\n'.toUInt8 :: writeIndent (indent + 2)) ++
        (m.core ++ (ms.flatMap (Member.next (indent + 2)) ++ closing indent)) := by
  have hlines : ((m :: ms).map fun m => (m.key, m.text)).map (fun m =>
      writeIndent (indent + 2) ++ writeJsonString m.1 ++ text ": " ++ m.2) =
        (m :: ms).map fun m => writeIndent (indent + 2) ++ m.core := by
    rw [List.map_map]
    simp [Member.core, Function.comp_def]
  rw [writeObject, if_neg (by simp), hlines, intercalate_members]
  simp [closing, text]

theorem skipWhitespace_closing (rest : Bytes) :
    skipWhitespace (closing indent ++ rest) = '}'.toUInt8 :: rest := by
  have hspaces : ('\n'.toUInt8 :: writeIndent indent).all isSpace = true := by
    rw [List.all_cons, writeIndent_spaces]
    rfl
  rw [closing, List.append_assoc, skipWhitespace_append hspaces]
  exact skipWhitespace_cons rfl

/-- One round of the loop over the members. -/
theorem parseMembers_core {m : Member} {n : ℕ} {acc : List (Bytes × Json)} {spaces rest : Bytes}
    (hs : spaces.all isSpace = true) (hrest : Ends rest)
    (hvalue : ∀ spaces rest, spaces.all isSpace = true → Ends rest →
      value (spaces ++ (m.text ++ rest)) = some (m.json, rest)) :
    parseMembers value (n + 1) acc (spaces ++ (m.core ++ rest)) =
      if (skipWhitespace rest).head? = some '}'.toUInt8 then
        some (emplace m.key m.json acc, (skipWhitespace rest).tail)
      else (consumeChar ','.toUInt8 (skipWhitespace rest)).bind
        (parseMembers value n (emplace m.key m.json acc)) := by
  have hcolon : consumeChar ':'.toUInt8 (text ": " ++ m.text ++ rest) =
      some ([' '.toUInt8] ++ (m.text ++ rest)) := rfl
  have hcore : m.core ++ rest = writeJsonString m.key ++ (text ": " ++ m.text ++ rest) := by
    simp [Member.core]
  rw [hcore, parseMembers, parseString_write m.key _ hs]
  simp only [Option.bind_eq_bind, Option.bind_some]
  rw [hcolon, Option.bind_some, hvalue _ _ rfl hrest, Option.bind_some]

/-- The loop over the members reads one line after the other and stops at the brace. -/
theorem parseMembers_write {m : Member} {ms : List Member} {n : ℕ} (hn : ms.length < n)
    {acc : List (Bytes × Json)} {spaces : Bytes} (rest : Bytes) (hs : spaces.all isSpace = true)
    (hvalue : ∀ x ∈ m :: ms, ∀ spaces rest, spaces.all isSpace = true → Ends rest →
      value (spaces ++ (x.text ++ rest)) = some (x.json, rest)) (i j : ℕ) :
    parseMembers value n acc (spaces ++ (m.core ++ (ms.flatMap (Member.next i) ++
        (closing j ++ rest)))) =
      some (emplaceAll acc ((m :: ms).map fun m => (m.key, m.json)), rest) := by
  induction ms generalizing m n acc spaces with
  | nil =>
    obtain ⟨n, rfl⟩ : ∃ i, n = i + 1 := ⟨n - 1, by omega⟩
    have hends : Ends (closing j ++ rest) := rfl
    rw [List.flatMap_nil, List.nil_append,
      parseMembers_core hs hends (hvalue m List.mem_cons_self), skipWhitespace_closing]
    rfl
  | cons m' ms ih =>
    obtain ⟨n, rfl⟩ : ∃ i, n = i + 1 := ⟨n - 1, by omega⟩
    have hlines : (m' :: ms).flatMap (Member.next i) ++ (closing j ++ rest) =
        ','.toUInt8 :: (('\n'.toUInt8 :: writeIndent i) ++
          (m'.core ++ (ms.flatMap (Member.next i) ++ (closing j ++ rest)))) := by
      simp [Member.next]
    have hspaces : ('\n'.toUInt8 :: writeIndent i).all isSpace = true := by
      rw [List.all_cons, writeIndent_spaces]
      rfl
    rw [hlines, parseMembers_core hs (ends_cons rfl) (hvalue m List.mem_cons_self),
      skipWhitespace_cons rfl]
    show (consumeChar ','.toUInt8 (','.toUInt8 :: _)).bind _ = _
    rw [consumeChar, skipWhitespace_cons rfl]
    show parseMembers value n _ _ = _
    rw [ih (Nat.lt_of_succ_lt_succ hn) hspaces fun x hx => hvalue x (List.mem_cons_of_mem _ hx)]
    rfl

theorem length_core_pos (m : Member) : 0 < m.core.length := by
  simp [Member.core, writeJsonString, text]

theorem length_le_lines (i : ℕ) (ms : List Member) :
    ms.length ≤ (ms.flatMap (Member.next i)).length := by
  induction ms with
  | nil => exact Nat.le_refl 0
  | cons m ms ih =>
    rw [List.flatMap_cons, List.length_append, List.length_cons]
    have hline : 0 < (m.next i).length := by simp [Member.next]
    omega

/-- The value that the parser makes of the members of an object, one after the other. -/
def objectOf (members : List (Bytes × Json)) : Json := .object (emplaceAll [] members)

/-- An object is read when the values of its members are. -/
theorem reads_object {n : ℕ} (ms : List Member) (indent : ℕ)
    (h : ∀ m ∈ ms, Reads n m.text m.json) :
    Reads (n + 1) (writeObject indent (ms.map fun m => (m.key, m.text)))
      (objectOf (ms.map fun m => (m.key, m.json))) := by
  intro k hk spaces rest hs _
  obtain ⟨k, rfl⟩ : ∃ i, k = i + 1 := ⟨k - 1, by omega⟩
  rw [parseValue_spaces hs]
  have hbrace : ∀ input, parseValue (k + 1) ('{'.toUInt8 :: input) =
      parseObject (parseValue k) ('{'.toUInt8 :: input) := by
    intro input
    simp only [parseValue, skipWhitespace_cons (show isSpace '{'.toUInt8 = false from rfl)]
    rfl
  have hconsume : ∀ input, consumeChar '{'.toUInt8 ('{'.toUInt8 :: input) = some input := by
    intro input
    rw [consumeChar, skipWhitespace_cons rfl]
    rfl
  cases ms with
  | nil =>
    have hempty : writeObject indent [] ++ rest =
        '{'.toUInt8 :: (writeIndent indent ++ ('}'.toUInt8 :: rest)) := by
      simp [writeObject, text]
    rw [List.map_nil, hempty, hbrace, parseObject]
    simp only [Option.bind_eq_bind, hconsume, Option.bind_some,
      skipWhitespace_append (writeIndent_spaces indent),
      skipWhitespace_cons (show isSpace '}'.toUInt8 = false from rfl)]
    rfl
  | cons m ms =>
    have hspaces : ('\n'.toUInt8 :: writeIndent (indent + 2)).all isSpace = true := by
      rw [List.all_cons, writeIndent_spaces]
      rfl
    have hquote : ∀ tail, skipWhitespace (m.core ++ tail) = m.core ++ tail := fun tail =>
      skipWhitespace_cons rfl
    have hsplit : writeObject indent ((m :: ms).map fun m => (m.key, m.text)) ++ rest =
        '{'.toUInt8 :: (('\n'.toUInt8 :: writeIndent (indent + 2)) ++
          (m.core ++ (ms.flatMap (Member.next (indent + 2)) ++ (closing indent ++ rest)))) := by
      rw [writeObject_cons]
      simp
    rw [hsplit, hbrace, parseObject]
    simp only [Option.bind_eq_bind, hconsume, Option.bind_some, skipWhitespace_append hspaces,
      hquote]
    have hlength : ms.length < (m.core ++ (ms.flatMap (Member.next (indent + 2)) ++
        (closing indent ++ rest))).length := by
      have hlines := length_le_lines (indent + 2) ms
      have hcore := length_core_pos m
      simp only [List.length_append]
      omega
    have hvalue : ∀ x ∈ m :: ms, ∀ spaces rest, spaces.all isSpace = true → Ends rest →
        parseValue k (spaces ++ (x.text ++ rest)) = some (x.json, rest) :=
      fun x hx spaces rest hs hr => h x hx k (by omega) spaces rest hs hr
    have hmembers := @parseMembers_write _ m ms _ hlength [] [] rest rfl hvalue (indent + 2) indent
    rw [List.nil_append] at hmembers
    have hbegin : ∀ tail, (m.core ++ tail).head? = some '"'.toUInt8 := fun _ => rfl
    rw [hbegin, if_neg (by decide), hmembers]
    rfl

end Objects

section Storage

def valueJson : EntryValue → Bytes × Json
  | .str value => (text "str", .string value)
  | .blob value => (text "blob_hex", .string (hexEncode value))
  | .uint _ value => (text "uint", .number (writeUint value.toNat))
  | .sint _ value => (text "sint", .number (writeSint value.toInt))

def entryJson (value : EntryValue) : Json :=
  objectOf [(text "type", .string (typeToString value.type)), valueJson value]

def mapJson {α : Type} (json : α → Json) (map : OrderedMap Bytes α) : Json :=
  objectOf (map.entries.map fun e => (e.1, json e.2))

def namespaceJson (nameSpace : NamespaceStorage) : Json :=
  objectOf [(text "entries", mapJson entryJson nameSpace.entries)]

def partitionJson (partition : PartitionStorage) : Json :=
  objectOf [(text "total_entries", .number (writeUint partition.totalEntries.toNat)),
    (text "name_spaces", mapJson namespaceJson partition.nameSpaces)]

/-- What the parser makes of a written storage. -/
def storageJson (storage : NvsStorage) : Json :=
  objectOf [(text "partitions", mapJson partitionJson storage.partitions)]

theorem reads_value (value : EntryValue) :
    Reads 1 (valueMember value).2 (valueJson value).2 := by
  cases value with
  | sint width value => exact reads_sint _
  | uint width value => exact reads_uint _
  | str value => exact reads_string _
  | blob value => exact reads_string _

theorem valueMember_key (value : EntryValue) : (valueMember value).1 = (valueJson value).1 := by
  cases value <;> rfl

theorem reads_entry (indent : ℕ) (value : EntryValue) :
    Reads 2 (writeEntryValue indent value) (entryJson value) := by
  have h := reads_object (n := 1)
    [⟨text "type", writeJsonString (typeToString value.type), .string (typeToString value.type)⟩,
      ⟨(valueMember value).1, (valueMember value).2, (valueJson value).2⟩] indent
    (List.forall_mem_cons.mpr ⟨reads_string _, List.forall_mem_singleton.mpr (reads_value value)⟩)
  have hkey := valueMember_key value
  rw [writeEntryValue, entryJson]
  rw [← Prod.mk.eta (p := valueJson value), ← hkey]
  exact h

theorem reads_map {α : Type} {n : ℕ} {write : ℕ → α → Bytes} {json : α → Json}
    (h : ∀ indent a, Reads n (write indent a) (json a)) (indent : ℕ) (map : OrderedMap Bytes α) :
    Reads (n + 1) (writeMap indent write map) (mapJson json map) := by
  have hreads := reads_object (n := n)
    (map.entries.map fun e => ⟨e.1, write (indent + 2) e.2, json e.2⟩) indent (by
      intro m hm
      obtain ⟨e, -, rfl⟩ := List.mem_map.mp hm
      exact h _ _)
  rwa [List.map_map, List.map_map] at hreads

theorem reads_namespace (indent : ℕ) (nameSpace : NamespaceStorage) :
    Reads 4 (writeNamespace indent nameSpace) (namespaceJson nameSpace) :=
  reads_object (n := 3) [⟨text "entries", _, mapJson entryJson nameSpace.entries⟩] indent
    (List.forall_mem_singleton.mpr (reads_map reads_entry (indent + 2) nameSpace.entries))

theorem reads_partition (indent : ℕ) (partition : PartitionStorage) :
    Reads 6 (writePartition indent partition) (partitionJson partition) :=
  reads_object (n := 5) [⟨text "total_entries", _, .number (writeUint partition.totalEntries.toNat)⟩,
    ⟨text "name_spaces", _, mapJson namespaceJson partition.nameSpaces⟩] indent
    (List.forall_mem_cons.mpr ⟨(reads_uint _).mono (by omega),
      List.forall_mem_singleton.mpr (reads_map reads_namespace (indent + 2) partition.nameSpaces)⟩)

theorem reads_storage (indent : ℕ) (storage : NvsStorage) :
    Reads 8 (writeStorage indent storage) (storageJson storage) :=
  reads_object (n := 7) [⟨text "partitions", _, mapJson partitionJson storage.partitions⟩] indent
    (List.forall_mem_singleton.mpr (reads_map reads_partition (indent + 2) storage.partitions))

theorem find_objectOf (name : Bytes) (members : List (Bytes × Json)) :
    find name (emplaceAll [] members) = find name members := by
  rw [find_emplaceAll _ _ List.Pairwise.nil]
  exact Option.none_or

theorem loadMap_emplaces {α : Type} {load : List (Bytes × Json) → Except LoadError α}
    {json : α → List (Bytes × Json)} (hload : ∀ a, load (json a) = .ok a)
    (l : List (Bytes × α)) (acc : OrderedMap Bytes α) :
    (l.map fun e => (e.1, Json.object (json e.2))).foldlM (emplaceMember load) acc =
      .ok (l.foldl (fun map e => map.emplace e.1 e.2) acc) := by
  induction l generalizing acc with
  | nil => rfl
  | cons e l ih =>
    have hround : emplaceMember load acc (e.1, Json.object (json e.2)) =
        .ok (acc.emplace e.1 e.2) := by
      simp only [emplaceMember, hload]
      rfl
    rw [List.map_cons, List.foldlM_cons, hround]
    exact ih (acc.emplace e.1 e.2)

/-- A map is loaded from what was written for it. -/
theorem loadMap_map {α : Type} {load : List (Bytes × Json) → Except LoadError α}
    {json : α → List (Bytes × Json)} (hload : ∀ a, load (json a) = .ok a)
    (map : OrderedMap Bytes α) :
    loadMap load (emplaceAll [] (map.entries.map fun e => (e.1, Json.object (json e.2)))) =
      .ok map := by
  have hordered : Ordered (map.entries.map fun e => (e.1, Json.object (json e.2))) :=
    List.pairwise_map.mpr map.ordered
  have hentries : emplaceAll [] (map.entries.map fun e => (e.1, Json.object (json e.2))) =
      map.entries.map fun e => (e.1, Json.object (json e.2)) := emplaceAll_append hordered
  rw [hentries, loadMap, loadMap_emplaces hload, map.foldl_emplace_entries]

/-- The members of an object. -/
def Json.members : Json → List (Bytes × Json)
  | .object members => members
  | _ => []

theorem loadMember_map {α : Type} {name : Bytes} {load : List (Bytes × Json) → Except LoadError α}
    {json : α → Json} (hobject : ∀ a, json a = .object (json a).members)
    (hload : ∀ a, load (json a).members = .ok a) (map : OrderedMap Bytes α)
    {members : List (Bytes × Json)} (hfind : find name members = some (mapJson json map)) :
    loadMember name load members = .ok map := by
  have hmap : mapJson json map = .object (emplaceAll []
      (map.entries.map fun e => (e.1, Json.object (json e.2).members))) := by
    rw [mapJson, objectOf]
    congr 3
    funext e
    rw [← hobject]
  rw [loadMember, hfind, hmap]
  exact loadMap_map hload map

theorem typeFromString_typeToString (type : NvsType) :
    typeFromString (typeToString type) = some type := by
  cases type <;> decide

theorem type_ne_valueJson (value : EntryValue) : text "type" ≠ (valueJson value).1 := by
  cases value with
  | sint => exact (by decide : text "type" ≠ text "sint")
  | uint => exact (by decide : text "type" ≠ text "uint")
  | str => exact (by decide : text "type" ≠ text "str")
  | blob => exact (by decide : text "type" ≠ text "blob_hex")

theorem find_valueJson (value : EntryValue) :
    find (valueJson value).1 (entryJson value).members = some (valueJson value).2 := by
  refine (find_objectOf _ _).trans ?_
  simp [find, type_ne_valueJson value]

theorem loadSint_entryJson (width : Width) (value : Int64) :
    loadSint width (entryJson (.sint width value)).members = .ok (.sint width value) := by
  have hfind : find (text "sint") (entryJson (.sint width value)).members =
      some (.number (writeSint value.toInt)) := find_valueJson (.sint width value)
  rw [loadSint, hfind]
  simp only [stoll_writeSint]
  show Except.ok (EntryValue.sint width (Int64.ofInt value.toInt)) = _
  rw [Int64.ofInt_toInt]

theorem loadUint_entryJson (width : Width) (value : UInt64) :
    loadUint width (entryJson (.uint width value)).members = .ok (.uint width value) := by
  have hfind : find (text "uint") (entryJson (.uint width value)).members =
      some (.number (writeUint value.toNat)) := find_valueJson (.uint width value)
  rw [loadUint, hfind]
  simp only [stoull_writeUint]
  show Except.ok (EntryValue.uint width (UInt64.ofNat value.toNat)) = _
  rw [UInt64.ofNat_toNat]

theorem loadEntry_entryJson (value : EntryValue) :
    loadEntry (entryJson value).members = .ok value := by
  have htype : find (text "type") (entryJson value).members =
      some (.string (typeToString value.type)) := find_objectOf _ _
  rw [loadEntry, htype]
  simp only [typeFromString_typeToString]
  cases value with
  | sint width value => cases width <;> exact loadSint_entryJson _ value
  | uint width value => cases width <;> exact loadUint_entryJson _ value
  | str value =>
    have hfind : find (text "str") (entryJson (.str value)).members = some (.string value) :=
      find_valueJson (.str value)
    show loadStr _ = _
    rw [loadStr, hfind]
  | blob value =>
    have hfind : find (text "blob_hex") (entryJson (.blob value)).members =
        some (.string (hexEncode value)) := find_valueJson (.blob value)
    show loadBlob _ = _
    rw [loadBlob, hfind]
    simp only [hexDecode_hexEncode]

theorem loadNamespace_namespaceJson (nameSpace : NamespaceStorage) :
    loadNamespace (namespaceJson nameSpace).members = .ok nameSpace := by
  rw [loadNamespace, loadMember_map (fun _ => rfl) loadEntry_entryJson nameSpace.entries
    (find_objectOf _ _)]
  rfl

theorem loadPartition_partitionJson (partition : PartitionStorage) :
    loadPartition (partitionJson partition).members = .ok partition := by
  have htotal : loadTotalEntries (partitionJson partition).members =
      .ok partition.totalEntries := by
    have hfind : find (text "total_entries") (partitionJson partition).members =
        some (.number (writeUint partition.totalEntries.toNat)) := find_objectOf _ _
    rw [loadTotalEntries, hfind]
    simp only [stoull_writeUint]
    show Except.ok (UInt64.ofNat partition.totalEntries.toNat) = _
    rw [UInt64.ofNat_toNat]
  have hnames : loadMember (text "name_spaces") loadNamespace (partitionJson partition).members =
      .ok partition.nameSpaces :=
    loadMember_map (fun _ => rfl) loadNamespace_namespaceJson partition.nameSpaces (find_objectOf _ _)
  rw [loadPartition, htotal]
  show (loadMember _ _ _).bind _ = _
  rw [hnames]
  rfl

theorem jsonToStorage_storageJson (storage : NvsStorage) :
    jsonToStorage (storageJson storage) = .ok storage := by
  have hfind : find (text "partitions") (storageJson storage).members =
      some (mapJson partitionJson storage.partitions) := find_objectOf _ _
  have hload := loadMember_map (fun _ => rfl) loadPartition_partitionJson storage.partitions hfind
  have hobject : storageJson storage = .object (storageJson storage).members := rfl
  rw [hobject, jsonToStorage, hfind]
  rw [loadMember, hfind] at hload
  show (loadMap loadPartition _).map _ = _
  rw [show loadMap loadPartition _ = _ from hload]
  rfl

/-- Whatever a storage holds, the text written for it is read to its end, and the storage
made of it is the same. -/
theorem storage_roundTrip (storage : NvsStorage) :
    ∃ root, parse (writeStorage 0 storage) = some (root, []) ∧ jsonToStorage root = .ok storage := by
  refine ⟨storageJson storage, ?_, jsonToStorage_storageJson storage⟩
  have hdeep : 7 ≤ (writeStorage 0 storage).length := by
    simp [writeStorage, writeObject, writeJsonString, text]
    omega
  have hread := reads_storage 0 storage ((writeStorage 0 storage).length + 1) (by omega) [] [] rfl rfl
  rw [List.nil_append, List.append_nil] at hread
  rw [parse, hread]
  rfl

end Storage

end RooTesting.Nvs
