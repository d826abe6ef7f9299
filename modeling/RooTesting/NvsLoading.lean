import RooTesting.NvsParser
import RooTesting.NvsStore

/-! # What a load reads

The load goes through the members of the parsed file and stops at the first one that it cannot
read. A malformed member has a text of its own; a number without room in 64 bits has none. -/
namespace RooTesting.Nvs
open OrderedMaps

section Trees

/-- Every object of the tree is a map. -/
inductive Json.Mapped : Json → Prop
  | null : Mapped .null
  | bool (value : Bool) : Mapped (.bool value)
  | number (value : Bytes) : Mapped (.number value)
  | string (value : Bytes) : Mapped (.string value)
  | object {members : List (Bytes × Json)} (hordered : Ordered members)
      (hmembers : ∀ e ∈ members, Mapped e.2) : Mapped (.object members)
  | array {elements : List Json} (helements : ∀ j ∈ elements, Mapped j) : Mapped (.array elements)

theorem mem_emplace {κ : Type} [LinearOrder κ] {ν : Type} {k : κ} {v : ν} {l : List (κ × ν)}
    {x : κ × ν} (h : x ∈ emplace k v l) : x = (k, v) ∨ x ∈ l := by
  induction l with
  | nil => exact .inl (List.mem_singleton.mp h)
  | cons e l ih =>
    unfold emplace alter at h
    split at h
    · exact (List.mem_cons.mp h).imp id id
    split at h
    · rename_i hk
      obtain heq | hmem := List.mem_cons.mp h
      · rw [heq, ← hk]
        exact .inr List.mem_cons_self
      · exact .inr (List.mem_cons_of_mem _ hmem)
    · obtain rfl | hmem := List.mem_cons.mp h
      · exact .inr List.mem_cons_self
      · exact (ih hmem).imp id (List.mem_cons_of_mem _)

/-- What the parser of values returns is a tree of maps. -/
def Maps (value : Bytes → Option (Json × Bytes)) : Prop :=
  ∀ input j rest, value input = some (j, rest) → j.Mapped

variable {value : Bytes → Option (Json × Bytes)} {n : ℕ}

theorem parseElements_mapped (hv : Maps value) {elements elements' : List Json}
    {input rest : Bytes} (helements : ∀ j ∈ elements, j.Mapped)
    (h : parseElements value n elements input = some (elements', rest)) :
    ∀ j ∈ elements', j.Mapped := by
  induction n generalizing elements input with
  | zero => cases h
  | succ n ih =>
    obtain ⟨⟨element, tail⟩, hvalue, h⟩ := Option.bind_eq_some_iff.mp h
    have hmore : ∀ j ∈ elements ++ [element], j.Mapped := by
      intro j hj
      obtain hold | hnew := List.mem_append.mp hj
      · exact helements j hold
      · rw [List.mem_singleton.mp hnew]
        exact hv _ _ _ hvalue
    dsimp only at h
    split at h
    · cases h
      exact hmore
    · obtain ⟨behind, -, h⟩ := Option.bind_eq_some_iff.mp h
      exact ih hmore h

theorem parseMembers_mapped (hv : Maps value) {members members' : List (Bytes × Json)}
    {input rest : Bytes} (hordered : Ordered members) (hmembers : ∀ e ∈ members, e.2.Mapped)
    (h : parseMembers value n members input = some (members', rest)) :
    Ordered members' ∧ ∀ e ∈ members', e.2.Mapped := by
  induction n generalizing members input with
  | zero => cases h
  | succ n ih =>
    obtain ⟨⟨key, tail⟩, -, h⟩ := Option.bind_eq_some_iff.mp h
    obtain ⟨behind, -, h⟩ := Option.bind_eq_some_iff.mp h
    obtain ⟨⟨element, tail'⟩, hvalue, h⟩ := Option.bind_eq_some_iff.mp h
    have hmore : Ordered (emplace key element members) := ordered_alter _ _ hordered
    have hmapped : ∀ e ∈ emplace key element members, e.2.Mapped := by
      intro e he
      obtain rfl | hold := mem_emplace he
      · exact hv _ _ _ hvalue
      · exact hmembers e hold
    dsimp only at h
    split at h
    · cases h
      exact ⟨hmore, hmapped⟩
    · obtain ⟨behind', -, h⟩ := Option.bind_eq_some_iff.mp h
      exact ih hmore hmapped h

theorem parseArray_mapped (hv : Maps value) : Maps (parseArray value) := by
  intro input j rest h
  obtain ⟨tail, -, h⟩ := Option.bind_eq_some_iff.mp h
  dsimp only at h
  split at h
  · cases h
    exact .array nofun
  · obtain ⟨⟨elements, rest'⟩, helements, h⟩ := Option.bind_eq_some_iff.mp h
    cases h
    exact .array (parseElements_mapped hv (List.forall_mem_nil _) helements)

theorem parseObject_mapped (hv : Maps value) : Maps (parseObject value) := by
  intro input j rest h
  obtain ⟨tail, -, h⟩ := Option.bind_eq_some_iff.mp h
  dsimp only at h
  split at h
  · cases h
    exact .object .nil nofun
  · obtain ⟨⟨members, rest'⟩, hmembers, h⟩ := Option.bind_eq_some_iff.mp h
    cases h
    obtain ⟨hordered, hmapped⟩ := parseMembers_mapped hv .nil (List.forall_mem_nil _) hmembers
    exact .object hordered hmapped

theorem parseValue_mapped (n : ℕ) : Maps (parseValue n) := by
  induction n with
  | zero => exact fun _ _ _ h => nomatch h
  | succ n ih =>
    intro input j rest h
    rw [parseValue] at h
    split at h
    · cases h
    split at h
    · obtain ⟨r, -, hr⟩ := Option.map_eq_some_iff.mp h
      cases hr
      exact .string _
    split at h
    · exact parseObject_mapped ih _ _ _ h
    split at h
    · exact parseArray_mapped ih _ _ _ h
    split at h
    · obtain ⟨r, -, hr⟩ := Option.map_eq_some_iff.mp h
      cases hr
      exact .number _
    split at h
    · cases h
      exact .bool _
    split at h
    · cases h
      exact .bool _
    split at h
    · cases h
      exact .null
    · cases h

theorem parse_mapped {input rest : Bytes} {j : Json} (h : parse input = some (j, rest)) :
    j.Mapped := by
  obtain ⟨r, hparse, hr⟩ := Option.map_eq_some_iff.mp h
  cases hr
  exact parseValue_mapped _ _ _ _ hparse

theorem Json.Mapped.members {members : List (Bytes × Json)} (h : Json.Mapped (.object members)) :
    Ordered members ∧ ∀ e ∈ members, e.2.Mapped := by
  cases h with
  | object hordered hmembers => exact ⟨hordered, hmembers⟩

theorem mem_of_find {κ : Type} [LinearOrder κ] {ν : Type} {k : κ} {v : ν} {l : List (κ × ν)}
    (h : find k l = some v) : (k, v) ∈ l := by
  induction l with
  | nil => cases h
  | cons e l ih =>
    rw [find] at h
    split at h
    · rename_i hk
      cases h
      rw [← hk]
      exact List.mem_cons_self
    · exact List.mem_cons_of_mem _ (ih h)

end Trees

section Readings

def Width.bits : Width → ℕ
  | .w8 => 8
  | .w16 => 16
  | .w32 => 32
  | .w64 => 64

/-- The integer lies in the range of its type. -/
def EntryValue.InRange : EntryValue → Prop
  | .uint width value => value.toNat < 2 ^ width.bits
  | .sint width value => -2 ^ (width.bits - 1) ≤ value.toInt ∧ value.toInt < 2 ^ (width.bits - 1)
  | _ => True

def NamespaceStorage.InRange (nameSpace : NamespaceStorage) : Prop :=
  ∀ e ∈ nameSpace.entries.entries, e.2.InRange

def PartitionStorage.InRange (partition : PartitionStorage) : Prop :=
  ∀ e ∈ partition.nameSpaces.entries, e.2.InRange

def NvsStorage.InRange (storage : NvsStorage) : Prop :=
  ∀ e ∈ storage.partitions.entries, e.2.InRange

/-- One thing that the load looks at: something malformed, or the token of a number. -/
inductive Reading where
  | malformed
  | total (token : Bytes)
  | uint (width : Width) (token : Bytes)
  | sint (width : Width) (token : Bytes)
  deriving DecidableEq

/-- There is nothing that the load can make of it. -/
def Reading.bad : Reading → Bool
  | .malformed => true
  | .total token | .uint _ token => (stoull token).isNone
  | .sint _ token => (stoll token).isNone

/-- An integer of an entry lies in the range of the type that the entry declares. -/
def Reading.Fits : Reading → Prop
  | .uint width token => ∀ n, stoull token = some n → n < 2 ^ width.bits
  | .sint width token => ∀ n, stoll token = some n →
    -2 ^ (width.bits - 1) ≤ n ∧ n < 2 ^ (width.bits - 1)
  | _ => True

def numberReadings (name : Bytes) (reading : Bytes → Reading) (obj : List (Bytes × Json)) :
    List Reading :=
  match find name obj with
  | some (.number token) => [reading token]
  | _ => [.malformed]

def strReadings (obj : List (Bytes × Json)) : List Reading :=
  match find (text "str") obj with
  | some (.string _) => []
  | _ => [.malformed]

def blobReadings (obj : List (Bytes × Json)) : List Reading :=
  match find (text "blob_hex") obj with
  | some (.string hex) => if (hexDecode hex).isSome then [] else [.malformed]
  | _ => [.malformed]

def entryReadings (obj : List (Bytes × Json)) : List Reading :=
  match find (text "type") obj with
  | some (.string name) =>
    match typeFromString name with
    | none => [.malformed]
    | some .str => strReadings obj
    | some .blob => blobReadings obj
    | some .u8 => numberReadings (text "uint") (.uint .w8) obj
    | some .u16 => numberReadings (text "uint") (.uint .w16) obj
    | some .u32 => numberReadings (text "uint") (.uint .w32) obj
    | some .u64 => numberReadings (text "uint") (.uint .w64) obj
    | some .i8 => numberReadings (text "sint") (.sint .w8) obj
    | some .i16 => numberReadings (text "sint") (.sint .w16) obj
    | some .i32 => numberReadings (text "sint") (.sint .w32) obj
    | some .i64 => numberReadings (text "sint") (.sint .w64) obj
  | _ => [.malformed]

def objectReadings (readings : List (Bytes × Json) → List Reading) : Json → List Reading
  | .object value => readings value
  | _ => []

/-- The readings of the members that are objects, in their order. -/
def mapReadings (readings : List (Bytes × Json) → List Reading) (members : List (Bytes × Json)) :
    List Reading :=
  members.flatMap fun e => objectReadings readings e.2

def memberReadings (name : Bytes) (readings : List (Bytes × Json) → List Reading)
    (members : List (Bytes × Json)) : List Reading :=
  match find name members with
  | some (.object value) => mapReadings readings value
  | _ => []

def totalReadings (members : List (Bytes × Json)) : List Reading :=
  match find (text "total_entries") members with
  | none => []
  | some (.number token) => [.total token]
  | some _ => [.malformed]

def namespaceReadings : List (Bytes × Json) → List Reading :=
  memberReadings (text "entries") entryReadings

def partitionReadings (members : List (Bytes × Json)) : List Reading :=
  totalReadings members ++ memberReadings (text "name_spaces") namespaceReadings members

/-- Everything that the load would look at, one after the other. -/
def readings : Json → List Reading
  | .object members =>
    match find (text "partitions") members with
    | none => []
    | some (.object value) => mapReadings partitionReadings value
    | some _ => [.malformed]
  | _ => [.malformed]

/-- The first thing that cannot be read, if any, is malformed; and where everything can be read,
every integer is in range. -/
def Representable (root : Json) : Prop :=
  match (readings root).find? Reading.bad with
  | some r => r = .malformed
  | none => ∀ r ∈ readings root, r.Fits

end Readings

section Reports

variable {α β : Type} {p : Prop} {r : Except LoadError α} {rs rs' : List Reading}
  {inRange : α → Prop}

/-- The outcome of a loader is told by what it reads; `p` is what its result takes over. -/
def Reports (p : Prop) (r : Except LoadError α) (rs : List Reading) (inRange : α → Prop) : Prop :=
  match r with
  | .ok a => rs.find? Reading.bad = none ∧ (inRange a ↔ p ∧ ∀ x ∈ rs, x.Fits)
  | .error (.error _) => rs.find? Reading.bad = some .malformed
  | .error .outOfRange => ∃ x, rs.find? Reading.bad = some x ∧ x ≠ .malformed

theorem Reports.map (h : Reports True r rs inRange) {f : α → β} {inRange' : β → Prop}
    (hf : ∀ a, inRange' (f a) ↔ p ∧ inRange a) : Reports p (r.map f) rs inRange' := by
  match r with
  | .ok a =>
    refine ⟨h.1, ?_⟩
    rw [hf, h.2, true_and]
  | .error (.error _) => exact h
  | .error .outOfRange => exact h

/-- A loader goes on where another one has got to. -/
theorem Reports.bind (h : Reports p r rs inRange) {f : α → Except LoadError β}
    {inRange' : β → Prop} (hf : ∀ a, r = .ok a → Reports (inRange a) (f a) rs' inRange') :
    Reports p (r.bind f) (rs ++ rs') inRange' := by
  match r with
  | .ok a =>
    have hnext := hf a rfl
    have hfind : (rs ++ rs').find? Reading.bad = rs'.find? Reading.bad := by
      rw [List.find?_append, h.1, Option.none_or]
    change Reports p (f a) (rs ++ rs') inRange'
    cases hfa : f a with
    | ok b =>
      rw [hfa] at hnext
      refine ⟨hfind.trans hnext.1, ?_⟩
      rw [hnext.2, h.2, and_assoc, List.forall_mem_append]
    | error e =>
      rw [hfa] at hnext
      cases e with
      | error text => exact hfind.trans hnext
      | outOfRange =>
        obtain ⟨x, hx, hne⟩ := hnext
        exact ⟨x, hfind.trans hx, hne⟩
  | .error (.error _) =>
    change (rs ++ rs').find? Reading.bad = some .malformed
    rw [List.find?_append, show rs.find? Reading.bad = some .malformed from h]
    rfl
  | .error .outOfRange =>
    obtain ⟨x, hx, hne⟩ := h
    refine ⟨x, ?_, hne⟩
    rw [List.find?_append, hx]
    rfl

/-- A loader that refuses what it was given. -/
theorem reports_malformed (p : Prop) (text : String) (inRange : α → Prop) :
    Reports p (.error (.error text)) [.malformed] inRange := rfl

theorem reports_nothing {a : α} (h : inRange a ↔ p) : Reports p (.ok a) [] inRange := by
  refine ⟨rfl, h.trans ?_⟩
  simp

/-- One number: it has room in 64 bits, or the loader throws. -/
theorem reports_number {ν : Type} {o : Option ν} {x : Reading} (hx : x ≠ .malformed)
    (hbad : x.bad = o.isNone) {f : ν → α} (hfits : ∀ n, o = some n → (inRange (f n) ↔ x.Fits)) :
    Reports True ((Nvs.inRange o).map f) [x] inRange := by
  cases o with
  | none => exact ⟨x, by simp [hbad], hx⟩
  | some n =>
    refine ⟨by simp [hbad], ?_⟩
    rw [hfits n rfl]
    simp

end Reports

section Loaders

theorem stoull_lt {token : Bytes} {n : ℕ} (h : stoull token = some n) : n < 2 ^ 64 := by
  unfold stoull at h
  split at h
  · dsimp only at h
    split at h
    · cases h
      exact Nat.mod_lt _ (by decide)
    · cases h
  · split at h
    · cases h
      assumption
    · cases h

theorem stoll_bounds {token : Bytes} {n : ℤ} (h : stoll token = some n) :
    -2 ^ 63 ≤ n ∧ n < 2 ^ 63 := by
  unfold stoll at h
  generalize (if token.head? = some '-'.toUInt8 then -(digitsValue token.tail : ℤ)
    else digitsValue token) = value at h
  dsimp only at h
  by_cases hvalue : -2 ^ 63 ≤ value ∧ value < 2 ^ 63
  · rw [if_pos hvalue] at h
    exact Option.some.inj h ▸ hvalue
  · rw [if_neg hvalue] at h
    cases h

theorem loadUint_reports (width : Width) (obj : List (Bytes × Json)) :
    Reports True (loadUint width obj) (numberReadings (text "uint") (.uint width) obj)
      EntryValue.InRange := by
  unfold loadUint numberReadings
  cases find (text "uint") obj with
  | none => exact reports_malformed ..
  | some j =>
    cases j with
    | number token =>
      refine reports_number (o := stoull token) (x := .uint width token) nofun rfl fun n hn => ?_
      have hlt := stoull_lt hn
      have hvalue : (UInt64.ofNat n).toNat = n := UInt64.toNat_ofNat_of_lt hlt
      rw [EntryValue.InRange, hvalue]
      constructor
      · intro h m hm
        cases hn.symm.trans hm
        exact h
      · exact fun h => h n hn
    | null | bool | string | object | array => exact reports_malformed ..

theorem loadSint_reports (width : Width) (obj : List (Bytes × Json)) :
    Reports True (loadSint width obj) (numberReadings (text "sint") (.sint width) obj)
      EntryValue.InRange := by
  unfold loadSint numberReadings
  cases find (text "sint") obj with
  | none => exact reports_malformed ..
  | some j =>
    cases j with
    | number token =>
      refine reports_number (o := stoll token) (x := .sint width token) nofun rfl fun n hn => ?_
      obtain ⟨hlow, hhigh⟩ := stoll_bounds hn
      have hvalue : (Int64.ofInt n).toInt = n := Int64.toInt_ofInt_of_le hlow hhigh
      rw [EntryValue.InRange, hvalue]
      constructor
      · intro h m hm
        cases hn.symm.trans hm
        exact h
      · exact fun h => h n hn
    | null | bool | string | object | array => exact reports_malformed ..

theorem loadStr_reports (obj : List (Bytes × Json)) :
    Reports True (loadStr obj) (strReadings obj) EntryValue.InRange := by
  unfold loadStr strReadings
  cases find (text "str") obj with
  | none => exact reports_malformed ..
  | some j =>
    cases j with
    | string value => exact reports_nothing Iff.rfl
    | null | bool | number | object | array => exact reports_malformed ..

theorem loadBlob_reports (obj : List (Bytes × Json)) :
    Reports True (loadBlob obj) (blobReadings obj) EntryValue.InRange := by
  unfold loadBlob blobReadings
  cases find (text "blob_hex") obj with
  | none => exact reports_malformed ..
  | some j =>
    cases j with
    | string hex =>
      dsimp only
      cases hexDecode hex with
      | none => exact reports_malformed ..
      | some value => exact reports_nothing Iff.rfl
    | null | bool | number | object | array => exact reports_malformed ..

theorem loadEntry_reports (obj : List (Bytes × Json)) :
    Reports True (loadEntry obj) (entryReadings obj) EntryValue.InRange := by
  unfold loadEntry entryReadings
  cases find (text "type") obj with
  | none => exact reports_malformed ..
  | some j =>
    cases j with
    | string name =>
      dsimp only
      cases typeFromString name with
      | none => exact reports_malformed ..
      | some type =>
        cases type with
        | str => exact loadStr_reports obj
        | blob => exact loadBlob_reports obj
        | u8 => exact loadUint_reports .w8 obj
        | u16 => exact loadUint_reports .w16 obj
        | u32 => exact loadUint_reports .w32 obj
        | u64 => exact loadUint_reports .w64 obj
        | i8 => exact loadSint_reports .w8 obj
        | i16 => exact loadSint_reports .w16 obj
        | i32 => exact loadSint_reports .w32 obj
        | i64 => exact loadSint_reports .w64 obj
    | null | bool | number | object | array => exact reports_malformed ..

variable {α : Type} {load : List (Bytes × Json) → Except LoadError α}
  {reads : List (Bytes × Json) → List Reading} {inRange : α → Prop}

/-- The entries of a map that is loaded are in range. -/
def AllInRange (inRange : α → Prop) (map : OrderedMap Bytes α) : Prop :=
  ∀ e ∈ map.entries, inRange e.2

theorem emplace_entries {map : OrderedMap Bytes α} {k : Bytes} (h : ∀ e ∈ map.entries, e.1 < k)
    (a : α) : (map.emplace k a).entries = map.entries ++ [(k, a)] :=
  alter_append h

theorem emplaceMember_reports
    (hload : ∀ v, Json.Mapped (.object v) → Reports True (load v) (reads v) inRange)
    {map : OrderedMap Bytes α} {k : Bytes} {j : Json} (hmapped : j.Mapped)
    (hkeys : ∀ x ∈ map.entries, x.1 < k) :
    Reports (AllInRange inRange map) (emplaceMember load map (k, j)) (objectReadings reads j)
      (AllInRange inRange) := by
  cases j with
  | object value =>
    refine (hload value hmapped).map fun a => ?_
    rw [AllInRange, emplace_entries hkeys, List.forall_mem_append]
    simp [AllInRange]
  | null | bool | number | string | array => exact reports_nothing Iff.rfl

/-- The loop over the members of a map keeps telling the outcome by the readings. -/
theorem foldlM_reports
    (hload : ∀ v, Json.Mapped (.object v) → Reports True (load v) (reads v) inRange)
    {members : List (Bytes × Json)} (hordered : Ordered members)
    (hmapped : ∀ e ∈ members, e.2.Mapped) {map : OrderedMap Bytes α}
    (hkeys : ∀ x ∈ map.entries, ∀ e ∈ members, x.1 < e.1) :
    Reports (AllInRange inRange map) (members.foldlM (emplaceMember load) map)
      (mapReadings reads members) (AllInRange inRange) := by
  induction members generalizing map with
  | nil => exact reports_nothing Iff.rfl
  | cons e members ih =>
    obtain ⟨he, hordered⟩ := List.pairwise_cons.mp hordered
    have hfirst := emplaceMember_reports hload (hmapped e List.mem_cons_self)
      fun x hx => hkeys x hx e List.mem_cons_self
    rw [List.foldlM_cons]
    refine hfirst.bind fun map' hmap' => ?_
    refine ih hordered (fun x hx => hmapped x (List.mem_cons_of_mem _ hx)) ?_
    intro x hx m hm
    have hmem : x ∈ map.entries ∨ x.1 = e.1 := by
      unfold emplaceMember at hmap'
      split at hmap'
      · rename_i value hvalue
        cases hloaded : load value with
        | error => rw [hloaded] at hmap'; cases hmap'
        | ok a =>
          rw [hloaded] at hmap'
          cases hmap'
          exact (mem_alter hx).symm
      · cases hmap'
        exact .inl hx
    obtain hold | heq := hmem
    · exact hkeys x hold m (List.mem_cons_of_mem _ hm)
    · rw [heq]
      exact he m hm

theorem loadMap_reports
    (hload : ∀ v, Json.Mapped (.object v) → Reports True (load v) (reads v) inRange)
    {members : List (Bytes × Json)} (h : Json.Mapped (.object members)) :
    Reports True (loadMap load members) (mapReadings reads members) (AllInRange inRange) := by
  obtain ⟨hordered, hmapped⟩ := h.members
  have hempty : AllInRange inRange (.empty : OrderedMap Bytes α) := List.forall_mem_nil _
  have hfold := foldlM_reports hload hordered hmapped
    (show ∀ x ∈ (OrderedMap.empty : OrderedMap Bytes α).entries, _ from List.forall_mem_nil _)
  rwa [eq_true hempty] at hfold

theorem loadMember_reports (name : Bytes)
    (hload : ∀ v, Json.Mapped (.object v) → Reports True (load v) (reads v) inRange)
    {members : List (Bytes × Json)} (h : Json.Mapped (.object members)) :
    Reports True (loadMember name load members) (memberReadings name reads members)
      (AllInRange inRange) := by
  have hempty : Reports True (.ok (.empty : OrderedMap Bytes α)) [] (AllInRange inRange) :=
    reports_nothing (iff_of_true (List.forall_mem_nil _) trivial)
  unfold loadMember memberReadings
  cases hfind : find name members with
  | none => exact hempty
  | some j =>
    cases j with
    | object value => exact loadMap_reports hload (h.members.2 _ (mem_of_find hfind))
    | null | bool | number | string | array => exact hempty

theorem loadNamespace_reports {members : List (Bytes × Json)}
    (h : Json.Mapped (.object members)) :
    Reports True (loadNamespace members) (namespaceReadings members) NamespaceStorage.InRange :=
  (loadMember_reports (text "entries") (fun v _ => loadEntry_reports v) h).map
    fun _ => (iff_of_eq (true_and _)).symm

theorem loadTotalEntries_reports (members : List (Bytes × Json)) :
    Reports True (loadTotalEntries members) (totalReadings members) fun _ => True := by
  unfold loadTotalEntries totalReadings
  cases find (text "total_entries") members with
  | none => exact reports_nothing Iff.rfl
  | some j =>
    cases j with
    | number token =>
      exact reports_number (o := stoull token) (x := .total token) nofun rfl fun _ _ => Iff.rfl
    | null | bool | string | object | array => exact reports_malformed ..

theorem loadPartition_reports {members : List (Bytes × Json)}
    (h : Json.Mapped (.object members)) :
    Reports True (loadPartition members) (partitionReadings members) PartitionStorage.InRange := by
  refine (loadTotalEntries_reports members).bind fun totalEntries _ => ?_
  exact (loadMember_reports (text "name_spaces") (fun _ hv => loadNamespace_reports hv) h).map
    fun _ => (iff_of_eq (true_and _)).symm

theorem jsonToStorage_reports {root : Json} (h : root.Mapped) :
    Reports True (jsonToStorage root) (readings root) NvsStorage.InRange := by
  cases root with
  | object members =>
    unfold jsonToStorage readings
    dsimp only
    cases hfind : find (text "partitions") members with
    | none => exact reports_nothing (iff_of_true (List.forall_mem_nil _) trivial)
    | some j =>
      cases j with
      | object value =>
        exact (loadMap_reports (fun _ hv => loadPartition_reports hv)
          (h.members.2 _ (mem_of_find hfind))).map fun _ => (iff_of_eq (true_and _)).symm
      | null | bool | number | string | array => exact reports_malformed ..
  | null | bool | number | string | array => exact reports_malformed ..

end Loaders

/-- The load throws nothing, and what it loads is in range. -/
def Sound (file : Bytes) : Prop :=
  load file ≠ .error (.storage .outOfRange) ∧
    ∀ storage, load file = .ok storage → storage.InRange

/-- A load ends in one of its diagnostics or with integers that are all in range, if and only if
what the file is parsed to is representable. The parser itself always ends. -/
theorem load_sound_iff (file : Bytes) :
    Sound file ↔ ∀ root, parse file = some (root, []) → Representable root := by
  unfold Sound load
  cases hparse : parse file with
  | none => exact iff_of_true ⟨nofun, nofun⟩ nofun
  | some r =>
    obtain ⟨root, rest⟩ := r
    dsimp only
    split
    · rename_i hrest
      refine iff_of_true ⟨nofun, nofun⟩ fun root' heq => ?_
      cases heq
      exact absurd rfl hrest
    · rename_i hrest
      rw [not_not] at hrest
      subst hrest
      have hreports := jsonToStorage_reports (parse_mapped hparse)
      have hroot : (∀ root', some (root, ([] : Bytes)) = some (root', []) → Representable root') ↔
          Representable root := by
        constructor
        · exact fun h => h root rfl
        · intro h root' heq
          cases heq
          exact h
      rw [hroot, Representable]
      cases hload : jsonToStorage root with
      | ok storage =>
        rw [hload] at hreports
        obtain ⟨hfind, hrange⟩ := hreports
        rw [true_and] at hrange
        rw [hfind, ← hrange]
        constructor
        · exact fun h => h.2 storage rfl
        · intro h
          refine ⟨nofun, fun storage' heq => ?_⟩
          cases heq
          exact h
      | error e =>
        rw [hload] at hreports
        cases e with
        | error text =>
          rw [show (readings root).find? Reading.bad = some .malformed from hreports]
          simp
        | outOfRange =>
          obtain ⟨x, hx, hne⟩ := hreports
          rw [hx]
          simp [hne]

/-- A partition with more entries than 64 bits can count. -/
def hugeTotal : Bytes :=
  text "\x7b\"partitions\":\x7b\"nvs\":\x7b\"total_entries\":18446744073709551616\x7d\x7d\x7d"

/-- A byte of three hundred. -/
def wideByte : Bytes :=
  text "\x7b\"partitions\":\x7b\"nvs\":\x7b\"name_spaces\":\x7b\"app\":\x7b\"entries\":" ++
  text "\x7b\"x\":\x7b\"type\":\"U8\",\"uint\":300\x7d\x7d\x7d\x7d\x7d\x7d\x7d"

/-- The first throws, the second is loaded. -/
theorem unsound_files : ¬ Sound hugeTotal ∧ ¬ Sound wideByte := by
  constructor
  · intro h
    apply h.1
    decide +kernel
  · intro h
    have hentry : ((load wideByte).toOption.bind fun storage =>
        (storage.partitions.find (text "nvs")).bind fun partition =>
          (partition.nameSpaces.find (text "app")).bind fun nameSpace =>
            nameSpace.entries.find (text "x")) = some (.uint .w8 300) := by decide +kernel
    obtain ⟨storage, hstorage, hentry⟩ := Option.bind_eq_some_iff.mp hentry
    obtain ⟨partition, hpartition, hentry⟩ := Option.bind_eq_some_iff.mp hentry
    obtain ⟨nameSpace, hnameSpace, hentry⟩ := Option.bind_eq_some_iff.mp hentry
    have hload : load wideByte = .ok storage := by
      cases hfile : load wideByte with
      | error => rw [hfile] at hstorage; cases hstorage
      | ok => rw [hfile] at hstorage; cases hstorage; rfl
    have hrange := h.2 storage hload _ (mem_of_find hpartition) _ (mem_of_find hnameSpace) _
      (mem_of_find hentry)
    exact absurd (show (300 : UInt64).toNat < 2 ^ 8 from hrange) (by decide)

end RooTesting.Nvs
