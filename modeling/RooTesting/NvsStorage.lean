import RooTesting.NvsJson

/-! # The storage of the fake NVS

Partitions, namespaces and entries, the text that a storage is written as, and the
storage that a parsed text stands for. -/
namespace RooTesting.Nvs
open OrderedMaps

def kNvsEntrySize : ℕ := 32
def kNvsEntriesPerPage : ℕ := 126
def kDefaultNvsPageCount : ℕ := 8
def kDefaultNvsTotalEntries : ℕ := kDefaultNvsPageCount * kNvsEntriesPerPage
def kBlobChunkSize : ℕ := kNvsEntrySize * (kNvsEntriesPerPage - 1)

inductive NvsType where
  | u8 | i8 | u16 | i16 | u32 | i32 | u64 | i64 | str | blob
  deriving DecidableEq

inductive Width where
  | w8 | w16 | w32 | w64
  deriving DecidableEq

/-- An entry with the one field that its type selects; the source's other fields keep
their defaults. Integers of every width are held in 64 bits. -/
inductive EntryValue where
  | sint (width : Width) (value : Int64)
  | uint (width : Width) (value : UInt64)
  | str (value : Bytes)
  | blob (value : Bytes)
  deriving DecidableEq

def EntryValue.type : EntryValue → NvsType
  | .sint .w8 _ => .i8
  | .sint .w16 _ => .i16
  | .sint .w32 _ => .i32
  | .sint .w64 _ => .i64
  | .uint .w8 _ => .u8
  | .uint .w16 _ => .u16
  | .uint .w32 _ => .u32
  | .uint .w64 _ => .u64
  | .str _ => .str
  | .blob _ => .blob

structure NamespaceStorage where
  entries : OrderedMap Bytes EntryValue := .empty
  deriving DecidableEq

structure PartitionStorage where
  totalEntries : UInt64 := UInt64.ofNat kDefaultNvsTotalEntries
  nameSpaces : OrderedMap Bytes NamespaceStorage := .empty
  deriving DecidableEq

structure NvsStorage where
  partitions : OrderedMap Bytes PartitionStorage := .empty
  deriving DecidableEq

def typeToString : NvsType → Bytes
  | .i8 => text "I8"
  | .u8 => text "U8"
  | .i16 => text "I16"
  | .u16 => text "U16"
  | .i32 => text "I32"
  | .u32 => text "U32"
  | .i64 => text "I64"
  | .u64 => text "U64"
  | .str => text "STR"
  | .blob => text "BLOB"

/-- The member of an entry that holds its value. -/
def valueMember : EntryValue → Bytes × Bytes
  | .str value => (text "str", writeJsonString value)
  | .blob value => (text "blob_hex", writeJsonString (hexEncode value))
  | .uint _ value => (text "uint", writeUint value.toNat)
  | .sint _ value => (text "sint", writeSint value.toInt)

def writeEntryValue (indent : ℕ) (value : EntryValue) : Bytes :=
  writeObject indent [(text "type", writeJsonString (typeToString value.type)), valueMember value]

/-- One of the loops of `WriteStorage` over a map. -/
def writeMap {α : Type} (indent : ℕ) (write : ℕ → α → Bytes) (map : OrderedMap Bytes α) : Bytes :=
  writeObject indent (map.entries.map fun e => (e.1, write (indent + 2) e.2))

def writeNamespace (indent : ℕ) (nameSpace : NamespaceStorage) : Bytes :=
  writeObject indent [(text "entries", writeMap (indent + 2) writeEntryValue nameSpace.entries)]

def writePartition (indent : ℕ) (partition : PartitionStorage) : Bytes :=
  writeObject indent [(text "total_entries", writeUint partition.totalEntries.toNat),
    (text "name_spaces", writeMap (indent + 2) writeNamespace partition.nameSpaces)]

def writeStorage (indent : ℕ) (storage : NvsStorage) : Bytes :=
  writeObject indent [(text "partitions", writeMap (indent + 2) writePartition storage.partitions)]

/-- An error text of `JsonToStorage`, or the exception of a number out of range. -/
inductive LoadError where
  | error (text : String)
  | outOfRange
  deriving DecidableEq

def typeFromString (value : Bytes) : Option NvsType :=
  if value = text "I8" then some .i8
  else if value = text "U8" then some .u8
  else if value = text "I16" then some .i16
  else if value = text "U16" then some .u16
  else if value = text "I32" then some .i32
  else if value = text "U32" then some .u32
  else if value = text "I64" then some .i64
  else if value = text "U64" then some .u64
  else if value = text "STR" then some .str
  else if value = text "BLOB" then some .blob
  else none

def inRange {α : Type} (o : Option α) : Except LoadError α := o.elim (.error .outOfRange) .ok

/-- The number member of an unsigned entry. -/
def loadUint (width : Width) (entryObj : List (Bytes × Json)) : Except LoadError EntryValue :=
  match find (text "uint") entryObj with
  | some (.number token) => (inRange (stoull token)).map fun n => .uint width (UInt64.ofNat n)
  | _ => .error (.error "unsigned entry missing uint")

def loadSint (width : Width) (entryObj : List (Bytes × Json)) : Except LoadError EntryValue :=
  match find (text "sint") entryObj with
  | some (.number token) => (inRange (stoll token)).map fun n => .sint width (Int64.ofInt n)
  | _ => .error (.error "signed entry missing sint")

def loadStr (entryObj : List (Bytes × Json)) : Except LoadError EntryValue :=
  match find (text "str") entryObj with
  | some (.string value) => .ok (.str value)
  | _ => .error (.error "string entry missing str")

def loadBlob (entryObj : List (Bytes × Json)) : Except LoadError EntryValue :=
  match find (text "blob_hex") entryObj with
  | some (.string hex) =>
    match hexDecode hex with
    | some value => .ok (.blob value)
    | none => .error (.error "invalid blob_hex")
  | _ => .error (.error "blob entry missing blob_hex")

def loadEntry (entryObj : List (Bytes × Json)) : Except LoadError EntryValue :=
  match find (text "type") entryObj with
  | some (.string name) =>
    match typeFromString name with
    | none => .error (.error "unknown entry type")
    | some .str => loadStr entryObj
    | some .blob => loadBlob entryObj
    | some .u8 => loadUint .w8 entryObj
    | some .u16 => loadUint .w16 entryObj
    | some .u32 => loadUint .w32 entryObj
    | some .u64 => loadUint .w64 entryObj
    | some .i8 => loadSint .w8 entryObj
    | some .i16 => loadSint .w16 entryObj
    | some .i32 => loadSint .w32 entryObj
    | some .i64 => loadSint .w64 entryObj
  | _ => .error (.error "entry missing type")

/-- One round of a loop of `JsonToStorage`: members that are no objects are passed over. -/
def emplaceMember {α : Type} (load : List (Bytes × Json) → Except LoadError α)
    (map : OrderedMap Bytes α) (e : Bytes × Json) : Except LoadError (OrderedMap Bytes α) :=
  match e.2 with
  | .object value => (load value).map fun a => map.emplace e.1 a
  | _ => .ok map

def loadMap {α : Type} (load : List (Bytes × Json) → Except LoadError α)
    (members : List (Bytes × Json)) : Except LoadError (OrderedMap Bytes α) :=
  members.foldlM (emplaceMember load) .empty

/-- The map under a name, empty when there is no object of that name. -/
def loadMember {α : Type} (name : Bytes) (load : List (Bytes × Json) → Except LoadError α)
    (members : List (Bytes × Json)) : Except LoadError (OrderedMap Bytes α) :=
  match find name members with
  | some (.object value) => loadMap load value
  | _ => .ok .empty

def loadNamespace (members : List (Bytes × Json)) : Except LoadError NamespaceStorage :=
  (loadMember (text "entries") loadEntry members).map fun entries => ⟨entries⟩

def loadTotalEntries (members : List (Bytes × Json)) : Except LoadError UInt64 :=
  match find (text "total_entries") members with
  | none => .ok (UInt64.ofNat kDefaultNvsTotalEntries)
  | some (.number token) => (inRange (stoull token)).map UInt64.ofNat
  | some _ => .error (.error "total_entries must be a number")

def loadPartition (members : List (Bytes × Json)) : Except LoadError PartitionStorage := do
  let totalEntries ← loadTotalEntries members
  let nameSpaces ← loadMember (text "name_spaces") loadNamespace members
  .ok ⟨totalEntries, nameSpaces⟩

def jsonToStorage : Json → Except LoadError NvsStorage
  | .object members =>
    match find (text "partitions") members with
    | none => .ok {}
    | some (.object value) => (loadMap loadPartition value).map fun partitions => ⟨partitions⟩
    | some _ => .error (.error "partitions must be an object")
  | _ => .error (.error "Root must be an object")

end RooTesting.Nvs
