import RooTesting.NvsStorage
import RooTesting.Transition
import Mathlib.Logic.Function.Basic

/-! # The fake NVS

The live storage, the committed storage and the file, and the operations on them. A file
system whose writes succeed is assumed: `save` replaces the content of the file. -/
namespace RooTesting.Nvs
open OrderedMaps Transition

inductive EspErr where
  | ok | invalidArg | notInitialized | notFound | typeMismatch | readOnly | notEnoughSpace
  | invalidName | invalidHandle | partNotFound
  deriving DecidableEq

structure Handle where
  partitionName : Bytes
  nsName : Bytes
  readonly : Bool
  deriving DecidableEq

/-- `NvsImpl` with the content of its file. -/
structure Store where
  storage : NvsStorage
  committed : NvsStorage
  initialized : Bytes → Bool
  handles : ℕ → Option Handle
  nextId : ℕ
  file : Bytes

structure Stats where
  usedEntries : ℕ := 0
  freeEntries : ℕ := 0
  availableEntries : ℕ := 0
  totalEntries : ℕ := 0
  namespaceCount : ℕ := 0
  deriving DecidableEq

structure EntryInfo where
  namespaceName : Bytes
  key : Bytes
  type : NvsType
  deriving DecidableEq

def uint32Size : ℕ := 2 ^ 32

/-- A name is a C string; `none` is the null pointer. -/
def isValidNvsName : Option Bytes → Bool
  | none => false
  | some name => name ≠ [] && name.length ≤ 15

def divideRoundUp (value divisor : ℕ) : ℕ :=
  value / divisor + if value % divisor ≠ 0 then 1 else 0

def entryCount : EntryValue → ℕ
  | .str value => 1 + divideRoundUp (value.length + 1) kNvsEntrySize
  | .blob value =>
    let chunks := max 1 (divideRoundUp value.length kBlobChunkSize)
    1 + chunks + divideRoundUp value.length kNvsEntrySize
  | _ => 1

def NamespaceStorage.usedEntries (nameSpace : NamespaceStorage) : ℕ :=
  (nameSpace.entries.entries.map fun e => entryCount e.2).sum

def PartitionStorage.usedEntries (partition : PartitionStorage) : ℕ :=
  partition.nameSpaces.entries.length +
    (partition.nameSpaces.entries.map fun e => e.2.usedEntries).sum

def PartitionStorage.availableEntries (partition : PartitionStorage) : ℕ :=
  (partition.totalEntries.toNat - kNvsEntriesPerPage) - partition.usedEntries

namespace NvsStorage

variable (s : NvsStorage)

/-- `partitions[p]` is changed in place. -/
def modifyPartition (p : Bytes) (f : PartitionStorage → PartitionStorage) : NvsStorage :=
  ⟨s.partitions.modify p {} f⟩

/-- `partitions[p].name_spaces[n]` is changed in place. -/
def modifyNamespace (p n : Bytes) (f : NamespaceStorage → NamespaceStorage) : NvsStorage :=
  s.modifyPartition p fun partition =>
    { partition with nameSpaces := partition.nameSpaces.modify n {} f }

def namespace? (p n : Bytes) : Option NamespaceStorage :=
  (s.partitions.find p).bind fun partition => partition.nameSpaces.find n

def hasPartition (p : Bytes) : Bool := (s.partitions.find p).isSome

end NvsStorage

/-- Why the process exits instead of loading its file. -/
inductive OpenError where
  | parse
  | trailingData
  | storage (e : LoadError)
  deriving DecidableEq

def load (file : Bytes) : Except OpenError NvsStorage :=
  match parse file with
  | none => .error .parse
  | some (root, rest) =>
    if rest ≠ [] then .error .trailingData
    else
      match jsonToStorage root with
      | .error e => .error (.storage e)
      | .ok storage => .ok storage

namespace Store

variable (s : Store)

def save : Store := { s with file := writeStorage 0 s.committed }

/-- The store on a file that was missing. -/
def created : Store := save ⟨{}, {}, fun _ => false, fun _ => none, 0, []⟩

/-- The constructor, on the file under its path, which is created when it is missing. -/
def construct : Option Bytes → Except OpenError Store
  | none => .ok created
  | some file => (load file).map fun storage =>
    ⟨storage, storage, fun _ => false, fun _ => none, 0, file⟩

def init (partitionName : Option Bytes) (partitionSize : UInt64) : EspErr × Store :=
  match partitionName with
  | none => (.invalidArg, s)
  | some name =>
    let resize (partition : PartitionStorage) : PartitionStorage :=
      if partitionSize ≠ 0 then
        { partition with
          totalEntries := UInt64.ofNat (partitionSize.toNat / 4096 * kNvsEntriesPerPage) }
      else partition
    let s := { s with
      storage := s.storage.modifyPartition name resize
      committed := s.committed.modifyPartition name resize
      initialized := Function.update s.initialized name true }
    (.ok, s.save)

/-- The loop that erases the handles on a partition. -/
def closePartition (name : Bytes) : Store :=
  { s with handles := fun id => (s.handles id).filter fun h => h.partitionName ≠ name }

def deinit (partitionName : Option Bytes) : EspErr × Store :=
  match partitionName with
  | none => (.invalidArg, s)
  | some name =>
    if s.initialized name then
      (.ok, { s with initialized := Function.update s.initialized name false }.closePartition name)
    else (.notInitialized, s)

def erasePartition (partitionName : Option Bytes) : EspErr × Store :=
  match partitionName with
  | none => (.invalidArg, s)
  | some name =>
    if s.storage.hasPartition name then
      let s := if s.initialized name then (s.deinit name).2 else s.closePartition name
      let clear (partition : PartitionStorage) : PartitionStorage :=
        { partition with nameSpaces := .empty }
      let s := { s with
        storage := s.storage.modifyPartition name clear
        committed := s.committed.modifyPartition name clear }
      (.ok, s.save)
    else (.partNotFound, s)

/-- A handle under the next number. -/
def addHandle (h : Handle) : EspErr × Option ℕ × Store :=
  (.ok, some s.nextId, { s with
    handles := Function.update s.handles s.nextId (some h)
    nextId := (s.nextId + 1) % uint32Size })

/-- The flag says whether there is somewhere to put the handle. -/
def openNamespace (partName name : Option Bytes) (readonly outHandle : Bool) :
    EspErr × Option ℕ × Store :=
  match partName, outHandle with
  | none, _ => (.invalidArg, none, s)
  | some _, false => (.invalidArg, none, s)
  | some partName, true =>
    match name with
    | none => (.invalidName, none, s)
    | some name =>
      if !isValidNvsName (some name) then (.invalidName, none, s)
      else
        match s.storage.partitions.find partName with
        | none => (.partNotFound, none, s)
        | some part =>
          if !s.initialized partName then (.notInitialized, none, s)
          else
            match part.nameSpaces.find name with
            | some _ => s.addHandle ⟨partName, name, readonly⟩
            | none =>
              if readonly then (.notFound, none, s)
              else if part.availableEntries = 0 then (.notEnoughSpace, none, s)
              else
                let s := { s with storage := s.storage.modifyNamespace partName name id }
                s.addHandle ⟨partName, name, readonly⟩

def close (handle : ℕ) : Store := { s with handles := Function.update s.handles handle none }

/-- The entries of a handle's namespace, which is made first when there is none. -/
def access (h : Handle) : Store × NamespaceStorage :=
  ({ s with storage := s.storage.modifyNamespace h.partitionName h.nsName id },
    (s.storage.namespace? h.partitionName h.nsName).getD {})

def set (handle : ℕ) (key : Option Bytes) (value : EntryValue) : EspErr × Store :=
  match s.handles handle with
  | none => (.invalidHandle, s)
  | some h =>
    if h.readonly then (.readOnly, s)
    else if !isValidNvsName key then (.invalidName, s)
    else
      let key := key.getD []
      let (s, nameSpace) := s.access h
      let oldSize := ((nameSpace.entries.find key).map entryCount).getD 0
      let newSize := entryCount value
      let available := ((s.storage.partitions.find h.partitionName).getD {}).availableEntries
      if oldSize < newSize ∧ available < newSize - oldSize then (.notEnoughSpace, s)
      else
        let assign (nameSpace : NamespaceStorage) : NamespaceStorage :=
          ⟨nameSpace.entries.insert key value⟩
        (.ok, { s with storage := s.storage.modifyNamespace h.partitionName h.nsName assign })

-- The setters of one width are `set` at an entry of their type.
def setI8 (handle : ℕ) (key : Option Bytes) (value : Int8) : EspErr × Store :=
  s.set handle key (.sint .w8 value.toInt64)

def setU8 (handle : ℕ) (key : Option Bytes) (value : UInt8) : EspErr × Store :=
  s.set handle key (.uint .w8 value.toUInt64)

def setI16 (handle : ℕ) (key : Option Bytes) (value : Int16) : EspErr × Store :=
  s.set handle key (.sint .w16 value.toInt64)

def setU16 (handle : ℕ) (key : Option Bytes) (value : UInt16) : EspErr × Store :=
  s.set handle key (.uint .w16 value.toUInt64)

def setI32 (handle : ℕ) (key : Option Bytes) (value : Int32) : EspErr × Store :=
  s.set handle key (.sint .w32 value.toInt64)

def setU32 (handle : ℕ) (key : Option Bytes) (value : UInt32) : EspErr × Store :=
  s.set handle key (.uint .w32 value.toUInt64)

def setI64 (handle : ℕ) (key : Option Bytes) (value : Int64) : EspErr × Store :=
  s.set handle key (.sint .w64 value)

def setU64 (handle : ℕ) (key : Option Bytes) (value : UInt64) : EspErr × Store :=
  s.set handle key (.uint .w64 value)

def setStr (handle : ℕ) (key value : Option Bytes) : EspErr × Store :=
  match value with
  | none => (.invalidArg, s)
  | some value => s.set handle key (.str value)

/-- A value of `none` is a null pointer with a length; without one it is the empty blob. -/
def setBlob (handle : ℕ) (key value : Option Bytes) : EspErr × Store :=
  match value with
  | none => (.invalidArg, s)
  | some value => s.set handle key (.blob value)

def get (handle : ℕ) (key : Option Bytes) (expectedType : NvsType) :
    Except EspErr EntryValue × Store :=
  match s.handles handle with
  | none => (.error .invalidHandle, s)
  | some h =>
    if !isValidNvsName key then (.error .invalidName, s)
    else
      let (s, nameSpace) := s.access h
      match nameSpace.entries.find (key.getD []) with
      | none => (.error .notFound, s)
      | some entry => (if entry.type ≠ expectedType then .error .typeMismatch else .ok entry, s)

def findKey (handle : ℕ) (key : Option Bytes) : Except EspErr NvsType × Store :=
  match s.handles handle with
  | none => (.error .invalidHandle, s)
  | some h =>
    if !isValidNvsName key then (.error .invalidName, s)
    else
      let (s, nameSpace) := s.access h
      match nameSpace.entries.find (key.getD []) with
      | none => (.error .notFound, s)
      | some entry => (.ok entry.type, s)

def eraseKey (handle : ℕ) (key : Option Bytes) : EspErr × Store :=
  match s.handles handle with
  | none => (.invalidHandle, s)
  | some h =>
    if h.readonly then (.readOnly, s)
    else if !isValidNvsName key then (.invalidName, s)
    else
      let key := key.getD []
      let (s, nameSpace) := s.access h
      let erase (nameSpace : NamespaceStorage) : NamespaceStorage := ⟨nameSpace.entries.erase key⟩
      (if (nameSpace.entries.find key).isSome then .ok else .notFound,
        { s with storage := s.storage.modifyNamespace h.partitionName h.nsName erase })

def eraseAll (handle : ℕ) : EspErr × Store :=
  match s.handles handle with
  | none => (.invalidHandle, s)
  | some h =>
    if h.readonly then (.readOnly, s)
    else
      let storage := s.storage.modifyNamespace h.partitionName h.nsName fun _ => {}
      (.ok, { s with storage := storage })

def purgeAll (handle : ℕ) : EspErr :=
  match s.handles handle with
  | none => .invalidHandle
  | some h => if h.readonly then .readOnly else .ok

/-- There is no result when `name_spaces.at` throws. -/
def commit (handle : ℕ) : Option (EspErr × Store) :=
  match s.handles handle with
  | none => some (.invalidHandle, s)
  | some h =>
    let s := { s with storage := s.storage.modifyPartition h.partitionName id }
    match s.storage.namespace? h.partitionName h.nsName with
    | none => none
    | some nameSpace =>
      let total := ((s.storage.partitions.find h.partitionName).getD {}).totalEntries
      let copy (partition : PartitionStorage) : PartitionStorage :=
        ⟨total, partition.nameSpaces.insert h.nsName nameSpace⟩
      let s := { s with committed := s.committed.modifyPartition h.partitionName copy }
      some (.ok, s.save)

/-- A type filter of `none` is `0xFF`, which lists entries of every type. -/
def listEntries (partName namespaceName : Option Bytes) (type : Option NvsType) :
    Except EspErr (List EntryInfo) :=
  match partName with
  | none => .error .invalidArg
  | some partName =>
    match s.storage.partitions.find partName with
    | none => .error .partNotFound
    | some part =>
      let nameSpaces := part.nameSpaces.entries.filter fun ns => namespaceName.all (· = ns.1)
      let entries := nameSpaces.flatMap fun ns =>
        (ns.2.entries.entries.filter fun e => type.all (· = e.2.type)).map fun e =>
          (⟨ns.1, e.1, e.2.type⟩ : EntryInfo)
      if entries = [] then .error .notFound else .ok entries

def getStats (partitionName : Option Bytes) : Except EspErr Stats :=
  match partitionName with
  | none => .error .invalidArg
  | some name =>
    match s.storage.partitions.find name with
    | none => .error .partNotFound
    | some partition =>
      if !s.initialized name then .error .notInitialized
      else
        let total := partition.totalEntries.toNat
        let free := total - partition.usedEntries
        .ok {
          usedEntries := partition.usedEntries
          freeEntries := free
          availableEntries := free - kNvsEntriesPerPage
          totalEntries := total
          namespaceCount := partition.nameSpaces.entries.length }

def getUsedEntryCount (handle : ℕ) : Except EspErr ℕ × Store :=
  match s.handles handle with
  | none => (.error .invalidHandle, s)
  | some h => (.ok (s.access h).2.usedEntries, (s.access h).1)

end Store

/-- An operation; the last one ends the process and starts it again on its file. -/
inductive Op where
  | init (partitionName : Option Bytes) (partitionSize : UInt64)
  | deinit (partitionName : Option Bytes)
  | erasePartition (partitionName : Option Bytes)
  | openNamespace (partName name : Option Bytes) (readonly outHandle : Bool)
  | close (handle : ℕ)
  | set (handle : ℕ) (key : Option Bytes) (value : EntryValue)
  | get (handle : ℕ) (key : Option Bytes) (expectedType : NvsType)
  | findKey (handle : ℕ) (key : Option Bytes)
  | eraseKey (handle : ℕ) (key : Option Bytes)
  | eraseAll (handle : ℕ)
  | getUsedEntryCount (handle : ℕ)
  | commit (handle : ℕ)
  | restart

/-- There is no next state when the operation throws or the process exits. -/
def step (s : Store) : Op → Option Store
  | .init partitionName partitionSize => some (s.init partitionName partitionSize).2
  | .deinit partitionName => some (s.deinit partitionName).2
  | .erasePartition partitionName => some (s.erasePartition partitionName).2
  | .openNamespace partName name readonly outHandle =>
    some (s.openNamespace partName name readonly outHandle).2.2
  | .close handle => some (s.close handle)
  | .set handle key value => some (s.set handle key value).2
  | .get handle key expectedType => some (s.get handle key expectedType).2
  | .findKey handle key => some (s.findKey handle key).2
  | .eraseKey handle key => some (s.eraseKey handle key).2
  | .eraseAll handle => some (s.eraseAll handle).2
  | .getUsedEntryCount handle => some (s.getUsedEntryCount handle).2
  | .commit handle => (s.commit handle).map Prod.snd
  | .restart => (Store.construct (some s.file)).toOption

end RooTesting.Nvs
