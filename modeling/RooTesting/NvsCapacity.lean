import RooTesting.NvsHandles
import Mathlib.Algebra.BigOperators.Group.List.Basic

/-! # The capacity of a partition

Entries are counted as the sum of a measure over two levels of maps, so one operation
changes the count by the difference at one key. -/
namespace RooTesting.Nvs
open OrderedMaps Transition

/-- The entries in use leave the reserved page free. -/
def PartitionStorage.Within (partition : PartitionStorage) : Prop :=
  partition.usedEntries ≤ partition.totalEntries.toNat - kNvsEntriesPerPage

def NvsStorage.Within (s : NvsStorage) : Prop :=
  ∀ p partition, s.partitions.find p = some partition → partition.Within

/-- The entries under the key of a handle's namespace. -/
def Store.oldCount (s : Store) (h : Handle) (key : Bytes) : ℕ :=
  (((s.storage.namespace? h.partitionName h.nsName).bind fun nameSpace =>
    nameSpace.entries.find key).map entryCount).getD 0

/-- `init` shrinks no partition, and a restart finds a storage within capacity. -/
def Roomy (s : Store) : Op → Prop
  | .init (some name) partitionSize => partitionSize ≠ 0 →
    ∀ partition, s.storage.partitions.find name = some partition →
      partition.totalEntries ≤ UInt64.ofNat (partitionSize.toNat / 4096 * kNvsEntriesPerPage)
  | .restart => s.committed.Within
  | _ => True

section Counts

theorem usedEntries_eq_weight (partition : PartitionStorage) : partition.usedEntries =
    partition.nameSpaces.weight fun nameSpace => nameSpace.usedEntries + 1 := by
  have hsum : ∀ l : List (Bytes × NamespaceStorage),
      l.length + (l.map fun e => e.2.usedEntries).sum =
        (l.map fun e => e.2.usedEntries + 1).sum := by
    intro l
    induction l with
    | nil => rfl
    | cons e l ih =>
      simp only [List.length_cons, List.map_cons, List.sum_cons]
      omega
  exact hsum _

/-- A change inside one namespace. -/
theorem usedEntries_modify {partition : PartitionStorage} {n : Bytes} {nameSpace : NamespaceStorage}
    (hn : partition.nameSpaces.find n = some nameSpace) (f : NamespaceStorage → NamespaceStorage) :
    ({ partition with nameSpaces := partition.nameSpaces.modify n {} f } :
        PartitionStorage).usedEntries + nameSpace.usedEntries =
      partition.usedEntries + (f nameSpace).usedEntries := by
  have hweight := partition.nameSpaces.weight_alter
    (fun nameSpace => nameSpace.usedEntries + 1) n fun o => some (f (o.getD {}))
  rw [usedEntries_eq_weight, usedEntries_eq_weight]
  simp only [hn, Option.map_some, Option.getD_some] at hweight
  simp only [OrderedMap.modify]
  omega

/-- A namespace that is made takes one entry. -/
theorem usedEntries_make {partition : PartitionStorage} {n : Bytes}
    (hn : partition.nameSpaces.find n = none) :
    ({ partition with nameSpaces := partition.nameSpaces.modify n {} id } :
        PartitionStorage).usedEntries = partition.usedEntries + 1 := by
  have hweight := partition.nameSpaces.weight_alter
    (fun nameSpace => nameSpace.usedEntries + 1) n fun o => some (id (o.getD {}))
  rw [usedEntries_eq_weight, usedEntries_eq_weight]
  simp only [hn, Option.map_none, Option.map_some, Option.getD_none, Option.getD_some] at hweight
  simp only [OrderedMap.modify]
  exact hweight

theorem usedEntries_insert (nameSpace : NamespaceStorage) (key : Bytes) (value : EntryValue) :
    (⟨nameSpace.entries.insert key value⟩ : NamespaceStorage).usedEntries +
        ((nameSpace.entries.find key).map entryCount).getD 0 =
      nameSpace.usedEntries + entryCount value :=
  nameSpace.entries.weight_alter entryCount key fun _ => some value

theorem usedEntries_erase (nameSpace : NamespaceStorage) (key : Bytes) :
    (⟨nameSpace.entries.erase key⟩ : NamespaceStorage).usedEntries ≤ nameSpace.usedEntries := by
  have hweight := nameSpace.entries.weight_alter entryCount key fun _ => none
  simp only [Option.map_none, Option.getD_none] at hweight
  exact Nat.le_of_add_right_le hweight.le

end Counts

section Storages

variable {s : NvsStorage} {p n : Bytes} {partition : PartitionStorage}

theorem within_empty (totalEntries : UInt64) :
    (⟨totalEntries, .empty⟩ : PartitionStorage).Within := Nat.zero_le _

theorem NvsStorage.Within.modifyPartition (h : s.Within) {f : PartitionStorage → PartitionStorage}
    (hf : (f ((s.partitions.find p).getD {})).Within) : (s.modifyPartition p f).Within := by
  intro q partition hq
  rw [NvsStorage.modifyPartition, OrderedMap.find_modify] at hq
  split at hq
  · cases hq
    exact hf
  · exact h q partition hq

theorem NvsStorage.Within.modifyNamespace (h : s.Within) (hp : s.partitions.find p = some partition)
    {f : NamespaceStorage → NamespaceStorage}
    (hf : ({ partition with nameSpaces := partition.nameSpaces.modify n {} f } :
      PartitionStorage).Within) : (s.modifyNamespace p n f).Within := by
  apply h.modifyPartition
  rw [hp]
  exact hf

/-- A change inside a namespace that does not need more entries than there are. -/
theorem NvsStorage.Within.grow (h : s.Within) (hp : s.partitions.find p = some partition)
    {nameSpace : NamespaceStorage} (hn : partition.nameSpaces.find n = some nameSpace)
    {f : NamespaceStorage → NamespaceStorage}
    (hf : (f nameSpace).usedEntries ≤ nameSpace.usedEntries + partition.availableEntries) :
    (s.modifyNamespace p n f).Within := by
  apply h.modifyNamespace hp
  have hused := usedEntries_modify hn f
  have hwithin := h p partition hp
  unfold PartitionStorage.Within PartitionStorage.availableEntries at *
  dsimp only at *
  omega

end Storages

section Operations

variable {s : Store} {h : Handle} {handle : ℕ}

/-- `set` on a writable handle with a valid key. -/
theorem set_spec {nameSpace : NamespaceStorage} {partition : PartitionStorage}
    (hh : s.handles handle = some h) (hw : h.readonly = false)
    (hp : s.storage.partitions.find h.partitionName = some partition)
    (hn : partition.nameSpaces.find h.nsName = some nameSpace) {key : Option Bytes}
    (hkey : isValidNvsName key = true) (value : EntryValue) :
    s.set handle key value =
      if entryCount value ≤ s.oldCount h (key.getD []) + partition.availableEntries then
        (.ok, { s with
          storage := s.storage.modifyNamespace h.partitionName h.nsName fun nameSpace =>
            ⟨nameSpace.entries.insert (key.getD []) value⟩ })
      else (.notEnoughSpace, s) := by
  have hlive : s.storage.namespace? h.partitionName h.nsName = some nameSpace := by
    rw [namespace?_eq_some]
    exact ⟨partition, hp, hn⟩
  have hold : s.oldCount h (key.getD []) =
      ((nameSpace.entries.find (key.getD [])).map entryCount).getD 0 := by
    rw [Store.oldCount, hlive]
    rfl
  simp only [Store.set, hh, hw, hkey, access_of_live hlive, hp, Bool.false_eq_true, if_false,
    Bool.not_true, Option.getD_some, hold]
  by_cases hroom : entryCount value ≤ ((nameSpace.entries.find (key.getD [])).map
      entryCount).getD 0 + partition.availableEntries
  · rw [if_pos hroom, if_neg (by omega)]
  · rw [if_neg hroom, if_pos (by omega)]

theorem getStats_spec {name : Bytes} {partition : PartitionStorage}
    (hp : s.storage.partitions.find name = some partition) (hinit : s.initialized name = true) :
    ∃ stats, s.getStats (some name) = .ok stats ∧ stats.usedEntries = partition.usedEntries ∧
      stats.availableEntries = partition.availableEntries ∧
      stats.totalEntries = partition.totalEntries.toNat := by
  refine ⟨_, by simp only [Store.getStats, hp, hinit]; rfl, rfl, ?_, rfl⟩
  unfold PartitionStorage.availableEntries
  dsimp only
  omega

/-- A `set` that fails leaves everything as it was. -/
theorem set_failed (hs : HandlesLive s) (key : Option Bytes) (value : EntryValue)
    (hfail : (s.set handle key value).1 ≠ .ok) : (s.set handle key value).2 = s := by
  cases hh : s.handles handle with
  | none => rw [(rejected_of_none hh).set]
  | some h =>
    obtain ⟨nameSpace, hn⟩ := Option.isSome_iff_exists.mp (hs handle h hh).2
    simp only [Store.set, hh, access_of_live hn] at hfail ⊢
    split at hfail
    · simp_all
    split at hfail
    · simp_all
    split at hfail
    · simp_all
    · exact absurd rfl hfail

theorem openNamespace_failed (partName name : Option Bytes) (readonly outHandle : Bool)
    (hfail : (s.openNamespace partName name readonly outHandle).1 ≠ .ok) :
    (s.openNamespace partName name readonly outHandle).2.2 = s := by
  revert hfail
  unfold Store.openNamespace
  split
  · exact fun _ => rfl
  · exact fun _ => rfl
  split
  · exact fun _ => rfl
  split
  · exact fun _ => rfl
  split
  · exact fun _ => rfl
  split
  · exact fun _ => rfl
  split
  · exact fun h => absurd rfl h
  split
  · exact fun _ => rfl
  split
  · exact fun _ => rfl
  · exact fun h => absurd rfl h

end Operations

section Runs

variable {s s' : Store} {h : Handle} {handle : ℕ}

private theorem within_set (hlive : HandlesLive s) (hs : s.storage.Within)
    (key : Option Bytes) (value : EntryValue) : (s.set handle key value).2.storage.Within := by
  by_cases hok : (s.set handle key value).1 = .ok
  · cases hh : s.handles handle with
    | none => rwa [(rejected_of_none hh).set]
    | some h =>
      obtain ⟨nameSpace, hn⟩ := Option.isSome_iff_exists.mp (hlive handle h hh).2
      obtain ⟨partition, hp, hfind⟩ := namespace?_eq_some.mp hn
      have hw : h.readonly = false := by
        cases hr : h.readonly with
        | false => rfl
        | true => simp [Store.set, hh, hr] at hok
      have hkey : isValidNvsName key = true := by
        cases hk : isValidNvsName key with
        | true => rfl
        | false => simp [Store.set, hh, hw, hk] at hok
      rw [set_spec hh hw hp hfind hkey] at hok ⊢
      split at hok
      · rename_i hroom
        rw [if_pos hroom]
        apply hs.grow hp hfind
        have hinsert := usedEntries_insert nameSpace (key.getD []) value
        rw [Store.oldCount, hn] at hroom
        simp only [Option.bind_some] at hroom
        omega
      · cases hok
  · rwa [set_failed hlive key value hok]

private theorem within_openNamespace (hs : s.storage.Within) (partName name : Option Bytes)
    (readonly outHandle : Bool) :
    (s.openNamespace partName name readonly outHandle).2.2.storage.Within := by
  unfold Store.openNamespace
  split
  · exact hs
  · exact hs
  split
  · exact hs
  split
  · exact hs
  split
  · exact hs
  rename_i part hpart
  split
  · exact hs
  split
  · exact hs
  rename_i hnone
  split
  · exact hs
  split
  · exact hs
  rename_i hroom
  apply hs.modifyNamespace hpart
  have hmake := usedEntries_make hnone
  unfold PartitionStorage.Within PartitionStorage.availableEntries at *
  dsimp only at *
  omega

private theorem within_open (hlive : HandlesLive s) (hs : s.storage.Within)
    (hh : s.handles handle = some h) {op : Op} (hop : op.handle = some handle)
    (hstep : step s op = some s') : s'.storage.Within := by
  obtain ⟨nameSpace, hn⟩ := Option.isSome_iff_exists.mp (hlive handle h hh).2
  obtain ⟨partition, hp, hfind⟩ := namespace?_eq_some.mp hn
  have haccess := access_of_live hn
  have hshrink : ∀ f : NamespaceStorage → NamespaceStorage,
      (f nameSpace).usedEntries ≤ nameSpace.usedEntries →
      (s.storage.modifyNamespace h.partitionName h.nsName f).Within := by
    intro f hf
    apply hs.grow hp hfind
    omega
  cases op <;> cases hop
  case set key value =>
    cases hstep
    exact within_set hlive hs key value
  case eraseKey key =>
    cases hstep
    simp only [Store.eraseKey, hh, haccess]
    split
    · exact hs
    split
    · exact hs
    · exact hshrink _ (usedEntries_erase nameSpace _)
  case eraseAll =>
    cases hstep
    simp only [Store.eraseAll, hh]
    split
    · exact hs
    · exact hshrink _ (Nat.zero_le _)
  case commit =>
    rw [step, commit_of_live hh hn] at hstep
    cases hstep
    exact hs
  -- the others only look the namespace up
  case close => cases hstep; exact hs
  case get key type =>
    cases hstep
    simp only [Store.get, hh, haccess]
    split
    · exact hs
    · split <;> exact hs
  case findKey key =>
    cases hstep
    simp only [Store.findKey, hh, haccess]
    split
    · exact hs
    · split <;> exact hs
  case getUsedEntryCount =>
    cases hstep
    simp only [Store.getUsedEntryCount, hh, haccess]
    exact hs

private theorem within_init (hs : s.storage.Within) (name : Bytes) (partitionSize : UInt64)
    (hroom : Roomy s (.init (some name) partitionSize)) :
    (s.init (some name) partitionSize).2.storage.Within := by
  apply hs.modifyPartition
  cases hp : s.storage.partitions.find name with
  | none =>
    split <;> exact Nat.zero_le _
  | some partition =>
    have hwithin := hs name partition hp
    split
    · rename_i hsize
      have hle := UInt64.le_iff_toNat_le.mp (hroom hsize partition hp)
      unfold PartitionStorage.Within at hwithin ⊢
      simp only [Option.getD_some]
      exact hwithin.trans (Nat.sub_le_sub_right hle _)
    · exact hwithin

theorem within_step {op : Op} (hroom : Roomy s op) (hreached : Reached s)
    (hs : s.storage.Within) (hstep : step s op = some s') : s'.storage.Within := by
  cases hop : op.handle with
  | some handle =>
    cases hh : s.handles handle with
    | none => rwa [(step_of_closed hop hh hstep).1]
    | some h => exact within_open hreached.live hs hh hop hstep
  | none =>
    cases op with
    | init partitionName partitionSize =>
      cases hstep
      cases partitionName with
      | none => exact hs
      | some name => exact within_init hs name partitionSize hroom
    | deinit partitionName =>
      cases hstep
      unfold Store.deinit
      split
      · exact hs
      · split <;> exact hs
    | erasePartition partitionName =>
      cases hstep
      unfold Store.erasePartition
      split
      · exact hs
      split
      · split
        · rename_i hinit
          simp only [Store.deinit, hinit, if_true]
          exact NvsStorage.Within.modifyPartition hs (within_empty _)
        · exact NvsStorage.Within.modifyPartition hs (within_empty _)
      · exact hs
    | openNamespace partName name readonly outHandle =>
      cases hstep
      exact within_openNamespace hs partName name readonly outHandle
    | restart =>
      obtain ⟨d, hd⟩ := hreached.durable
      rw [step, construct_of_load hd.loads] at hstep
      cases hstep
      exact hroom
    | _ => cases hop

/-- From a storage within capacity, and while `init` shrinks no partition and a restart
finds such a storage, the entries in use never reach the reserved page; a `set` fails on
exactly the net growth that `getStats` has no entries for, and what fails changes nothing. -/
theorem capacity_contract {file : Option Bytes} {s₀ s : Store} {ops : List Op}
    (h : Store.construct file = .ok s₀) (hwithin : s₀.storage.Within)
    (hroom : Meets step Roomy s₀ ops) (hr : run step s₀ ops = some s) :
    (∀ p partition, s.storage.partitions.find p = some partition →
      partition.usedEntries ≤ partition.totalEntries.toNat - kNvsEntriesPerPage) ∧
    (∀ handle h key value, s.handles handle = some h → h.readonly = false →
      isValidNvsName key = true → ∃ stats, s.getStats (some h.partitionName) = .ok stats ∧
        stats.usedEntries ≤ stats.totalEntries - kNvsEntriesPerPage ∧
        ((s.set handle key value).1 = .ok ↔
          entryCount value ≤ s.oldCount h (key.getD []) + stats.availableEntries) ∧
        ((s.set handle key value).1 = .ok → ∃ stats',
          (s.set handle key value).2.getStats (some h.partitionName) = .ok stats' ∧
          stats'.usedEntries + s.oldCount h (key.getD []) =
            stats.usedEntries + entryCount value)) ∧
    (∀ handle key value, (s.set handle key value).1 ≠ .ok → (s.set handle key value).2 = s) ∧
    ∀ partName name readonly outHandle,
      (s.openNamespace partName name readonly outHandle).1 ≠ .ok →
        (s.openNamespace partName name readonly outHandle).2.2 = s := by
  have hkeep : PreservesWhen step Roomy fun s => Reached s ∧ s.storage.Within :=
    fun s op s' hroom hstep hs =>
      ⟨reached_step hstep hs.1, within_step hroom hs.1 hs.2 hstep⟩
  obtain ⟨hs, hstorage⟩ := hkeep.run hroom hr ⟨reached_construct h, hwithin⟩
  refine ⟨hstorage, fun handle h key value hh hw hkey => ?_,
    fun handle key value => set_failed hs.live key value, fun _ _ _ _ => openNamespace_failed _ _ _ _⟩
  obtain ⟨hinit, hexists⟩ := hs.live handle h hh
  obtain ⟨nameSpace, hn⟩ := Option.isSome_iff_exists.mp hexists
  obtain ⟨partition, hp, hfind⟩ := namespace?_eq_some.mp hn
  obtain ⟨stats, hstats, hused, havailable, htotal⟩ := getStats_spec hp hinit
  have hset := set_spec hh hw hp hfind hkey value
  refine ⟨stats, hstats, ?_, ?_, fun hok => ?_⟩
  · rw [hused, htotal]
    exact hstorage _ _ hp
  · rw [hset, havailable]
    split <;> simp [*]
  · rw [hset] at hok ⊢
    split at hok
    · rename_i hgrowth
      rw [if_pos hgrowth]
      have hp' : (s.storage.modifyNamespace h.partitionName h.nsName fun nameSpace =>
          ⟨nameSpace.entries.insert (key.getD []) value⟩).partitions.find h.partitionName =
          some { partition with
            nameSpaces := partition.nameSpaces.modify h.nsName {} fun nameSpace =>
              ⟨nameSpace.entries.insert (key.getD []) value⟩ } := by
        simp [NvsStorage.modifyNamespace, NvsStorage.modifyPartition, hp]
      obtain ⟨stats', hstats', hused', -⟩ := @getStats_spec { s with storage := _ } _ _ hp' hinit
      refine ⟨stats', hstats', ?_⟩
      have hmodify := usedEntries_modify hfind fun nameSpace =>
        ⟨nameSpace.entries.insert (key.getD []) value⟩
      have hinsert := usedEntries_insert nameSpace (key.getD []) value
      rw [hused', hused, Store.oldCount, hn]
      simp only [Option.bind_some]
      omega
    · cases hok

/-- A partition of two pages, and a namespace in it. -/
def twoPages : List Op :=
  [.init (some (text "nvs")) 8192,
    .openNamespace (some (text "nvs")) (some (text "wifi")) false true]

def networkName : EntryValue := .str (text "a network with a rather long name")

/-- A string of 34 bytes with its terminator takes three entries. -/
theorem capacity_contract_twoPages : ∃ s stats stats', run step Store.created twoPages = some s ∧
    s.getStats (some (text "nvs")) = .ok stats ∧
    (s.set 0 (some (text "ssid")) networkName).1 = .ok ∧
    (s.set 0 (some (text "ssid")) networkName).2.getStats (some (text "nvs")) = .ok stats' ∧
    stats'.usedEntries = stats.usedEntries + 3 ∧
    stats.usedEntries ≤ stats.totalEntries - kNvsEntriesPerPage := by
  obtain ⟨-, hset, -⟩ := @capacity_contract none _ _ twoPages rfl
    (fun _ partition h => by cases h)
    ⟨fun _ partition h => (by cases h), fun _ _ => .cons trivial rfl trivial⟩ rfl
  obtain ⟨stats, hstats, hused, -, htaken⟩ :=
    hset 0 _ (some (text "ssid")) networkName rfl rfl (by decide)
  obtain ⟨stats', hstats', hgrowth⟩ := htaken rfl
  exact ⟨_, stats, stats', rfl, hstats, rfl, hstats', hgrowth, hused⟩

end Runs

end RooTesting.Nvs
