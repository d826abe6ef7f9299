import RooTesting.NvsDurability

/-! # Values of the NVS

What a read finds under a key is what was written there last, through whichever handle, unless it
has been erased since. A restart goes back to what was there at the last commit of the namespace. -/
namespace RooTesting.Nvs
open OrderedMaps Transition

def NvsStorage.value (s : NvsStorage) (p n key : Bytes) : Option EntryValue :=
  (s.namespace? p n).bind fun nameSpace => nameSpace.entries.find key

/-- The value under one key of a namespace, and the one that a restart goes back to. -/
structure Cell where
  live : Option EntryValue
  saved : Option EntryValue

/-- The handle is open, and on the namespace. -/
def Store.opens (s : Store) (handle : ℕ) (p n : Bytes) : Bool :=
  (s.handles handle).any fun h => h.partitionName = p && h.nsName = n

/-- What an operation makes of a cell, by its arguments and its answer. -/
def Cell.after (p n key : Bytes) (s : Store) (c : Cell) : Op → Cell
  | .set handle k value =>
    if s.opens handle p n ∧ k = some key ∧ (s.set handle k value).1 = .ok then
      { c with live := some value }
    else c
  | .eraseKey handle k =>
    if s.opens handle p n ∧ k = some key ∧ (s.eraseKey handle k).1 = .ok then
      { c with live := none }
    else c
  | .eraseAll handle =>
    if s.opens handle p n ∧ (s.eraseAll handle).1 = .ok then { c with live := none } else c
  | .erasePartition name =>
    if name = some p ∧ (s.erasePartition name).1 = .ok then ⟨none, none⟩ else c
  | .commit handle => if s.opens handle p n then { c with saved := c.live } else c
  | .restart => { c with live := c.saved }
  | .init _ _ | .deinit _ | .openNamespace _ _ _ _ | .close _ | .get _ _ _ | .findKey _ _
  | .getUsedEntryCount _ => c

/-- A run beside the cell of one key. -/
def cellStep (p n key : Bytes) (x : Store × Cell) (op : Op) : Option (Store × Cell) :=
  (step x.1 op).map fun s => (s, x.2.after p n key x.1 op)

section Values

variable {s s' : Store} {p n key : Bytes}

theorem find_getD (o : Option NamespaceStorage) :
    (o.getD {}).entries.find key = o.bind fun nameSpace => nameSpace.entries.find key := by
  cases o <;> rfl

theorem value_modifyNamespace (t : NvsStorage) (q m : Bytes)
    (f : NamespaceStorage → NamespaceStorage) :
    (t.modifyNamespace q m f).value p n key =
      if p = q ∧ n = m then (f ((t.namespace? q m).getD {})).entries.find key
      else t.value p n key := by
  rw [NvsStorage.value, namespace?_modifyNamespace]
  split
  · rfl
  · rfl

/-- A namespace that is looked up, and made when there is none. -/
theorem value_touch (t : NvsStorage) (q m : Bytes) :
    (t.modifyNamespace q m id).value p n key = t.value p n key := by
  rw [value_modifyNamespace]
  split
  · rename_i heq
    rw [id, find_getD, heq.1, heq.2]
    rfl
  · rfl

theorem value_access (h : Handle) :
    (s.access h).1.storage.value p n key = s.storage.value p n key :=
  value_touch _ _ _

theorem opens_iff {handle : ℕ} {h : Handle} (hh : s.handles handle = some h) :
    s.opens handle p n = true ↔ p = h.partitionName ∧ n = h.nsName := by
  rw [Store.opens, hh, Option.any_some, Bool.and_eq_true, decide_eq_true_iff, decide_eq_true_iff]
  exact ⟨fun ⟨hp, hn⟩ => ⟨hp.symm, hn.symm⟩, fun ⟨hp, hn⟩ => ⟨hp.symm, hn.symm⟩⟩

theorem not_opens {handle : ℕ} (hh : s.handles handle = none) : s.opens handle p n = false := by
  rw [Store.opens, hh]
  rfl

/-- A lookup, and a change under one key of the namespace. -/
theorem value_alter (h : Handle) (k : Bytes) (f : Option EntryValue → Option EntryValue) :
    ((s.access h).1.storage.modifyNamespace h.partitionName h.nsName
      fun nameSpace => ⟨nameSpace.entries.alter k f⟩).value p n key =
      if (p = h.partitionName ∧ n = h.nsName) ∧ k = key then f (s.storage.value p n key)
      else s.storage.value p n key := by
  have haccess : (s.access h).1.storage.value p n key = s.storage.value p n key := value_access h
  rw [value_modifyNamespace]
  by_cases hat : p = h.partitionName ∧ n = h.nsName
  · obtain ⟨rfl, rfl⟩ := hat
    rw [NvsStorage.value, ← find_getD] at haccess
    rw [if_pos ⟨rfl, rfl⟩, OrderedMap.find_alter]
    by_cases hk : k = key
    · rw [if_pos hk.symm, if_pos ⟨⟨rfl, rfl⟩, hk⟩, hk, haccess]
    · rw [if_neg (Ne.symm hk), if_neg fun hboth => hk hboth.2, haccess]
  · rw [if_neg hat, if_neg fun hboth => hat hboth.1, haccess]

theorem value_set (handle : ℕ) (k : Option Bytes) (v : EntryValue) :
    (s.set handle k v).2.storage.value p n key =
      if s.opens handle p n ∧ k = some key ∧ (s.set handle k v).1 = .ok then some v
      else s.storage.value p n key := by
  cases hh : s.handles handle with
  | none => simp [Store.set, hh, not_opens hh]
  | some h =>
    cases k with
    | none =>
      rw [if_neg (fun hk => nomatch hk.2.1)]
      simp only [Store.set, hh, isValidNvsName]
      split <;> rfl
    | some k =>
      simp only [opens_iff hh]
      unfold Store.set
      simp only [hh]
      split
      · simp
      split
      · simp
      split
      · simp only [reduceCtorEq, and_false, if_false]
        exact value_access h
      · simp only [Option.some.injEq, and_true]
        exact value_alter h k _

theorem find_access {h : Handle} (hat : p = h.partitionName ∧ n = h.nsName) :
    (s.access h).2.entries.find key = s.storage.value p n key := by
  rw [Store.access, find_getD, NvsStorage.value, hat.1, hat.2]

theorem value_eraseKey (handle : ℕ) (k : Option Bytes) :
    (s.eraseKey handle k).2.storage.value p n key =
      if s.opens handle p n ∧ k = some key ∧ (s.eraseKey handle k).1 = .ok then none
      else s.storage.value p n key := by
  cases hh : s.handles handle with
  | none => simp [Store.eraseKey, hh, not_opens hh]
  | some h =>
    cases k with
    | none =>
      rw [if_neg (fun hk => nomatch hk.2.1)]
      simp only [Store.eraseKey, hh, isValidNvsName]
      split <;> rfl
    | some k =>
      simp only [opens_iff hh]
      unfold Store.eraseKey
      simp only [hh]
      split
      · simp
      split
      · simp
      refine (value_alter h k _).trans ?_
      simp only [Option.getD_some, Option.some.injEq, ← and_assoc]
      by_cases hat : (p = h.partitionName ∧ n = h.nsName) ∧ k = key
      · rw [if_pos hat, hat.2]
        simp only [find_access hat.1]
        cases s.storage.value p n key with
        | none => rw [ite_self]
        | some v => rw [if_pos ⟨⟨hat.1, trivial⟩, rfl⟩]
      · rw [if_neg hat, if_neg fun hboth => hat hboth.1]

theorem value_eraseAll (handle : ℕ) :
    (s.eraseAll handle).2.storage.value p n key =
      if s.opens handle p n ∧ (s.eraseAll handle).1 = .ok then none
      else s.storage.value p n key := by
  cases hh : s.handles handle with
  | none => simp [Store.eraseAll, hh, not_opens hh]
  | some h =>
    simp only [opens_iff hh]
    unfold Store.eraseAll
    simp only [hh]
    split
    · simp
    · simp only [value_modifyNamespace, and_true]
      rfl

theorem value_keep (t : NvsStorage) (q : Bytes) {f : PartitionStorage → PartitionStorage}
    (hf : ∀ partition, (f partition).nameSpaces = partition.nameSpaces) :
    (t.modifyPartition q f).value p n key = t.value p n key := by
  rw [NvsStorage.value, namespace?_keep t q p n hf]
  rfl

theorem value_init (name : Option Bytes) (size : UInt64) :
    (s.init name size).2.storage.value p n key = s.storage.value p n key := by
  cases name with
  | none => rfl
  | some name =>
    refine value_keep _ _ fun partition => ?_
    split <;> rfl

theorem storage_deinit (name : Option Bytes) : (s.deinit name).2.storage = s.storage := by
  cases name with
  | none => rfl
  | some name =>
    rw [Store.deinit]
    split <;> rfl

theorem value_erasePartition (name : Option Bytes) :
    (s.erasePartition name).2.storage.value p n key =
      if name = some p ∧ (s.erasePartition name).1 = .ok then none
      else s.storage.value p n key := by
  cases name with
  | none => rfl
  | some name =>
    unfold Store.erasePartition
    dsimp only
    split
    · have hstorage : (if s.initialized name = true then (s.deinit (some name)).2
          else s.closePartition name).storage = s.storage := by
        split
        · exact storage_deinit _
        · rfl
      simp only [Store.save, hstorage]
      rw [NvsStorage.value, namespace?_modifyPartition]
      by_cases hp : p = name
      · simp [hp]
      · simp only [if_neg hp, Option.some.injEq, and_true, if_neg (Ne.symm hp)]
        rfl
    · simp

theorem value_openNamespace (partName name : Option Bytes) (readonly outHandle : Bool) :
    (s.openNamespace partName name readonly outHandle).2.2.storage.value p n key =
      s.storage.value p n key := by
  unfold Store.openNamespace
  split
  · rfl
  · rfl
  split
  · rfl
  split
  · rfl
  split
  · rfl
  split
  · rfl
  split
  · rfl
  split
  · rfl
  split
  · rfl
  · exact value_touch _ _ _

theorem value_get (handle : ℕ) (k : Option Bytes) (type : NvsType) :
    (s.get handle k type).2.storage.value p n key = s.storage.value p n key := by
  unfold Store.get
  split
  · rfl
  split
  · rfl
  dsimp only
  split
  · exact value_access _
  · exact value_access _

theorem value_findKey (handle : ℕ) (k : Option Bytes) :
    (s.findKey handle k).2.storage.value p n key = s.storage.value p n key := by
  unfold Store.findKey
  split
  · rfl
  split
  · rfl
  dsimp only
  split
  · exact value_access _
  · exact value_access _

theorem value_getUsedEntryCount (handle : ℕ) :
    (s.getUsedEntryCount handle).2.storage.value p n key = s.storage.value p n key := by
  unfold Store.getUsedEntryCount
  split
  · rfl
  · exact value_access _

end Values

section Runs

variable {s s' : Store} {c : Cell} {p n key : Bytes}

/-- The cell is right, and so is the file. -/
structure Tracks (p n key : Bytes) (x : Store × Cell) : Prop where
  durable : Durable (x.1, x.1.committed.namespace?)
  live : x.1.storage.value p n key = x.2.live
  saved : x.1.committed.value p n key = x.2.saved

theorem tracks_construct {file : Option Bytes} (h : Store.construct file = .ok s) :
    Tracks p n key (s, ⟨s.storage.value p n key, s.storage.value p n key⟩) := by
  refine ⟨durable_construct h, rfl, ?_⟩
  cases file with
  | none =>
    cases h
    rfl
  | some file =>
    cases hload : load file with
    | error e =>
      rw [Store.construct, hload] at h
      cases h
    | ok storage =>
      rw [construct_of_load hload] at h
      cases h
      rfl

/-- The committed value after an operation, by what the operation records. -/
theorem saved_step (h : Durable (s, s.committed.namespace?)) {op : Op}
    (hstep : step s op = some s') :
    Durable (s', s'.committed.namespace?) ∧ s'.committed.value p n key =
      (record s op s.committed.namespace? p n).bind fun nameSpace => nameSpace.entries.find key := by
  obtain ⟨t, ht, hdurable⟩ := durable_step h op
  obtain rfl := Option.some.inj (ht.symm.trans hstep)
  have hcontents := hdurable.contents
  dsimp only at hcontents
  exact ⟨hcontents ▸ hdurable, by rw [NvsStorage.value, hcontents]⟩

theorem live_step (h : Tracks p n key (s, c)) {op : Op} (hstep : step s op = some s') :
    s'.storage.value p n key = (c.after p n key s op).live := by
  have hlive := h.live
  dsimp only at hlive
  cases op with
  | init name size =>
    obtain rfl := Option.some.inj hstep
    exact (value_init name size).trans hlive
  | deinit name =>
    obtain rfl := Option.some.inj hstep
    rw [storage_deinit]
    exact hlive
  | erasePartition name =>
    obtain rfl := Option.some.inj hstep
    rw [value_erasePartition, Cell.after]
    split
    · rfl
    · exact hlive
  | openNamespace partName name readonly outHandle =>
    obtain rfl := Option.some.inj hstep
    exact (value_openNamespace partName name readonly outHandle).trans hlive
  | close handle =>
    obtain rfl := Option.some.inj hstep
    exact hlive
  | set handle k v =>
    obtain rfl := Option.some.inj hstep
    rw [value_set, Cell.after]
    split
    · rfl
    · exact hlive
  | get handle k type =>
    obtain rfl := Option.some.inj hstep
    exact (value_get handle k type).trans hlive
  | findKey handle k =>
    obtain rfl := Option.some.inj hstep
    exact (value_findKey handle k).trans hlive
  | eraseKey handle k =>
    obtain rfl := Option.some.inj hstep
    rw [value_eraseKey, Cell.after]
    split
    · rfl
    · exact hlive
  | eraseAll handle =>
    obtain rfl := Option.some.inj hstep
    rw [value_eraseAll, Cell.after]
    split
    · rfl
    · exact hlive
  | getUsedEntryCount handle =>
    obtain rfl := Option.some.inj hstep
    exact (value_getUsedEntryCount handle).trans hlive
  | commit handle =>
    have hafter : (c.after p n key s (.commit handle)).live = c.live := by
      rw [Cell.after]
      split <;> rfl
    rw [hafter]
    cases hh : s.handles handle with
    | none =>
      rw [step, Store.commit, hh] at hstep
      obtain rfl := Option.some.inj hstep
      exact hlive
    | some handle' =>
      obtain ⟨t, hcommit, -, -, hstorage, -⟩ := commit_spec h.durable.live hh
      rw [step, hcommit] at hstep
      obtain rfl := Option.some.inj hstep
      rw [NvsStorage.value, hstorage]
      exact hlive
  | restart =>
    rw [step, construct_of_load h.durable.loads] at hstep
    obtain rfl := Option.some.inj hstep
    exact h.saved

theorem saved_after (h : Tracks p n key (s, c)) (op : Op) :
    ((record s op s.committed.namespace? p n).bind fun nameSpace => nameSpace.entries.find key) =
      (c.after p n key s op).saved := by
  have hsaved := h.saved
  dsimp only at hsaved
  cases op with
  | erasePartition name =>
    rw [Cell.after]
    cases name with
    | none => exact hsaved
    | some name =>
      rw [record, Store.erasePartition]
      dsimp only
      split
      · by_cases hp : p = name
        · simp [hp]
        · simp only [if_neg hp, Option.some.injEq, and_true, if_neg (Ne.symm hp)]
          exact hsaved
      · simp only [reduceCtorEq, and_false, if_false]
        exact hsaved
  | commit handle =>
    rw [Cell.after, record]
    cases hh : s.handles handle with
    | none =>
      rw [not_opens hh]
      exact hsaved
    | some handle' =>
      dsimp only
      by_cases hat : p = handle'.partitionName ∧ n = handle'.nsName
      · rw [if_pos hat, if_pos ((opens_iff hh).2 hat)]
        exact h.live
      · rw [if_neg hat, if_neg fun hopens => hat ((opens_iff hh).1 hopens)]
        exact hsaved
  | set handle k v =>
    rw [Cell.after]
    split <;> exact hsaved
  | eraseKey handle k =>
    rw [Cell.after]
    split <;> exact hsaved
  | eraseAll handle =>
    rw [Cell.after]
    split <;> exact hsaved
  | init name size => exact hsaved
  | deinit name => exact hsaved
  | openNamespace partName name readonly outHandle => exact hsaved
  | close handle => exact hsaved
  | get handle k type => exact hsaved
  | findKey handle k => exact hsaved
  | getUsedEntryCount handle => exact hsaved
  | restart => exact hsaved

theorem tracks_step : Preserves (cellStep p n key) (Tracks p n key) := by
  rintro ⟨s, c⟩ op ⟨s', c'⟩ hcell h
  obtain ⟨t, hstep, heq⟩ := Option.map_eq_some_iff.mp hcell
  obtain ⟨rfl, rfl⟩ := Prod.mk.inj heq
  obtain ⟨hdurable, hsaved⟩ := saved_step h.durable hstep
  exact ⟨hdurable, live_step h hstep, hsaved.trans (saved_after h op)⟩

/-- Every read through a handle answers by the cell of its key. -/
theorem reads_latest {file : Option Bytes} {s₀ : Store} (h : Store.construct file = .ok s₀)
    {ops : List Op}
    (hrun : run (cellStep p n key)
      (s₀, ⟨s₀.storage.value p n key, s₀.storage.value p n key⟩) ops = some (s, c))
    {handle : ℕ} (hopens : s.opens handle p n = true) (hkey : isValidNvsName (some key) = true) :
    (∀ type, (s.get handle (some key) type).1 =
      match c.live with
      | none => .error .notFound
      | some value => if value.type ≠ type then .error .typeMismatch else .ok value) ∧
      (s.findKey handle (some key)).1 =
        match c.live with
        | none => .error .notFound
        | some value => .ok value.type := by
  have htracks := tracks_step.run hrun (tracks_construct h)
  have hlive := htracks.live
  dsimp only at hlive
  obtain ⟨handle', hh⟩ : ∃ h, s.handles handle = some h := by
    cases hh : s.handles handle with
    | none =>
      rw [not_opens hh] at hopens
      exact nomatch hopens
    | some h => exact ⟨h, rfl⟩
  have hat := (opens_iff hh).1 hopens
  have hfind : (s.access handle').2.entries.find ((some key).getD []) = c.live :=
    (find_access hat).trans hlive
  constructor
  · intro type
    rw [Store.get, hh]
    dsimp only
    rw [if_neg (by rw [hkey]; exact nofun), hfind]
    cases c.live <;> rfl
  · rw [Store.findKey, hh]
    dsimp only
    rw [if_neg (by rw [hkey]; exact nofun), hfind]
    cases c.live <;> rfl

theorem value_eq_some {t : NvsStorage} {p n key : Bytes} {value : EntryValue} :
    t.value p n key = some value ↔ ∃ partition nameSpace, t.partitions.find p = some partition ∧
      (n, nameSpace) ∈ partition.nameSpaces.entries ∧ (key, value) ∈ nameSpace.entries.entries := by
  simp only [NvsStorage.value, NvsStorage.namespace?, Option.bind_eq_some_iff,
    OrderedMap.mem_entries]
  constructor
  · rintro ⟨nameSpace, ⟨partition, hpartition, hnamespace⟩, hvalue⟩
    exact ⟨partition, nameSpace, hpartition, hnamespace, hvalue⟩
  · rintro ⟨partition, nameSpace, hpartition, hnamespace, hvalue⟩
    exact ⟨nameSpace, ⟨partition, hpartition, hnamespace⟩, hvalue⟩

/-- A listing has an entry for each value of a namespace and a type that pass its filters. -/
theorem mem_listEntries {namespaceName : Option Bytes} {type : Option NvsType}
    {entries : List EntryInfo} (h : s.listEntries (some p) namespaceName type = .ok entries)
    (e : EntryInfo) : e ∈ entries ↔
      namespaceName.all (· = e.namespaceName) = true ∧ type.all (· = e.type) = true ∧
        ∃ value, s.storage.value p e.namespaceName e.key = some value ∧ value.type = e.type := by
  unfold Store.listEntries at h
  dsimp only at h
  cases hpartition : s.storage.partitions.find p with
  | none =>
    rw [hpartition] at h
    cases h
  | some partition =>
    rw [hpartition] at h
    dsimp only at h
    split at h
    · cases h
    obtain rfl := Except.ok.inj h
    simp only [List.mem_flatMap, List.mem_filter, List.mem_map, value_eq_some, hpartition,
      Option.some.injEq]
    constructor
    · rintro ⟨⟨n, nameSpace⟩, ⟨hn, hname⟩, ⟨key, value⟩, ⟨hkey, htype⟩, rfl⟩
      exact ⟨hname, htype, value, ⟨partition, nameSpace, rfl, hn, hkey⟩, rfl⟩
    · obtain ⟨n, key, type'⟩ := e
      rintro ⟨hname, htype, value, ⟨_, nameSpace, rfl, hn, hkey⟩, rfl⟩
      exact ⟨(n, nameSpace), ⟨hn, hname⟩, (key, value), ⟨hkey, htype⟩, rfl⟩

/-- What a listing names can be read, and the rest cannot. -/
theorem listEntries_read {handle : ℕ} (hopens : s.opens handle p n = true)
    (hkey : isValidNvsName (some key) = true) {entries : List EntryInfo}
    (h : s.listEntries (some p) (some n) none = .ok entries) (type : NvsType) :
    ⟨n, key, type⟩ ∈ entries ↔ ∃ value, (s.get handle (some key) type).1 = .ok value := by
  obtain ⟨handle', hh⟩ : ∃ h, s.handles handle = some h := by
    cases hh : s.handles handle with
    | none =>
      rw [not_opens hh] at hopens
      exact nomatch hopens
    | some h => exact ⟨h, rfl⟩
  have hfind : (s.access handle').2.entries.find ((some key).getD []) =
      s.storage.value p n key := find_access ((opens_iff hh).1 hopens)
  rw [mem_listEntries h, Store.get, hh]
  dsimp only
  rw [if_neg (by rw [hkey]; exact nofun), hfind]
  cases hvalue : s.storage.value p n key with
  | none => simp
  | some value => by_cases htype : value.type = type <;> simp [htype]

/-- A key is set through one handle, and again through another one. -/
def setTwice : List Op :=
  [.init (some (text "nvs")) 0, .openNamespace (some (text "nvs")) (some (text "wifi")) false true,
    .openNamespace (some (text "nvs")) (some (text "wifi")) false true,
    .set 0 (some (text "channel")) (.uint .w8 5), .set 1 (some (text "channel")) (.uint .w8 6),
    .eraseKey 0 (some (text "ssid"))]

theorem reads_latest_setTwice : ∃ s, run step Store.created setTwice = some s ∧
    (s.get 0 (some (text "channel")) .u8).1 = .ok (.uint .w8 6) ∧
    (s.get 0 (some (text "channel")) .u16).1 = .error .typeMismatch := by
  have hreads := (@reads_latest _ _ (text "nvs") (text "wifi") (text "channel") none _ rfl
    setTwice rfl 0 rfl rfl).1
  exact ⟨_, rfl, hreads .u8, hreads .u16⟩

end Runs

end RooTesting.Nvs
