import RooTesting.NvsStore
import RooTesting.NvsRoundTrip

/-! # What survives a restart

The file always parses back to the committed storage, and a namespace's committed content
is its live content at its last commit. Open handles name namespaces that exist, so no
commit throws. -/
namespace RooTesting.Nvs
open OrderedMaps Transition

/-- The contents of the namespaces by partition and name. -/
abbrev Contents := Bytes → Bytes → Option NamespaceStorage

/-- What the operation makes of the contents at the last commits: a commit records the
live content of its handle's namespace, and erasing a partition forgets its namespaces. -/
def record (s : Store) (op : Op) (d : Contents) : Contents :=
  match op with
  | .commit handle =>
    match s.handles handle with
    | none => d
    | some h => fun p n =>
      if p = h.partitionName ∧ n = h.nsName then s.storage.namespace? p n else d p n
  | .erasePartition (some name) =>
    if s.storage.hasPartition name then fun p n => if p = name then none else d p n else d
  | _ => d

/-- A run with the contents at the last commits. -/
def recordedStep (c : Store × Contents) (op : Op) : Option (Store × Contents) :=
  (step c.1 op).map fun s => (s, record c.1 op c.2)

/-- Every handle is on an initialized partition and a namespace that exists. -/
def HandlesLive (s : Store) : Prop :=
  ∀ id h, s.handles id = some h →
    s.initialized h.partitionName = true ∧
      (s.storage.namespace? h.partitionName h.nsName).isSome = true

section Namespaces

variable (s : NvsStorage)

theorem namespace?_modifyPartition (p q n : Bytes) (f : PartitionStorage → PartitionStorage) :
    (s.modifyPartition p f).namespace? q n =
      if q = p then (f ((s.partitions.find p).getD {})).nameSpaces.find n
      else s.namespace? q n := by
  unfold NvsStorage.namespace? NvsStorage.modifyPartition
  rw [OrderedMap.find_modify]
  split <;> rfl

/-- A partition that keeps its namespaces. -/
theorem namespace?_keep (p q n : Bytes) {f : PartitionStorage → PartitionStorage}
    (hf : ∀ partition, (f partition).nameSpaces = partition.nameSpaces) :
    (s.modifyPartition p f).namespace? q n = s.namespace? q n := by
  rw [namespace?_modifyPartition, hf]
  split
  · subst q
    unfold NvsStorage.namespace?
    cases s.partitions.find p <;> rfl
  · rfl

theorem namespace?_modifyNamespace (p n q m : Bytes) (f : NamespaceStorage → NamespaceStorage) :
    (s.modifyNamespace p n f).namespace? q m =
      if q = p ∧ m = n then some (f ((s.namespace? p n).getD {})) else s.namespace? q m := by
  rw [NvsStorage.modifyNamespace, namespace?_modifyPartition]
  by_cases hq : q = p
  · subst hq
    have hfind : ∀ k, ((s.partitions.find q).getD {}).nameSpaces.find k = s.namespace? q k := by
      intro k
      unfold NvsStorage.namespace?
      cases s.partitions.find q <;> rfl
    simp [hfind]
  · simp [hq]

theorem isSome_modifyNamespace {p n q m : Bytes} {f : NamespaceStorage → NamespaceStorage}
    (h : (s.namespace? q m).isSome = true) :
    ((s.modifyNamespace p n f).namespace? q m).isSome = true := by
  rw [namespace?_modifyNamespace]
  split
  · rfl
  · exact h

end Namespaces

section Steps

variable {s s' : Store}

/-- Handles may be closed and namespaces made or changed; the committed storage and the
file stay. -/
structure Quiet (s s' : Store) : Prop where
  handles : ∀ id h, s'.handles id = some h →
    s.handles id = some h ∧ (s.initialized h.partitionName = true →
      s'.initialized h.partitionName = true)
  namespaces : ∀ p n, (s.storage.namespace? p n).isSome = true →
    (s'.storage.namespace? p n).isSome = true
  committed : s'.committed = s.committed
  file : s'.file = s.file

theorem Quiet.refl (s : Store) : Quiet s s :=
  ⟨fun _ _ h => ⟨h, id⟩, fun _ _ h => h, rfl, rfl⟩

theorem Quiet.live (h : Quiet s s') (hs : HandlesLive s) : HandlesLive s' := by
  intro id handle hid
  obtain ⟨hbefore, hinit⟩ := h.handles id handle hid
  obtain ⟨hinitialized, hexists⟩ := hs id handle hbefore
  exact ⟨hinit hinitialized, h.namespaces _ _ hexists⟩

theorem quiet_modifyNamespace (s : Store) (p n : Bytes) (f : NamespaceStorage → NamespaceStorage) :
    Quiet s { s with storage := s.storage.modifyNamespace p n f } :=
  ⟨fun _ _ h => ⟨h, id⟩, fun _ _ h => isSome_modifyNamespace _ h, rfl, rfl⟩

theorem Quiet.trans {s₁ s₂ s₃ : Store} (h : Quiet s₁ s₂) (h' : Quiet s₂ s₃) : Quiet s₁ s₃ := by
  refine ⟨fun id handle hid => ?_, fun p n hn => h'.namespaces p n (h.namespaces p n hn),
    h'.committed.trans h.committed, h'.file.trans h.file⟩
  obtain ⟨h₂, hi₂⟩ := h'.handles id handle hid
  obtain ⟨h₁, hi₁⟩ := h.handles id handle h₂
  exact ⟨h₁, hi₂ ∘ hi₁⟩

theorem quiet_set (handle : ℕ) (key : Option Bytes) (value : EntryValue) :
    Quiet s (s.set handle key value).2 := by
  unfold Store.set
  split
  · exact .refl s
  split
  · exact .refl s
  split
  · exact .refl s
  dsimp only [Store.access]
  split
  · exact quiet_modifyNamespace s ..
  · exact (quiet_modifyNamespace s ..).trans (quiet_modifyNamespace _ ..)

theorem quiet_get (handle : ℕ) (key : Option Bytes) (expectedType : NvsType) :
    Quiet s (s.get handle key expectedType).2 := by
  unfold Store.get
  split
  · exact .refl s
  split
  · exact .refl s
  dsimp only [Store.access]
  split <;> exact quiet_modifyNamespace s ..

theorem quiet_findKey (handle : ℕ) (key : Option Bytes) : Quiet s (s.findKey handle key).2 := by
  unfold Store.findKey
  split
  · exact .refl s
  split
  · exact .refl s
  dsimp only [Store.access]
  split <;> exact quiet_modifyNamespace s ..

theorem quiet_eraseKey (handle : ℕ) (key : Option Bytes) :
    Quiet s (s.eraseKey handle key).2 := by
  unfold Store.eraseKey
  split
  · exact .refl s
  split
  · exact .refl s
  split
  · exact .refl s
  · exact (quiet_modifyNamespace s ..).trans (quiet_modifyNamespace _ ..)

theorem quiet_eraseAll (handle : ℕ) : Quiet s (s.eraseAll handle).2 := by
  unfold Store.eraseAll
  split
  · exact .refl s
  split
  · exact .refl s
  · exact quiet_modifyNamespace s ..

theorem quiet_getUsedEntryCount (handle : ℕ) : Quiet s (s.getUsedEntryCount handle).2 := by
  unfold Store.getUsedEntryCount
  split
  · exact .refl s
  · exact quiet_modifyNamespace s ..

theorem quiet_close (handle : ℕ) : Quiet s (s.close handle) := by
  refine ⟨fun i h hid => ?_, fun _ _ h => h, rfl, rfl⟩
  simp only [Store.close, Function.update_apply] at hid
  split at hid
  · cases hid
  · exact ⟨hid, id⟩

theorem closePartition_eq_some {name : Bytes} {id : ℕ} {h : Handle}
    (hid : (s.closePartition name).handles id = some h) :
    s.handles id = some h ∧ h.partitionName ≠ name := by
  simpa [Store.closePartition, Option.filter_eq_some_iff] using hid

theorem quiet_deinit (partitionName : Option Bytes) : Quiet s (s.deinit partitionName).2 := by
  unfold Store.deinit
  split
  · exact .refl s
  split
  · refine ⟨fun id h hid => ?_, fun _ _ h => h, rfl, rfl⟩
    obtain ⟨hid, hne⟩ := closePartition_eq_some hid
    refine ⟨hid, fun hinit => ?_⟩
    simpa [Store.closePartition, Function.update_of_ne hne] using hinit
  · exact .refl s

theorem live_addHandle {h : Handle} (hs : HandlesLive s)
    (hinit : s.initialized h.partitionName = true)
    (hexists : (s.storage.namespace? h.partitionName h.nsName).isSome = true) :
    HandlesLive (s.addHandle h).2.2 := by
  intro id h' hid
  simp only [Store.addHandle, Function.update_apply] at hid
  split at hid
  · cases hid
    exact ⟨hinit, hexists⟩
  · exact hs id h' hid

/-- Opening changes the live storage and the handles only. -/
theorem openNamespace_spec (hs : HandlesLive s) (partName name : Option Bytes)
    (readonly outHandle : Bool) :
    HandlesLive (s.openNamespace partName name readonly outHandle).2.2 ∧
      (s.openNamespace partName name readonly outHandle).2.2.committed = s.committed ∧
      (s.openNamespace partName name readonly outHandle).2.2.file = s.file := by
  unfold Store.openNamespace
  split
  · exact ⟨hs, rfl, rfl⟩
  · exact ⟨hs, rfl, rfl⟩
  split
  · exact ⟨hs, rfl, rfl⟩
  split
  · exact ⟨hs, rfl, rfl⟩
  split
  · exact ⟨hs, rfl, rfl⟩
  rename_i part hpart
  split
  · exact ⟨hs, rfl, rfl⟩
  rename_i hinit
  simp only [Bool.not_eq_true', Bool.not_eq_false] at hinit
  split
  · rename_i nameSpace hname
    exact ⟨live_addHandle hs hinit (by simp [NvsStorage.namespace?, hpart, hname]), rfl, rfl⟩
  split
  · exact ⟨hs, rfl, rfl⟩
  split
  · exact ⟨hs, rfl, rfl⟩
  · refine ⟨live_addHandle ((quiet_modifyNamespace s ..).live hs) hinit ?_, rfl, rfl⟩
    simp [namespace?_modifyNamespace]

theorem init_spec (hs : HandlesLive s) (name : Bytes) (partitionSize : UInt64) :
    HandlesLive (s.init (some name) partitionSize).2 ∧
      (s.init (some name) partitionSize).2.committed.namespace? = s.committed.namespace? ∧
      (s.init (some name) partitionSize).2.file =
        writeStorage 0 (s.init (some name) partitionSize).2.committed := by
  refine ⟨fun id h hid => ?_, ?_, rfl⟩
  · obtain ⟨hinit, hexists⟩ := hs id h hid
    refine ⟨?_, ?_⟩
    · simp only [Store.init, Store.save, Function.update_apply]
      split
      · rfl
      · exact hinit
    · refine (congrArg Option.isSome (namespace?_keep _ _ _ _ fun partition => ?_)).trans hexists
      split <;> rfl
  · funext p n
    refine namespace?_keep _ _ _ _ fun partition => ?_
    split <;> rfl

/-- What is left when the handles on a partition have been closed. -/
structure Closed (s : Store) (name : Bytes) (s' : Store) : Prop where
  handles : ∀ id h, s'.handles id = some h → s.handles id = some h ∧ h.partitionName ≠ name ∧
    (s.initialized h.partitionName = true → s'.initialized h.partitionName = true)
  storage : s'.storage = s.storage
  committed : s'.committed = s.committed

theorem closed_closePartition (name : Bytes) : Closed s name (s.closePartition name) := by
  refine ⟨fun i h hid => ?_, rfl, rfl⟩
  obtain ⟨hid, hne⟩ := closePartition_eq_some hid
  exact ⟨hid, hne, id⟩

theorem closed_deinit {name : Bytes} (h : s.initialized name = true) :
    Closed s name (s.deinit (some name)).2 := by
  rw [Store.deinit, if_pos h]
  refine ⟨fun i h hid => ?_, rfl, rfl⟩
  obtain ⟨hid, hne⟩ := closePartition_eq_some hid
  refine ⟨hid, hne, fun hinit => ?_⟩
  simpa [Store.closePartition, Function.update_of_ne hne] using hinit

/-- Erasing a partition closes its handles and clears both copies of its namespaces. -/
theorem erasePartition_spec (hs : HandlesLive s) {name : Bytes}
    (h : s.storage.hasPartition name = true) :
    HandlesLive (s.erasePartition (some name)).2 ∧
      (∀ p n, (s.erasePartition (some name)).2.committed.namespace? p n =
        if p = name then none else s.committed.namespace? p n) ∧
      (s.erasePartition (some name)).2.file =
        writeStorage 0 (s.erasePartition (some name)).2.committed := by
  obtain ⟨s₁, hclosed, herase⟩ : ∃ s₁, Closed s name s₁ ∧
      (s.erasePartition (some name)).2 = ({ s₁ with
        storage := s₁.storage.modifyPartition name fun partition =>
          { partition with nameSpaces := .empty }
        committed := s₁.committed.modifyPartition name fun partition =>
          { partition with nameSpaces := .empty } } : Store).save := by
    rw [Store.erasePartition]
    dsimp only
    rw [if_pos h]
    split
    · rename_i hinit
      exact ⟨_, closed_deinit hinit, rfl⟩
    · exact ⟨_, closed_closePartition name, rfl⟩
  rw [herase]
  refine ⟨fun id handle hid => ?_, fun p n => ?_, rfl⟩
  · obtain ⟨hbefore, hne, hinit⟩ := hclosed.handles id handle hid
    obtain ⟨hinitialized, hexists⟩ := hs id handle hbefore
    refine ⟨hinit hinitialized, ?_⟩
    have hkeep := namespace?_modifyPartition s₁.storage name handle.partitionName handle.nsName
      fun partition => { partition with nameSpaces := .empty }
    rw [if_neg hne, hclosed.storage] at hkeep
    show ((s₁.storage.modifyPartition name _).namespace? _ _).isSome = true
    rw [hclosed.storage]
    exact (congrArg Option.isSome hkeep).trans hexists
  · refine (namespace?_modifyPartition _ _ _ _ _).trans ?_
    rw [hclosed.committed]
    split <;> rfl

/-- A commit copies the namespace of its handle, and that namespace only. -/
theorem commit_spec (hs : HandlesLive s) {handle : ℕ} {h : Handle}
    (hh : s.handles handle = some h) :
    ∃ s', s.commit handle = some (.ok, s') ∧ s'.handles = s.handles ∧
      s'.initialized = s.initialized ∧ s'.storage.namespace? = s.storage.namespace? ∧
      (∀ p n, s'.committed.namespace? p n =
        if p = h.partitionName ∧ n = h.nsName then s.storage.namespace? p n
        else s.committed.namespace? p n) ∧
      s'.file = writeStorage 0 s'.committed := by
  have htouch : (s.storage.modifyPartition h.partitionName id).namespace? =
      s.storage.namespace? := by
    funext p n
    exact namespace?_keep _ _ _ _ fun _ => rfl
  obtain ⟨nameSpace, hname⟩ := Option.isSome_iff_exists.mp (hs handle h hh).2
  rw [Store.commit, hh]
  simp only [htouch, hname]
  refine ⟨_, rfl, rfl, rfl, htouch, fun p n => ?_, rfl⟩
  refine (namespace?_modifyPartition _ _ _ _ _).trans ?_
  rw [OrderedMap.find_insert]
  by_cases hp : p = h.partitionName
  · subst hp
    by_cases hn : n = h.nsName
    · subst hn
      simp [hname]
    · simp only [hn, and_false, if_false, if_true]
      unfold NvsStorage.namespace?
      cases s.committed.partitions.find h.partitionName <;> rfl
  · simp [hp]

end Steps

section Runs

theorem load_writeStorage (storage : NvsStorage) : load (writeStorage 0 storage) = .ok storage := by
  obtain ⟨root, hparse, hload⟩ := storage_roundTrip storage
  simp only [load, hparse, ne_eq, not_true_eq_false, if_false, hload]

theorem construct_of_load {file : Bytes} {storage : NvsStorage} (h : load file = .ok storage) :
    Store.construct (some file) =
      .ok ⟨storage, storage, fun _ => false, fun _ => none, 0, file⟩ := by
  rw [Store.construct, h]
  rfl

/-- The file parses back to the committed storage, whose contents are the recorded ones. -/
structure Durable (c : Store × Contents) : Prop where
  live : HandlesLive c.1
  loads : load c.1.file = .ok c.1.committed
  contents : c.1.committed.namespace? = c.2

theorem Durable.of_quiet {s s' : Store} {d : Contents} (hs : Durable (s, d))
    (hlive : HandlesLive s') (hcommitted : s'.committed = s.committed) (hfile : s'.file = s.file) :
    Durable (s', d) :=
  ⟨hlive, by rw [hfile, hcommitted]; exact hs.loads, by rw [hcommitted]; exact hs.contents⟩

theorem Durable.of_save {s : Store} {d : Contents} (hlive : HandlesLive s)
    (hfile : s.file = writeStorage 0 s.committed) (hcontents : s.committed.namespace? = d) :
    Durable (s, d) :=
  ⟨hlive, by rw [hfile]; exact load_writeStorage _, hcontents⟩

theorem durable_construct {file : Option Bytes} {s : Store} (h : Store.construct file = .ok s) :
    Durable (s, s.committed.namespace?) := by
  cases file with
  | none =>
    cases h
    exact .of_save (fun _ _ h => nomatch h) rfl rfl
  | some file =>
    cases hload : load file with
    | error e =>
      rw [Store.construct, hload] at h
      cases h
    | ok storage =>
      rw [construct_of_load hload] at h
      cases h
      exact ⟨(fun _ _ h => nomatch h), hload, rfl⟩

/-- Every operation has a result, and the file and the record stay right. -/
theorem durable_step {s : Store} {d : Contents} (hs : Durable (s, d)) (op : Op) :
    ∃ s', step s op = some s' ∧ Durable (s', record s op d) := by
  have quiet : ∀ {s'}, Quiet s s' → Durable (s', d) := fun h =>
    hs.of_quiet (h.live hs.live) h.committed h.file
  cases op with
  | init partitionName partitionSize =>
    refine ⟨_, rfl, ?_⟩
    cases partitionName with
    | none => exact hs
    | some name =>
      obtain ⟨hlive, hcontents, hfile⟩ := init_spec hs.live name partitionSize
      exact .of_save hlive hfile (hcontents.trans hs.contents)
  | deinit partitionName => exact ⟨_, rfl, quiet (quiet_deinit partitionName)⟩
  | erasePartition partitionName =>
    refine ⟨_, rfl, ?_⟩
    cases partitionName with
    | none => exact hs
    | some name =>
      cases hpart : s.storage.hasPartition name with
      | false => simpa [Store.erasePartition, record, hpart] using hs
      | true =>
        obtain ⟨hlive, hcontents, hfile⟩ := erasePartition_spec hs.live hpart
        refine .of_save hlive hfile ?_
        funext p n
        rw [hcontents, hs.contents]
        simp [record, hpart]
  | openNamespace partName name readonly outHandle =>
    obtain ⟨hlive, hcommitted, hfile⟩ := openNamespace_spec hs.live partName name readonly outHandle
    exact ⟨_, rfl, hs.of_quiet hlive hcommitted hfile⟩
  | close handle => exact ⟨_, rfl, quiet (quiet_close handle)⟩
  | set handle key value => exact ⟨_, rfl, quiet (quiet_set handle key value)⟩
  | get handle key expectedType => exact ⟨_, rfl, quiet (quiet_get handle key expectedType)⟩
  | findKey handle key => exact ⟨_, rfl, quiet (quiet_findKey handle key)⟩
  | eraseKey handle key => exact ⟨_, rfl, quiet (quiet_eraseKey handle key)⟩
  | eraseAll handle => exact ⟨_, rfl, quiet (quiet_eraseAll handle)⟩
  | getUsedEntryCount handle => exact ⟨_, rfl, quiet (quiet_getUsedEntryCount handle)⟩
  | commit handle =>
    cases hh : s.handles handle with
    | none => exact ⟨s, by simp [step, Store.commit, hh], by simpa [record, hh] using hs⟩
    | some h =>
      obtain ⟨s', hcommit, hhandles, hinit, hstorage, hcontents, hfile⟩ := commit_spec hs.live hh
      refine ⟨s', by simp [step, hcommit], .of_save ?_ hfile ?_⟩
      · intro id h' hid
        rw [hhandles] at hid
        rw [hinit, hstorage]
        exact hs.live id h' hid
      · funext p n
        rw [hcontents, hs.contents]
        simp [record, hh]
  | restart =>
    refine ⟨_, by simp only [step, construct_of_load hs.loads]; rfl, ?_⟩
    exact ⟨(fun _ _ h => nomatch h), hs.loads, hs.contents⟩

/-- From any file that loads, or from none, every sequence of operations has a result; the
file then parses back to the committed storage, the committed content of every namespace is
what its last commit recorded, a restart finds exactly that in both copies, and a commit
changes its own handle's namespace only. -/
theorem nvs_durable {file : Option Bytes} {s₀ : Store} (h : Store.construct file = .ok s₀)
    (ops : List Op) :
    ∃ s d, run recordedStep (s₀, s₀.committed.namespace?) ops = some (s, d) ∧
      load s.file = .ok s.committed ∧ (∀ p n, s.committed.namespace? p n = d p n) ∧
      step s .restart = some ⟨s.committed, s.committed, fun _ => false, fun _ => none, 0, s.file⟩ ∧
      ∀ handle h, s.handles handle = some h → ∃ s', s.commit handle = some (.ok, s') ∧
        s'.committed.namespace? h.partitionName h.nsName =
          s.storage.namespace? h.partitionName h.nsName ∧
        ∀ p n, ¬(p = h.partitionName ∧ n = h.nsName) →
          s'.committed.namespace? p n = s.committed.namespace? p n := by
  have hrun : ∀ (ops : List Op) (c : Store × Contents), Durable c →
      ∃ c', run recordedStep c ops = some c' ∧ Durable c' := by
    intro ops
    induction ops with
    | nil => exact fun c hc => ⟨c, rfl, hc⟩
    | cons op ops ih =>
      intro c hc
      obtain ⟨s', hstep, hs'⟩ := durable_step hc op
      obtain ⟨c', hrun, hc'⟩ := ih _ hs'
      exact ⟨c', run_cons_eq_some.mpr ⟨_, by rw [recordedStep, hstep]; rfl, hrun⟩, hc'⟩
  obtain ⟨⟨s, d⟩, hrun, hs⟩ := hrun ops _ (durable_construct h)
  refine ⟨s, d, hrun, hs.loads, fun p n => congrFun (congrFun hs.contents p) n, ?_,
    fun handle h hh => ?_⟩
  · simp only [step, construct_of_load hs.loads]
    rfl
  · obtain ⟨s', hcommit, -, -, -, hcontents, -⟩ := commit_spec hs.live hh
    refine ⟨s', hcommit, ?_, fun p n hne => ?_⟩
    · rw [hcontents, if_pos ⟨rfl, rfl⟩]
    · rw [hcontents, if_neg hne]

end Runs

section Instances

/-- A key is set, committed, and set again. -/
def uncommittedChange : List Op :=
  [.init (some (text "nvs")) 0, .openNamespace (some (text "nvs")) (some (text "wifi")) false true,
    .set 0 (some (text "channel")) (.uint .w8 5), .commit 0,
    .set 0 (some (text "channel")) (.uint .w8 6)]

def storedChannel (storage : NvsStorage) : Option EntryValue :=
  (storage.namespace? (text "nvs") (text "wifi")).bind fun nameSpace =>
    nameSpace.entries.find (text "channel")

theorem nvs_durable_uncommittedChange : ∃ s d, Store.construct none = .ok Store.created ∧
    run recordedStep (Store.created, fun _ _ => none) uncommittedChange = some (s, d) ∧
    load s.file = .ok s.committed ∧ storedChannel s.committed = some (.uint .w8 5) ∧
    storedChannel s.storage = some (.uint .w8 6) := by
  obtain ⟨s, d, hrun, hload, -⟩ := @nvs_durable none _ rfl uncommittedChange
  have hvalues : (run recordedStep (Store.created, fun _ _ => none) uncommittedChange).map (fun c =>
      (storedChannel c.1.committed, storedChannel c.1.storage)) =
        some (some (.uint .w8 5), some (.uint .w8 6)) := rfl
  replace hrun : run recordedStep (Store.created, fun _ _ => none) uncommittedChange = some (s, d) :=
    hrun
  rw [hrun, Option.map_some, Option.some.injEq, Prod.mk.injEq] at hvalues
  exact ⟨s, d, rfl, hrun, hload, hvalues⟩

end Instances

end RooTesting.Nvs
