import RooTesting.NvsDurability

/-! # Handles of the NVS

An open handle names a namespace that exists, so an operation through it finds that
namespace, makes none, and leaves every other one as it was. -/
namespace RooTesting.Nvs
open OrderedMaps Transition

/-- The number of entries of each partition that exists. -/
def NvsStorage.sizes (s : NvsStorage) (p : Bytes) : Option UInt64 :=
  (s.partitions.find p).map fun partition => partition.totalEntries

/-- Both copies have the same partitions, of the same sizes. -/
def Twin (s : Store) : Prop := s.storage.sizes = s.committed.sizes

def Op.handle : Op → Option ℕ
  | .close handle | .set handle _ _ | .get handle _ _ | .findKey handle _ => some handle
  | .eraseKey handle _ | .eraseAll handle | .getUsedEntryCount handle | .commit handle =>
    some handle
  | _ => none

/-- Every operation through the handle answers that it is invalid, and does nothing. -/
structure Rejected (s : Store) (handle : ℕ) : Prop where
  set : ∀ key value, s.set handle key value = (.invalidHandle, s)
  get : ∀ key type, s.get handle key type = (.error .invalidHandle, s)
  findKey : ∀ key, s.findKey handle key = (.error .invalidHandle, s)
  eraseKey : ∀ key, s.eraseKey handle key = (.invalidHandle, s)
  eraseAll : s.eraseAll handle = (.invalidHandle, s)
  purgeAll : s.purgeAll handle = .invalidHandle
  commit : s.commit handle = some (.invalidHandle, s)
  getUsedEntryCount : s.getUsedEntryCount handle = (.error .invalidHandle, s)

theorem rejected_of_none {s : Store} {handle : ℕ} (h : s.handles handle = none) :
    Rejected s handle := by
  constructor <;> intros
  all_goals
    simp [Store.set, Store.get, Store.findKey, Store.eraseKey, Store.eraseAll, Store.purgeAll,
      Store.commit, Store.getUsedEntryCount, h]

section Storages

variable {s : NvsStorage} {p n : Bytes} {nameSpace : NamespaceStorage}

/-- A namespace is in a partition. -/
theorem namespace?_eq_some : s.namespace? p n = some nameSpace ↔
    ∃ partition, s.partitions.find p = some partition ∧
      partition.nameSpaces.find n = some nameSpace := by
  simp [NvsStorage.namespace?, Option.bind_eq_some_iff]

theorem modifyPartition_eq_self {partition : PartitionStorage} (h : s.partitions.find p = some partition)
    {f : PartitionStorage → PartitionStorage} (hf : f partition = partition) :
    s.modifyPartition p f = s := by
  rw [NvsStorage.modifyPartition, OrderedMap.modify_eq_self _ h hf]

theorem modifyNamespace_eq_self (h : s.namespace? p n = some nameSpace)
    {f : NamespaceStorage → NamespaceStorage} (hf : f nameSpace = nameSpace) :
    s.modifyNamespace p n f = s := by
  obtain ⟨partition, hpartition, hnamespace⟩ := namespace?_eq_some.mp h
  apply modifyPartition_eq_self hpartition
  rw [OrderedMap.modify_eq_self _ hnamespace hf]

theorem sizes_modifyPartition (q : Bytes) (f : PartitionStorage → PartitionStorage) :
    (s.modifyPartition p f).sizes q =
      if q = p then some (f ((s.partitions.find p).getD {})).totalEntries else s.sizes q := by
  unfold NvsStorage.sizes NvsStorage.modifyPartition
  rw [OrderedMap.find_modify]
  split <;> rfl

/-- A change inside a namespace of a partition that exists. -/
theorem sizes_modifyNamespace {partition : PartitionStorage}
    (h : s.partitions.find p = some partition) (f : NamespaceStorage → NamespaceStorage) :
    (s.modifyNamespace p n f).sizes = s.sizes := by
  funext q
  rw [NvsStorage.modifyNamespace, sizes_modifyPartition]
  split
  · subst q
    simp [NvsStorage.sizes, h]
  · rfl

end Storages

section Operations

variable {s s' : Store} {h : Handle} {nameSpace : NamespaceStorage}

/-- Looking up the namespace of an open handle makes nothing. -/
theorem access_of_live (hn : s.storage.namespace? h.partitionName h.nsName = some nameSpace) :
    s.access h = (s, nameSpace) := by
  rw [Store.access, modifyNamespace_eq_self hn rfl, hn]
  rfl

theorem commit_of_live {handle : ℕ} (hh : s.handles handle = some h)
    (hn : s.storage.namespace? h.partitionName h.nsName = some nameSpace) :
    s.commit handle = some (.ok, ({ s with
      committed := s.committed.modifyPartition h.partitionName fun partition =>
        ⟨((s.storage.partitions.find h.partitionName).getD {}).totalEntries,
          partition.nameSpaces.insert h.nsName nameSpace⟩ } : Store).save) := by
  obtain ⟨partition, hpartition, -⟩ := namespace?_eq_some.mp hn
  rw [Store.commit, hh]
  simp only [modifyPartition_eq_self (f := id) hpartition rfl, hn]

/-- What an operation through an open handle does to the two copies. -/
inductive Effect (s : Store) (h : Handle) (op : Op) (s' : Store) : Prop
  | none (hs : s'.storage = s.storage) (hc : s'.committed = s.committed)
  | write (hw : h.readonly = false) (f : NamespaceStorage → NamespaceStorage)
      (hs : s'.storage = s.storage.modifyNamespace h.partitionName h.nsName f)
      (hc : s'.committed = s.committed)
  | commit (handle : ℕ) (hop : op = .commit handle) (nameSpace : NamespaceStorage)
      (hn : s.storage.namespace? h.partitionName h.nsName = some nameSpace)
      (hs : s'.storage = s.storage)
      (hc : s'.committed = s.committed.modifyPartition h.partitionName fun partition =>
        ⟨((s.storage.partitions.find h.partitionName).getD {}).totalEntries,
          partition.nameSpaces.insert h.nsName nameSpace⟩)

theorem effect_of_handle {op : Op} {handle : ℕ} (hop : op.handle = some handle)
    (hh : s.handles handle = some h)
    (hn : s.storage.namespace? h.partitionName h.nsName = some nameSpace)
    (hstep : step s op = some s') : Effect s h op s' := by
  have haccess := access_of_live hn
  cases op <;> cases hop
  case close => cases hstep; exact .none rfl rfl
  case set key value =>
    cases hstep
    simp only [Store.set, hh, haccess]
    split
    · exact .none rfl rfl
    · rename_i hreadonly
      split
      · exact .none rfl rfl
      · split
        · exact .none rfl rfl
        · exact .write (by simpa using hreadonly) _ rfl rfl
  case get key type =>
    cases hstep
    simp only [Store.get, hh, haccess]
    split
    · exact .none rfl rfl
    · split <;> exact .none rfl rfl
  case findKey key =>
    cases hstep
    simp only [Store.findKey, hh, haccess]
    split
    · exact .none rfl rfl
    · split <;> exact .none rfl rfl
  case eraseKey key =>
    cases hstep
    simp only [Store.eraseKey, hh, haccess]
    split
    · exact .none rfl rfl
    · rename_i hreadonly
      split
      · exact .none rfl rfl
      · exact .write (by simpa using hreadonly) _ rfl rfl
  case eraseAll =>
    cases hstep
    simp only [Store.eraseAll, hh]
    split
    · exact .none rfl rfl
    · rename_i hreadonly
      exact .write (by simpa using hreadonly) _ rfl rfl
  case getUsedEntryCount =>
    cases hstep
    simp only [Store.getUsedEntryCount, hh, haccess]
    exact .none rfl rfl
  case commit =>
    rw [step, commit_of_live hh hn] at hstep
    cases hstep
    exact .commit handle rfl nameSpace hn rfl rfl

end Operations

section Twins

variable {s s' : Store} {h : Handle}

theorem Effect.twin {op : Op} {nameSpace : NamespaceStorage} (he : Effect s h op s')
    (hn : s.storage.namespace? h.partitionName h.nsName = some nameSpace) (ht : Twin s) :
    s'.storage.sizes = s.storage.sizes ∧ s'.committed.sizes = s.committed.sizes := by
  obtain ⟨partition, hpartition, -⟩ := namespace?_eq_some.mp hn
  cases he with
  | none hs hc => exact ⟨by rw [hs], by rw [hc]⟩
  | write hw f hs hc => exact ⟨by rw [hs, sizes_modifyNamespace hpartition], by rw [hc]⟩
  | commit handle hop nameSpace hn hs hc =>
    refine ⟨by rw [hs], ?_⟩
    funext q
    rw [hc, sizes_modifyPartition]
    split
    · subst q
      rw [← congrFun ht h.partitionName]
      simp [NvsStorage.sizes, hpartition]
    · rfl

/-- An operation whose handle is not open. -/
theorem step_of_closed {op : Op} {handle : ℕ} (hop : op.handle = some handle)
    (hh : s.handles handle = none) (hstep : step s op = some s') :
    s'.storage = s.storage ∧ s'.committed = s.committed := by
  have hrejected := rejected_of_none hh
  cases op <;> cases hop
  case close => cases hstep; exact ⟨rfl, rfl⟩
  case set key value =>
    rw [step, hrejected.set] at hstep
    cases hstep
    exact ⟨rfl, rfl⟩
  case get key type =>
    rw [step, hrejected.get] at hstep
    cases hstep
    exact ⟨rfl, rfl⟩
  case findKey key =>
    rw [step, hrejected.findKey] at hstep
    cases hstep
    exact ⟨rfl, rfl⟩
  case eraseKey key =>
    rw [step, hrejected.eraseKey] at hstep
    cases hstep
    exact ⟨rfl, rfl⟩
  case eraseAll =>
    rw [step, hrejected.eraseAll] at hstep
    cases hstep
    exact ⟨rfl, rfl⟩
  case getUsedEntryCount =>
    rw [step, hrejected.getUsedEntryCount] at hstep
    cases hstep
    exact ⟨rfl, rfl⟩
  case commit =>
    rw [step, hrejected.commit] at hstep
    cases hstep
    exact ⟨rfl, rfl⟩

theorem Twin.modifyPartition {s₁ s₂ : NvsStorage} (h : s₁.sizes = s₂.sizes) (p : Bytes)
    {f : PartitionStorage → PartitionStorage}
    (hf : ∀ a b : PartitionStorage, a.totalEntries = b.totalEntries →
      (f a).totalEntries = (f b).totalEntries) :
    (s₁.modifyPartition p f).sizes = (s₂.modifyPartition p f).sizes := by
  funext q
  rw [sizes_modifyPartition, sizes_modifyPartition, h]
  have hp := congrFun h p
  unfold NvsStorage.sizes at hp
  split
  · apply congrArg some
    apply hf
    cases h₁ : s₁.partitions.find p <;> cases h₂ : s₂.partitions.find p <;> simp_all
  · rfl

theorem twin_openNamespace (ht : Twin s) (partName name : Option Bytes)
    (readonly outHandle : Bool) : Twin (s.openNamespace partName name readonly outHandle).2.2 := by
  unfold Store.openNamespace
  split
  · exact ht
  · exact ht
  split
  · exact ht
  split
  · exact ht
  split
  · exact ht
  rename_i part hpart
  split
  · exact ht
  split
  · exact ht
  split
  · exact ht
  split
  · exact ht
  · exact (sizes_modifyNamespace hpart id).trans ht

theorem twin_step {op : Op} (hlive : HandlesLive s) (ht : Twin s) (hstep : step s op = some s') :
    Twin s' := by
  cases hop : op.handle with
  | some handle =>
    cases hh : s.handles handle with
    | none =>
      obtain ⟨hs, hc⟩ := step_of_closed hop hh hstep
      rwa [Twin, hs, hc]
    | some h =>
      obtain ⟨nameSpace, hn⟩ := Option.isSome_iff_exists.mp (hlive handle h hh).2
      obtain ⟨hs, hc⟩ := (effect_of_handle hop hh hn hstep).twin hn ht
      exact hs.trans (ht.trans hc.symm)
  | none =>
    cases op with
    | init partitionName partitionSize =>
      cases hstep
      cases partitionName with
      | none => exact ht
      | some name =>
        apply Twin.modifyPartition ht
        intro a b hab
        split
        · rfl
        · exact hab
    | deinit partitionName =>
      cases hstep
      unfold Store.deinit
      split
      · exact ht
      · split <;> exact ht
    | erasePartition partitionName =>
      cases hstep
      unfold Store.erasePartition
      split
      · exact ht
      split
      · split
        · rename_i hinit
          simp only [Store.deinit, hinit, if_true]
          exact Twin.modifyPartition ht _ fun a b hab => hab
        · exact Twin.modifyPartition ht _ fun a b hab => hab
      · exact ht
    | openNamespace partName name readonly outHandle =>
      cases hstep
      exact twin_openNamespace ht partName name readonly outHandle
    | restart =>
      simp only [step] at hstep
      cases hload : load s.file with
      | error e =>
        rw [Store.construct, hload] at hstep
        cases hstep
      | ok storage =>
        rw [construct_of_load hload] at hstep
        cases hstep
        rfl
    | _ => cases hop

end Twins

section Runs

variable {s s' : Store} {h : Handle}

/-- What every run keeps. -/
structure Reached (s : Store) : Prop where
  durable : ∃ d, Durable (s, d)
  twin : Twin s

theorem Reached.live (hs : Reached s) : HandlesLive s := hs.durable.choose_spec.live

theorem reached_step : Preserves step Reached := by
  intro s op s' hstep hs
  obtain ⟨d, hd⟩ := hs.durable
  obtain ⟨s₂, hstep₂, hd₂⟩ := durable_step hd op
  obtain rfl := Option.some.inj (hstep.symm.trans hstep₂)
  exact ⟨⟨_, hd₂⟩, twin_step hs.live hs.twin hstep⟩

theorem reached_construct {file : Option Bytes} (h : Store.construct file = .ok s) : Reached s := by
  refine ⟨⟨_, durable_construct h⟩, ?_⟩
  cases file with
  | none =>
    cases h
    rfl
  | some file =>
    cases hload : load file with
    | error e =>
      rw [Store.construct, hload] at h
      cases h
    | ok storage =>
      rw [construct_of_load hload] at h
      cases h
      rfl

/-- A commit through a read-only handle is the one operation through it that can change a
copy, and it does when the two contents of the namespace differ. -/
theorem unchanged_of_readonly (hs : Reached s) {op : Op} {handle : ℕ}
    (hop : op.handle = some handle) (hh : s.handles handle = some h) (hr : h.readonly = true)
    (hstep : step s op = some s') :
    (s'.storage = s.storage ∧ s'.committed = s.committed) ↔
      ¬(op = .commit handle ∧ s.committed.namespace? h.partitionName h.nsName ≠
        s.storage.namespace? h.partitionName h.nsName) := by
  obtain ⟨nameSpace, hn⟩ := Option.isSome_iff_exists.mp (hs.live handle h hh).2
  cases effect_of_handle hop hh hn hstep with
  | none hs' hc =>
    refine ⟨fun _ hcommit => hcommit.2 ?_, fun _ => ⟨hs', hc⟩⟩
    obtain ⟨s₂, hcommit₂, -, -, -, hcontents, -⟩ := commit_spec hs.live hh
    rw [hcommit.1, step, hcommit₂] at hstep
    cases hstep
    have hown := hcontents h.partitionName h.nsName
    rwa [hc, if_pos ⟨rfl, rfl⟩] at hown
  | write hw => exact absurd (hr.symm.trans hw) (by simp)
  | commit id hcommit nameSpace' hn' hs' hc =>
    obtain rfl := Option.some.inj (hn.symm.trans hn')
    subst hcommit
    cases hop
    constructor
    · intro hsame hdiffer
      apply hdiffer.2
      have hown := namespace?_modifyPartition s.committed h.partitionName h.partitionName h.nsName
        fun partition => ⟨((s.storage.partitions.find h.partitionName).getD {}).totalEntries,
          partition.nameSpaces.insert h.nsName nameSpace⟩
      rw [← hc, hsame.2, hn] at *
      simpa using hown
    · intro hnot
      refine ⟨hs', ?_⟩
      have hequal : s.committed.namespace? h.partitionName h.nsName = some nameSpace := by
        rw [← hn]
        exact by_contra fun hne => hnot ⟨rfl, hne⟩
      obtain ⟨partition, hpartition, hentries⟩ := namespace?_eq_some.mp hequal
      rw [hc]
      apply modifyPartition_eq_self hpartition
      have hsize := congrFun hs.twin h.partitionName
      obtain ⟨live, hlive, -⟩ := namespace?_eq_some.mp hn
      simp only [NvsStorage.sizes, hpartition, hlive, Option.map_some, Option.some.injEq] at hsize
      rw [hlive, Option.getD_some, hsize, OrderedMap.insert_eq_self _ hentries]

/-- Operations on a partition as a whole that end its use. -/
def EndsUse (s : Store) (name : Bytes) (op : Op) : Prop :=
  op = .deinit (some name) ∧ s.initialized name = true ∨
    op = .erasePartition (some name) ∧ s.storage.hasPartition name = true

/-- The handles on the partition are closed, the others are as they were. -/
theorem handles_of_ends {name : Bytes} {op : Op} (hends : EndsUse s name op)
    (hstep : step s op = some s') (handle : ℕ) :
    s'.handles handle = (s.handles handle).filter fun h => h.partitionName ≠ name := by
  rcases hends with ⟨rfl, hinit⟩ | ⟨rfl, hpart⟩
  · cases hstep
    simp [Store.deinit, hinit, Store.closePartition]
  · cases hstep
    simp only [Store.erasePartition, hpart, if_true]
    cases hinit : s.initialized name <;> simp [Store.deinit, hinit, Store.closePartition, Store.save]

/-- An operation through a handle leaves every other namespace, and all sizes, in both copies. -/
theorem elsewhere_of_handle (hs : Reached s) {op : Op} {handle : ℕ}
    (hop : op.handle = some handle) (hh : s.handles handle = some h)
    (hstep : step s op = some s') :
    s'.storage.sizes = s.storage.sizes ∧ s'.committed.sizes = s.committed.sizes ∧
      ∀ p n, ¬(p = h.partitionName ∧ n = h.nsName) →
        s'.storage.namespace? p n = s.storage.namespace? p n ∧
          s'.committed.namespace? p n = s.committed.namespace? p n := by
  obtain ⟨nameSpace, hn⟩ := Option.isSome_iff_exists.mp (hs.live handle h hh).2
  have heffect := effect_of_handle hop hh hn hstep
  obtain ⟨hsize, hcsize⟩ := heffect.twin hn hs.twin
  refine ⟨hsize, hcsize, fun p n hne => ?_⟩
  cases heffect with
  | none hs' hc => exact ⟨by rw [hs'], by rw [hc]⟩
  | write hw f hs' hc =>
    rw [hs', namespace?_modifyNamespace, if_neg hne]
    exact ⟨rfl, by rw [hc]⟩
  | commit id hcommit nameSpace' hn' hs' hc =>
    subst hcommit
    cases hop
    obtain ⟨s₂, hcommit₂, -, -, -, hcontents, -⟩ := commit_spec hs.live hh
    rw [step, hcommit₂] at hstep
    cases hstep
    refine ⟨by rw [hs'], ?_⟩
    rw [hcontents, if_neg hne]

/-- Open handles find their namespaces and change no other, read-only ones change nothing
but by a commit of a content that is not committed yet, and the end of a partition closes
the handles on it and no others. -/
theorem handles_contract {file : Option Bytes} {s₀ s : Store} {ops : List Op}
    (h : Store.construct file = .ok s₀) (hr : run step s₀ ops = some s) :
    (∀ handle h, s.handles handle = some h → s.initialized h.partitionName = true ∧
      ∃ nameSpace, s.storage.namespace? h.partitionName h.nsName = some nameSpace ∧
        s.access h = (s, nameSpace) ∧ ∃ s', s.commit handle = some (.ok, s') ∧
          s'.storage = s.storage) ∧
    (∀ op handle h s', op.handle = some handle → s.handles handle = some h →
      step s op = some s' →
      (s'.storage.sizes = s.storage.sizes ∧ s'.committed.sizes = s.committed.sizes ∧
        ∀ p n, ¬(p = h.partitionName ∧ n = h.nsName) →
          s'.storage.namespace? p n = s.storage.namespace? p n ∧
            s'.committed.namespace? p n = s.committed.namespace? p n) ∧
      (h.readonly = true → ((s'.storage = s.storage ∧ s'.committed = s.committed) ↔
        ¬(op = .commit handle ∧ s.committed.namespace? h.partitionName h.nsName ≠
          s.storage.namespace? h.partitionName h.nsName)))) ∧
    ∀ name op s', EndsUse s name op → step s op = some s' →
      ∀ handle h, s.handles handle = some h →
        if h.partitionName = name then Rejected s' handle
        else s'.handles handle = some h ∧ s'.initialized h.partitionName = true ∧
          (s'.storage.namespace? h.partitionName h.nsName).isSome = true := by
  have hs : Reached s := reached_step.run hr (reached_construct h)
  refine ⟨fun handle h hh => ?_, fun op handle h s' hop hh hstep => ?_,
    fun name op s' hends hstep handle h hh => ?_⟩
  · obtain ⟨hinit, hexists⟩ := hs.live handle h hh
    obtain ⟨nameSpace, hn⟩ := Option.isSome_iff_exists.mp hexists
    exact ⟨hinit, nameSpace, hn, access_of_live hn, _, commit_of_live hh hn, rfl⟩
  · exact ⟨elsewhere_of_handle hs hop hh hstep,
      fun hreadonly => unchanged_of_readonly hs hop hh hreadonly hstep⟩
  · have hhandles := handles_of_ends hends hstep handle
    rw [hh] at hhandles
    split
    · rename_i hname
      apply rejected_of_none
      rw [hhandles]
      simp [hname]
    · rename_i hname
      have hkept : s'.handles handle = some h := by
        rw [hhandles]
        simp [hname]
      exact ⟨hkept, (reached_step hstep hs).live handle h hkept⟩

/-- A namespace is opened for writing and for reading, and a key is set in it. -/
def openedTwice : List Op :=
  [.init (some (text "nvs")) 0, .openNamespace (some (text "nvs")) (some (text "wifi")) false true,
    .openNamespace (some (text "nvs")) (some (text "wifi")) true true,
    .set 0 (some (text "channel")) (.uint .w8 5)]

theorem handles_contract_openedTwice : ∃ s, run step Store.created openedTwice = some s ∧
    s.handles 1 = some ⟨text "nvs", text "wifi", true⟩ ∧
    s.initialized (text "nvs") = true :=
  ⟨_, rfl, rfl, ((@handles_contract none _ _ openedTwice rfl rfl).1 1 _ rfl).1⟩

/-- The commit through the read-only handle writes what the other handle has set. -/
theorem readonly_commit_openedTwice : ∃ s s', run step Store.created openedTwice = some s ∧
    s.handles 1 = some ⟨text "nvs", text "wifi", true⟩ ∧ step s (.commit 1) = some s' ∧
    s'.committed ≠ s.committed := by
  refine ⟨_, _, rfl, rfl, rfl, fun h => ?_⟩
  have hchannel := congrArg storedChannel h
  exact absurd hchannel (by decide)

end Runs

end RooTesting.Nvs
