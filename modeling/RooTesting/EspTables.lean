import RooTesting.EspAdapter

/-! # The tables of the ESP interrupt adapter agree

Records, vectors and controller slots are linked after every sequence of calls. A call breaks
the links of one vector at most, and ends by bringing that vector's slot up to date. -/
namespace RooTesting.EspInterrupts
open InterruptController (Word Generation Handle Slot Update kInterruptCapacity allocated enabled
  pending hasUnusedGeneration registered stateWithGeneration matchesHandle kEnabled kAllocated
  or_mask_spec and_not_mask_spec stateWithGeneration_spec getLsbD_mask)

section Fields

variable (s : State) (v r : ℕ) (vector : SourceVector) (record : Record) (slots : ℕ → Slot)

@[simp] theorem setVector_vectors :
    (s.setVector v vector).vectors = Function.update s.vectors v vector := rfl
@[simp] theorem setVector_records : (s.setVector v vector).records = s.records := rfl
@[simp] theorem setVector_slots : (s.setVector v vector).slots = s.slots := rfl
@[simp] theorem setRecord_vectors : (s.setRecord r record).vectors = s.vectors := rfl
@[simp] theorem setRecord_records :
    (s.setRecord r record).records = Function.update s.records r record := rfl
@[simp] theorem setRecord_slots : (s.setRecord r record).slots = s.slots := rfl
@[simp] theorem setSlots_vectors : (s.setSlots slots).vectors = s.vectors := rfl
@[simp] theorem setSlots_records : (s.setSlots slots).records = s.records := rfl
@[simp] theorem setSlots_slots : (s.setSlots slots).slots = slots := rfl
@[simp] theorem setPublication_records (publication : Word) :
    (setPublication s v publication).records = s.records := rfl
@[simp] theorem setPublication_slots (publication : Word) :
    (setPublication s v publication).slots = s.slots := rfl

end Fields

section Finders

variable {s : State} {source : ℤ} {v r : ℕ} {identity : VectorIdentity}

theorem findSourceVector_some (h : findSourceVector s source = some v) :
    v < kVectorCapacity ∧ isVectorPublished (s.vectors v).publication = true ∧
      (s.vectors v).source = source := by
  have hfound := List.find?_some h
  simp only [Bool.and_eq_true, decide_eq_true_eq] at hfound
  exact ⟨List.mem_range.mp (List.mem_of_find?_eq_some h), hfound⟩

theorem findSourceVector_none (h : findSourceVector s source = none) (hv : v < kVectorCapacity)
    (hpublished : isVectorPublished (s.vectors v).publication = true) :
    (s.vectors v).source ≠ source := by
  have hmiss := List.find?_eq_none.mp h v (List.mem_range.mpr hv)
  simpa [hpublished] using hmiss

theorem findFreeVector_some (h : findFreeVector s = some v) :
    v < kVectorCapacity ∧ isVectorPublished (s.vectors v).publication = false := by
  have hfound := List.find?_some h
  simp only [Bool.and_eq_true, Bool.not_eq_true'] at hfound
  exact ⟨List.mem_range.mp (List.mem_of_find?_eq_some h), hfound.1⟩

theorem findFreeRecord_some (h : findFreeRecord s = some r) :
    r < kRegistrationCapacity ∧ isRecordPublished (s.records r).state = false := by
  have hfound := List.find?_some h
  simp only [Bool.and_eq_true, Bool.not_eq_true'] at hfound
  exact ⟨List.mem_range.mp (List.mem_of_find?_eq_some h), hfound.1⟩

theorem findRecord_some {handle : Option ℕ} (h : findRecord handle = some r) :
    r < kRegistrationCapacity := by
  obtain ⟨address, -, haddress⟩ := Option.bind_eq_some_iff.mp h
  rw [Option.ite_none_right_eq_some] at haddress
  obtain ⟨hlt, heq⟩ := haddress
  exact Option.some.inj heq ▸ hlt

theorem anyLiveRecord_iff :
    anyLiveRecord s identity = true ↔
      ∃ r < kRegistrationCapacity, recordBelongsTo s r identity = true := by
  simp [anyLiveRecord]

theorem anyEnabledRecord_iff :
    anyEnabledRecord s identity = true ↔ ∃ r < kRegistrationCapacity,
      recordBelongsTo s r identity = true ∧ isRecordEnabled (s.records r).state = true := by
  simp only [anyEnabledRecord, List.any_eq_true, List.mem_range, Bool.and_eq_true]
  constructor
  · rintro ⟨r, hr, henabled, hbelongs⟩
    exact ⟨r, hr, hbelongs, henabled⟩
  · rintro ⟨r, hr, hbelongs, henabled⟩
    exact ⟨r, hr, henabled, hbelongs⟩

theorem recordBelongsTo_iff :
    recordBelongsTo s r identity = true ↔
      isRecordPublished (s.records r).state = true ∧ recordIdentity s r = identity := by
  simp [recordBelongsTo]

end Finders

section Controller

variable {slots slots' : ℕ → Slot} {context : Context} {handle : Handle}

theorem matchesHandle_iff {state : Word} :
    matchesHandle state handle = true ↔
      allocated state = true ∧ InterruptController.generation state = handle.generation := by
  simp [matchesHandle]

/-- A registration takes a slot that was free, under a handle that is valid and disabled. -/
theorem registerInterrupt_registered {handler : Option ℕ} {argument : ℕ}
    (h : registerInterrupt slots handler argument false context = (.registered handle, slots')) :
    handle.slot < kInterruptCapacity ∧ handle.isValid = true ∧
      allocated (slots handle.slot).state = false ∧
      matchesHandle (slots' handle.slot).state handle = true ∧
      (∀ i, i ≠ handle.slot → slots' i = slots i) := by
  rcases handler with _ | handler
  · cases h
  simp only [registerInterrupt] at h
  split_ifs at h
  · cases h
  · cases h
  split at h
  · cases h
  rename_i i hfind
  have hi := List.mem_range.mp (List.mem_of_find?_eq_some hfind)
  have hfound := List.find?_some hfind
  simp only [Bool.and_eq_true, Bool.not_eq_true', hasUnusedGeneration, decide_eq_true_eq] at hfound
  obtain ⟨hfree, hunused⟩ := hfound
  simp only [Prod.mk.injEq, InterruptRegistrationResult.registered.injEq] at h
  obtain ⟨rfl, rfl⟩ := h
  have hflags : ∀ j, 3 ≤ j → (kAllocated ||| if false then kEnabled else 0 : Word).getLsbD j = false := by
    intro j hj
    rw [kAllocated, BitVec.getLsbD_or, getLsbD_mask (by omega)]
    simp [show j ≠ 0 by omega]
  obtain ⟨hgeneration, hallocated, -⟩ :=
    stateWithGeneration_spec (InterruptController.generation (slots i).state + 1) hflags
  refine ⟨hi, ?_, hfree, ?_, fun j hj => Function.update_of_ne hj _ _⟩
  · have hslot : i ≠ 2 ^ 32 - 1 := by
      change i < 64 at hi
      omega
    have hgeneration : InterruptController.generation (slots i).state + 1 ≠ 0 := by
      intro hzero
      have hlt := BitVec.lt_def.mp hunused
      have hnat := congrArg BitVec.toNat hzero
      rw [BitVec.toNat_add] at hnat
      change _ < 2 ^ 32 - 1 at hlt
      change (_ + 1) % 2 ^ 32 = 0 at hnat
      omega
    simp only [Handle.isValid, Bool.and_eq_true, decide_eq_true_eq]
    exact ⟨hslot, hgeneration⟩
  · rw [Function.update_self, matchesHandle_iff]
    exact ⟨hallocated.trans (by decide), hgeneration⟩

/-- A registration that fails changes no slot. -/
theorem registerInterrupt_failed {handler : Option ℕ} {argument : ℕ}
    {initiallyEnabled : Bool} {result : InterruptRegistrationResult}
    (h : registerInterrupt slots handler argument initiallyEnabled context = (result, slots'))
    (hresult : ∀ handle, result ≠ .registered handle) : slots' = slots := by
  rcases handler with _ | handler
  · exact (congrArg Prod.snd h).symm
  simp only [registerInterrupt] at h
  split_ifs at h
  · exact (congrArg Prod.snd h).symm
  · exact (congrArg Prod.snd h).symm
  split at h
  · exact (congrArg Prod.snd h).symm
  · exact absurd (congrArg Prod.fst h).symm (hresult _)

/-- The holder of a handle that matches can take the registration back. -/
theorem unregisterInterrupt_matched (hvalid : handle.isValid = true)
    (hslot : handle.slot < kInterruptCapacity) (htask : context.task = true)
    (hmatches : matchesHandle (slots handle.slot).state handle = true) :
    unregisterInterrupt slots handle context = (true, Function.update slots handle.slot
      ⟨stateWithGeneration handle.generation 0, none, 0⟩) := by
  simp [unregisterInterrupt, hvalid, htask, hmatches, Nat.not_le.mpr hslot]

theorem Update.matchesHandle_apply (op : Update) (state : Word) :
    matchesHandle (op.apply state) handle = matchesHandle state handle := by
  cases op with
  | enable =>
    obtain ⟨hgeneration, hallocated, -⟩ := or_mask_spec state (i := 1) (by omega)
    simp only [Update.apply, kEnabled, matchesHandle, hgeneration, hallocated]
    simp
  | disable =>
    obtain ⟨hgeneration, hallocated, -⟩ := and_not_mask_spec state (i := 1) (by omega)
    simp only [Update.apply, kEnabled, matchesHandle, hgeneration, hallocated]
    simp
  | setPending =>
    obtain ⟨hgeneration, hallocated, -⟩ := or_mask_spec state (i := 2) (by omega)
    simp only [Update.apply, InterruptController.kPending, matchesHandle, hgeneration, hallocated]
    simp

theorem enabled_apply (enable : Bool) (state : Word) :
    enabled ((if enable then Update.enable else .disable).apply state) = enable := by
  cases enable with
  | true =>
    obtain ⟨-, -, henabled, -⟩ := or_mask_spec state (i := 1) (by omega)
    exact henabled.trans (by simp)
  | false =>
    obtain ⟨-, -, henabled, -⟩ := and_not_mask_spec state (i := 1) (by omega)
    exact henabled.trans (by simp)

end Controller

section Links

variable (s : State) (v r : ℕ)

def published : Prop := isVectorPublished (s.vectors v).publication = true

def vectorIdentity : VectorIdentity := ⟨v, (s.vectors v).publication⟩

def controllerHandle : Handle := ⟨(s.vectors v).controllerSlot, (s.vectors v).controllerGeneration⟩

/-- The word of a vector's controller slot. -/
def controllerWord : Word := (s.slots (s.vectors v).controllerSlot).state

structure Registered : Prop where
  valid : (controllerHandle s v).isValid = true
  bound : (s.vectors v).controllerSlot < kInterruptCapacity
  current : matchesHandle (controllerWord s v) (controllerHandle s v) = true

/-- What links the tables, apart from the vectors' records. -/
structure Linked : Prop where
  member : ∀ r < kRegistrationCapacity, isRecordPublished (s.records r).state = true →
    ∃ v < kVectorCapacity, published s v ∧ recordIdentity s r = vectorIdentity s v
  source : ∀ v < kVectorCapacity, ∀ w < kVectorCapacity, published s v → published s w →
    (s.vectors v).source = (s.vectors w).source → v = w
  registration : ∀ v < kVectorCapacity, published s v → Registered s v
  distinct : ∀ v < kVectorCapacity, ∀ w < kVectorCapacity, published s v → published s w →
    (s.vectors v).controllerSlot = (s.vectors w).controllerSlot → v = w

def Populated : Prop := anyLiveRecord s (vectorIdentity s v) = true

def Agrees : Prop := enabled (controllerWord s v) = anyEnabledRecord s (vectorIdentity s v)

/-- Every vector has its records, and the slots agree except that of one vector. -/
structure ConsistentExcept (except : Option ℕ) : Prop extends Linked s where
  populated : ∀ v < kVectorCapacity, published s v → Populated s v
  agrees : ∀ v < kVectorCapacity, published s v → some v ≠ except → Agrees s v

abbrev Consistent : Prop := ConsistentExcept s none

end Links

variable {s : State} {v r : ℕ} {context : Context}

theorem Registered.of_eq {s' : State} (h : Registered s v) (hvector : s'.vectors v = s.vectors v)
    (hword : controllerWord s' v = controllerWord s v) : Registered s' v := by
  have hhandle : controllerHandle s' v = controllerHandle s v := by
    rw [controllerHandle, controllerHandle, hvector]
  refine ⟨hhandle ▸ h.valid, hvector ▸ h.bound, ?_⟩
  rw [hword, hhandle]
  exact h.current

theorem loadVectorControllerHandle_eq (h : Linked s) (hv : v < kVectorCapacity)
    (hpublished : published s v) :
    loadVectorControllerHandle s (vectorIdentity s v) = some (controllerHandle s v) := by
  have hvalid := (h.registration v hv hpublished).valid
  rw [published] at hpublished
  simp only [controllerHandle] at hvalid ⊢
  simp [loadVectorControllerHandle, vectorIdentity, hpublished, hvalid, Nat.not_le.mpr hv]

/-- The state after an operation on a slot whose handle matches. -/
def updatedSlot (s : State) (op : Update) (slot : ℕ) : State :=
  let word := op.apply (s.slots slot).state
  { s with
    slots := Function.update s.slots slot { s.slots slot with state := word }
    requested := s.requested || op.requests word }

theorem updateInterrupt_matched {op : Update} {handle : Handle} (hvalid : handle.isValid = true)
    (hslot : handle.slot < kInterruptCapacity)
    (hmatches : matchesHandle (s.slots handle.slot).state handle = true) :
    updateInterrupt s op handle = (true, updatedSlot s op handle.slot) := by
  simp [updateInterrupt, updatedSlot, hvalid, hmatches, Nat.not_le.mpr hslot]

/-- An operation on one vector's slot leaves the words of the others. -/
theorem updatedSlot_controllerWord (h : Linked s) (hv : v < kVectorCapacity)
    (hpublished : published s v) (op : Update) {w : ℕ} (hw : w < kVectorCapacity)
    (hpub : published s w) :
    controllerWord (updatedSlot s op (s.vectors v).controllerSlot) w =
      if w = v then op.apply (controllerWord s v) else controllerWord s w := by
  by_cases hne : w = v
  · subst hne
    simp [controllerWord, updatedSlot]
  · have hslot : (s.vectors w).controllerSlot ≠ (s.vectors v).controllerSlot := by
      intro heq
      exact hne (h.distinct w hw v hv hpub hpublished heq)
    simp [controllerWord, updatedSlot, hne, hslot]

/-- Bringing a vector's slot up to date succeeds and repairs what was left to repair. -/
theorem updateVectorEnablement_spec (h : ConsistentExcept s (some v)) (hv : v < kVectorCapacity)
    (hpublished : published s v) :
    ∃ s', updateVectorEnablement s (vectorIdentity s v) = (true, s') ∧ Consistent s' ∧
      s'.records = s.records := by
  obtain ⟨hvalid, hbound, hcurrent⟩ := h.registration v hv hpublished
  set op := if anyEnabledRecord s (vectorIdentity s v) = true then Update.enable else .disable
    with hop
  have hword := fun {w} => updatedSlot_controllerWord h.toLinked hv hpublished op (w := w)
  refine ⟨updatedSlot s op (s.vectors v).controllerSlot, ?_, ?_, rfl⟩
  · simp only [updateVectorEnablement, loadVectorControllerHandle_eq h.toLinked hv hpublished]
    exact updateInterrupt_matched hvalid hbound hcurrent
  refine ⟨⟨h.member, h.source, ?_, h.distinct⟩, h.populated, ?_⟩
  · intro w hw hpub
    obtain ⟨hvalid', hbound', hcurrent'⟩ := h.registration w hw hpub
    refine ⟨hvalid', hbound', ?_⟩
    rw [hword hw hpub]
    by_cases hne : w = v
    · subst hne
      rw [if_pos rfl]
      exact (Update.matchesHandle_apply op _).trans hcurrent'
    · rw [if_neg hne]
      exact hcurrent'
  · intro w hw hpub _
    rw [Agrees, hword hw hpub]
    by_cases hne : w = v
    · subst hne
      rw [if_pos rfl, hop]
      exact enabled_apply _ _
    · rw [if_neg hne]
      exact h.agrees w hw hpub (by simpa using hne)

section Records

theorem recordBelongsTo_setRecord (record : Record) (r' : ℕ) (identity : VectorIdentity) :
    recordBelongsTo (s.setRecord r record) r' identity =
      if r' = r then
        isRecordPublished record.state &&
          decide ((⟨record.vectorSlot, record.vectorPublication⟩ : VectorIdentity) = identity)
      else recordBelongsTo s r' identity := by
  by_cases h : r' = r
  · subst h
    simp [recordBelongsTo, recordIdentity]
  · have hsame : (s.setRecord r record).records r' = s.records r' := Function.update_of_ne h _ _
    rw [recordBelongsTo, recordIdentity, hsame, if_neg h, recordBelongsTo, recordIdentity]

/-- Which records belong to a vector, and which of these are enabled, decides for both tables. -/
theorem any_congr {s' : State} {identity identity' : VectorIdentity}
    (hbelongs : ∀ r, recordBelongsTo s' r identity' = recordBelongsTo s r identity)
    (henabled : ∀ r, recordBelongsTo s r identity = true →
      isRecordEnabled (s'.records r).state = isRecordEnabled (s.records r).state) :
    anyLiveRecord s' identity' = anyLiveRecord s identity ∧
      anyEnabledRecord s' identity' = anyEnabledRecord s identity := by
  constructor
  · simp only [anyLiveRecord, hbelongs]
  · rw [Bool.eq_iff_iff, anyEnabledRecord_iff, anyEnabledRecord_iff]
    simp only [hbelongs]
    constructor
    · rintro ⟨r, hr, hb, he⟩
      exact ⟨r, hr, hb, henabled r hb ▸ he⟩
    · rintro ⟨r, hr, hb, he⟩
      exact ⟨r, hr, hb, (henabled r hb).trans he⟩

/-- A record that a vector neither has nor gets does not count for it. -/
theorem any_setRecord {record : Record} {identity : VectorIdentity}
    (hold : recordBelongsTo s r identity = false)
    (hnew : isRecordPublished record.state = true →
      (⟨record.vectorSlot, record.vectorPublication⟩ : VectorIdentity) ≠ identity) :
    anyLiveRecord (s.setRecord r record) identity = anyLiveRecord s identity ∧
      anyEnabledRecord (s.setRecord r record) identity = anyEnabledRecord s identity := by
  apply any_congr
  · intro r'
    rw [recordBelongsTo_setRecord]
    by_cases hr : r' = r
    · subst hr
      rw [if_pos rfl, hold, Bool.and_eq_false_iff]
      by_cases hpub : isRecordPublished record.state = true
      · exact .inr (by simpa using hnew hpub)
      · exact .inl (by simpa using hpub)
    · rw [if_neg hr]
  · intro r' hbelongs
    have hne : r' ≠ r := by
      rintro rfl
      rw [hold] at hbelongs
      cases hbelongs
    simp [hne]

/-- A record of a vector, old or new, may change: only that vector's slot can fall behind. -/
theorem setRecord_consistent (h : Consistent s) (hv : v < kVectorCapacity)
    (hpublished : published s v) {record : Record}
    (hold : isRecordPublished (s.records r).state = true →
      recordIdentity s r = vectorIdentity s v)
    (hnew : isRecordPublished record.state = true →
      (⟨record.vectorSlot, record.vectorPublication⟩ : VectorIdentity) = vectorIdentity s v)
    (hpopulated : anyLiveRecord (s.setRecord r record) (vectorIdentity s v) = true) :
    ConsistentExcept (s.setRecord r record) (some v) := by
  have hother : ∀ w, w ≠ v → vectorIdentity s v ≠ vectorIdentity s w := by
    intro w hne heq
    exact hne (congrArg VectorIdentity.slot heq).symm
  have hany : ∀ w, w ≠ v →
      anyLiveRecord (s.setRecord r record) (vectorIdentity s w) =
        anyLiveRecord s (vectorIdentity s w) ∧
      anyEnabledRecord (s.setRecord r record) (vectorIdentity s w) =
        anyEnabledRecord s (vectorIdentity s w) := by
    intro w hne
    apply any_setRecord
    · rw [Bool.eq_false_iff]
      intro hbelongs
      obtain ⟨hpub, hidentity⟩ := recordBelongsTo_iff.mp hbelongs
      exact hother w hne ((hold hpub).symm.trans hidentity)
    · intro hpub hidentity
      exact hother w hne ((hnew hpub).symm.trans hidentity)
  refine ⟨⟨?_, h.source, fun w hw hpub => (h.registration w hw hpub).of_eq rfl rfl, h.distinct⟩,
    ?_, ?_⟩
  · intro r' hr' hpub
    by_cases hr : r' = r
    · subst hr
      simp only [setRecord_records, Function.update_self] at hpub
      refine ⟨v, hv, hpublished, ?_⟩
      simp only [recordIdentity, setRecord_records, Function.update_self]
      exact hnew hpub
    · simp only [setRecord_records, Function.update_of_ne hr] at hpub
      obtain ⟨w, hw, hpub', hidentity⟩ := h.member r' hr' hpub
      refine ⟨w, hw, hpub', ?_⟩
      simp only [recordIdentity, setRecord_records, Function.update_of_ne hr]
      exact hidentity
  · intro w hw hpub
    by_cases hne : w = v
    · subst hne
      exact hpopulated
    · exact (hany w hne).1.trans (h.populated w hw hpub)
  · intro w hw hpub hexcept
    have hne : w ≠ v := by simpa using hexcept
    exact (h.agrees w hw hpub (by simp)).trans (hany w hne).2.symm

end Records

section Vectors

/-- The tables after a vector, the slots and one record have changed. -/
def State.setAll (s : State) (slots : ℕ → Slot) (v : ℕ) (vector : SourceVector) (r : ℕ)
    (record : Record) : State :=
  ((s.setSlots slots).setVector v vector).setRecord r record

variable {slots : ℕ → Slot} {vector : SourceVector} {record : Record}

theorem vectors_setAll_self : (s.setAll slots v vector r record).vectors v = vector := by
  simp [State.setAll]

theorem vectors_setAll {w : ℕ} (hne : w ≠ v) :
    (s.setAll slots v vector r record).vectors w = s.vectors w := by
  simp [State.setAll, hne]

theorem published_setAll {w : ℕ} (hne : w ≠ v) :
    published (s.setAll slots v vector r record) w ↔ published s w := by
  simp [published, State.setAll, hne]

theorem vectorIdentity_setAll {w : ℕ} (hne : w ≠ v) :
    vectorIdentity (s.setAll slots v vector r record) w = vectorIdentity s w := by
  simp [vectorIdentity, State.setAll, hne]

/-- The other vectors keep their links. -/
theorem setAll_kept (h : Consistent s)
    (hslots : ∀ w < kVectorCapacity, published s w → w ≠ v →
      slots (s.vectors w).controllerSlot = s.slots (s.vectors w).controllerSlot)
    (hold : ∀ w, w ≠ v → recordBelongsTo s r (vectorIdentity s w) = false)
    (hnew : isRecordPublished record.state = true → record.vectorSlot = v)
    {w : ℕ} (hw : w < kVectorCapacity) (hne : w ≠ v) (hpub : published s w) :
    Registered (s.setAll slots v vector r record) w ∧
      Populated (s.setAll slots v vector r record) w ∧
      Agrees (s.setAll slots v vector r record) w := by
  have hvector : (s.setAll slots v vector r record).vectors w = s.vectors w := vectors_setAll hne
  have hword : controllerWord (s.setAll slots v vector r record) w = controllerWord s w := by
    rw [controllerWord, hvector]
    exact congrArg Slot.state (hslots w hw hpub hne)
  have hnew' : isRecordPublished record.state = true →
      (⟨record.vectorSlot, record.vectorPublication⟩ : VectorIdentity) ≠ vectorIdentity s w := by
    intro hrecord hidentity
    exact hne ((congrArg VectorIdentity.slot hidentity).symm.trans (hnew hrecord))
  obtain ⟨hlive, henabled⟩ :=
    any_setRecord (s := (s.setSlots slots).setVector v vector) (hold w hne) hnew'
  refine ⟨(h.registration w hw hpub).of_eq hvector hword, ?_, ?_⟩
  · rw [Populated, vectorIdentity_setAll hne]
    exact hlive.trans (h.populated w hw hpub)
  · rw [Agrees, vectorIdentity_setAll hne, hword]
    exact (h.agrees w hw hpub (by simp)).trans henabled.symm

theorem member_setAll {r' : ℕ} (hr : r' ≠ r) {w : ℕ} (hne : w ≠ v)
    (hidentity : recordIdentity s r' = vectorIdentity s w) :
    recordIdentity (s.setAll slots v vector r record) r' =
      vectorIdentity (s.setAll slots v vector r record) w := by
  rw [vectorIdentity_setAll hne, ← hidentity]
  simp [recordIdentity, State.setAll, hr]

/-- What tells the published vectors apart still does when the new one differs from all. -/
theorem setAll_distinct {α : Type} {key : SourceVector → α}
    (hold : ∀ w < kVectorCapacity, ∀ w' < kVectorCapacity, published s w → published s w' →
      key (s.vectors w) = key (s.vectors w') → w = w')
    (hnew : ∀ w < kVectorCapacity, published s w → key (s.vectors w) ≠ key vector) {w w' : ℕ}
    (hw : w < kVectorCapacity) (hw' : w' < kVectorCapacity)
    (hpub : published (s.setAll slots v vector r record) w)
    (hpub' : published (s.setAll slots v vector r record) w')
    (heq : key ((s.setAll slots v vector r record).vectors w) =
      key ((s.setAll slots v vector r record).vectors w')) : w = w' := by
  by_cases hne : w = v <;> by_cases hne' : w' = v
  · exact hne.trans hne'.symm
  · subst hne
    rw [vectors_setAll_self, vectors_setAll hne'] at heq
    exact absurd heq.symm (hnew w' hw' ((published_setAll hne').mp hpub'))
  · subst hne'
    rw [vectors_setAll_self, vectors_setAll hne] at heq
    exact absurd heq (hnew w hw ((published_setAll hne).mp hpub))
  · rw [vectors_setAll hne, vectors_setAll hne'] at heq
    exact hold w hw w' hw' ((published_setAll hne).mp hpub) ((published_setAll hne').mp hpub') heq

/-- A vector that comes with its first record, under a slot and a source that were free. -/
theorem addVector_consistent (h : Consistent s) (hv : v < kVectorCapacity)
    (hr : r < kRegistrationCapacity)
    (hfree : isVectorPublished (s.vectors v).publication = false)
    (hunused : isRecordPublished (s.records r).state = false)
    (hpublished : isVectorPublished vector.publication = true)
    (hrecord : isRecordPublished record.state = true)
    (hidentity : (⟨record.vectorSlot, record.vectorPublication⟩ : VectorIdentity) =
      ⟨v, vector.publication⟩)
    (hsource : ∀ w < kVectorCapacity, published s w → (s.vectors w).source ≠ vector.source)
    (hslots : ∀ i, i ≠ vector.controllerSlot → slots i = s.slots i)
    (hslot : allocated (s.slots vector.controllerSlot).state = false)
    (hregistered : Registered (s.setAll slots v vector r record) v) :
    ConsistentExcept (s.setAll slots v vector r record) (some v) := by
  have hdistinct : ∀ w < kVectorCapacity, published s w →
      (s.vectors w).controllerSlot ≠ vector.controllerSlot := by
    intro w hw hpub heq
    have hcurrent := (matchesHandle_iff.mp (h.registration w hw hpub).current).1
    rw [controllerWord, heq, hslot] at hcurrent
    cases hcurrent
  have hkept : ∀ {w}, w < kVectorCapacity → w ≠ v → published s w →
      Registered (s.setAll slots v vector r record) w ∧
        Populated (s.setAll slots v vector r record) w ∧
        Agrees (s.setAll slots v vector r record) w := by
    apply setAll_kept h
    · exact fun w hw hpub _ => hslots _ (hdistinct w hw hpub)
    · exact fun w _ => by simp [recordBelongsTo, hunused]
    · exact fun _ => congrArg VectorIdentity.slot hidentity
  have hvector : (s.setAll slots v vector r record).vectors v = vector := vectors_setAll_self
  refine ⟨⟨?_, ?_, ?_, ?_⟩, ?_, ?_⟩
  · intro r' hr' hpub
    by_cases hr : r' = r
    · subst hr
      refine ⟨v, hv, ?_, ?_⟩
      · rw [published, hvector]
        exact hpublished
      · rw [vectorIdentity, hvector, ← hidentity]
        simp [recordIdentity, State.setAll]
    · have hpub' : isRecordPublished (s.records r').state = true := by
        simpa [State.setAll, hr] using hpub
      obtain ⟨w, hw, hwpub, hwidentity⟩ := h.member r' hr' hpub'
      have hne : w ≠ v := by
        rintro rfl
        rw [published, hfree] at hwpub
        cases hwpub
      exact ⟨w, hw, (published_setAll hne).mpr hwpub, member_setAll hr hne hwidentity⟩
  · intro w hw w' hw' hpub hpub' heq
    exact setAll_distinct h.source hsource hw hw' hpub hpub' heq
  · intro w hw hpub
    by_cases hne : w = v
    · subst hne
      exact hregistered
    · exact (hkept hw hne ((published_setAll hne).mp hpub)).1
  · intro w hw w' hw' hpub hpub' heq
    exact setAll_distinct h.distinct hdistinct hw hw' hpub hpub' heq
  · intro w hw hpub
    by_cases hne : w = v
    · subst hne
      rw [Populated, anyLiveRecord_iff]
      refine ⟨r, hr, ?_⟩
      rw [State.setAll, recordBelongsTo_setRecord, if_pos rfl, hrecord, hidentity]
      simp [vectorIdentity]
    · exact (hkept hw hne ((published_setAll hne).mp hpub)).2.1
  · intro w hw hpub hexcept
    have hne : w ≠ v := by simpa using hexcept
    exact (hkept hw hne ((published_setAll hne).mp hpub)).2.2

/-- A vector leaves with its last record, and its slot is given back. -/
theorem removeVector_consistent (h : Consistent s) (hv : v < kVectorCapacity)
    (hpublished : published s v) (hidentity : recordIdentity s r = vectorIdentity s v)
    (hvector : isVectorPublished vector.publication = false)
    (hrecord : isRecordPublished record.state = false)
    (hlast : anyLiveRecord (s.setRecord r record) (vectorIdentity s v) = false)
    (hslots : ∀ i, i ≠ (s.vectors v).controllerSlot → slots i = s.slots i) :
    Consistent (s.setAll slots v vector r record) := by
  have hkept : ∀ {w}, w < kVectorCapacity → w ≠ v → published s w →
      Registered (s.setAll slots v vector r record) w ∧
        Populated (s.setAll slots v vector r record) w ∧
        Agrees (s.setAll slots v vector r record) w := by
    apply setAll_kept h
    · intro w hw hpub hne
      exact hslots _ fun heq => hne (h.distinct w hw v hv hpub hpublished heq)
    · intro w hne
      rw [Bool.eq_false_iff]
      intro hbelongs
      have heq := (recordBelongsTo_iff.mp hbelongs).2.symm.trans hidentity
      exact hne (congrArg VectorIdentity.slot heq)
    · intro hpub
      rw [hrecord] at hpub
      cases hpub
  have hgone : ¬published (s.setAll slots v vector r record) v := by
    simp [published, State.setAll, hvector]
  have hstays : ∀ {w}, published (s.setAll slots v vector r record) w → w ≠ v ∧ published s w := by
    intro w hpub
    have hne : w ≠ v := by
      rintro rfl
      exact hgone hpub
    exact ⟨hne, (published_setAll hne).mp hpub⟩
  refine ⟨⟨?_, ?_, ?_, ?_⟩, ?_, ?_⟩
  · intro r' hr' hpub
    have hr : r' ≠ r := by
      rintro rfl
      simp [State.setAll, hrecord] at hpub
    have hpub' : isRecordPublished (s.records r').state = true := by
      simpa [State.setAll, hr] using hpub
    obtain ⟨w, hw, hwpub, hwidentity⟩ := h.member r' hr' hpub'
    have hne : w ≠ v := by
      rintro rfl
      have hbelongs : anyLiveRecord (s.setRecord r record) (vectorIdentity s w) = true := by
        rw [anyLiveRecord_iff]
        refine ⟨r', hr', ?_⟩
        rw [recordBelongsTo_setRecord, if_neg hr]
        exact recordBelongsTo_iff.mpr ⟨hpub', hwidentity⟩
      rw [hlast] at hbelongs
      cases hbelongs
    exact ⟨w, hw, (published_setAll hne).mpr hwpub, member_setAll hr hne hwidentity⟩
  · intro w hw w' hw' hpub hpub' heq
    obtain ⟨hne, hpub⟩ := hstays hpub
    obtain ⟨hne', hpub'⟩ := hstays hpub'
    rw [vectors_setAll hne, vectors_setAll hne'] at heq
    exact h.source w hw w' hw' hpub hpub' heq
  · intro w hw hpub
    obtain ⟨hne, hpub⟩ := hstays hpub
    exact (hkept hw hne hpub).1
  · intro w hw w' hw' hpub hpub' heq
    obtain ⟨hne, hpub⟩ := hstays hpub
    obtain ⟨hne', hpub'⟩ := hstays hpub'
    rw [vectors_setAll hne, vectors_setAll hne'] at heq
    exact h.distinct w hw w' hw' hpub hpub' heq
  · intro w hw hpub
    obtain ⟨hne, hpub⟩ := hstays hpub
    exact (hkept hw hne hpub).2.1
  · intro w hw hpub _
    obtain ⟨hne, hpub⟩ := hstays hpub
    exact (hkept hw hne hpub).2.2

end Vectors

end RooTesting.EspInterrupts
