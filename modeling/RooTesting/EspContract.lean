import RooTesting.EspTables

/-! # The calls of the ESP interrupt adapter keep its tables

Each call ends with the tables linked, whichever of its checks it fails. The exit that takes
a published record back is never taken: the slot of a vector that was just made ready can
always be updated. -/
namespace RooTesting.EspInterrupts
open InterruptController (Word Generation Handle Slot Update kInterruptCapacity allocated enabled
  matchesHandle stateWithGeneration)

variable {s : State} {context : Context}

section Allocation

/-- What an allocation finds for its source: an error and nothing changed, a vector to share,
or a new vector with a slot of its own. -/
theorem acquireVector_cases (s : State) (source : ℤ) (flags : Flags) (context : Context) :
    (∃ error, acquireVector s source flags context = (.error error, s)) ∨
    (∃ v < kVectorCapacity, published s v ∧
      acquireVector s source flags context = (.ok ⟨vectorIdentity s v, none⟩, s)) ∨
    (∃ v epoch handle slots, v < kVectorCapacity ∧
      isVectorPublished (s.vectors v).publication = false ∧
      epoch ≤ kMaxVectorEpoch ∧
      (∀ w < kVectorCapacity, published s w → (s.vectors w).source ≠ source) ∧
      registerInterrupt s.slots (some dispatchSourceVector) v false context =
        (.registered handle, slots) ∧
      acquireVector s source flags context =
        (.ok ⟨⟨v, publishedVectorEpoch epoch⟩, some handle⟩,
          (s.setSlots slots).setVector v
            { s.vectors v with
              source := source
              controllerSlot := handle.slot
              controllerGeneration := handle.generation
              flags := flags
              level := selectLevel flags })) := by
  rw [acquireVector]
  cases hsource : findSourceVector s source with
  | some v =>
    obtain ⟨hv, hpublished, -⟩ := findSourceVector_some hsource
    by_cases hcompatible : isCompatibleSharedVector (s.vectors v) flags = true
    · exact .inr (.inl ⟨v, hv, hpublished, by simp [hcompatible, vectorIdentity]⟩)
    · exact .inl ⟨.notFound, by simp [hcompatible]⟩
  | none =>
    cases hfree : findFreeVector s with
    | none => exact .inl ⟨.notFound, rfl⟩
    | some v =>
      obtain ⟨hv, hunpublished⟩ := findFreeVector_some hfree
      cases hepoch : nextVectorEpoch (s.vectors v).publication with
      | none => exact .inl ⟨.notFound, by simp only [hepoch]⟩
      | some epoch =>
        have hbound : epoch ≤ kMaxVectorEpoch := by
          obtain ⟨hlt, rfl⟩ := nextVectorEpoch_eq_some.mp hepoch
          exact (succ_spec hlt).2
        simp only [hepoch]
        cases hregister : registerInterrupt s.slots (some dispatchSourceVector) v false context with
        | mk result slots =>
          cases result with
          | registered handle =>
            exact .inr (.inr ⟨v, epoch, handle, slots, hv, hunpublished, hbound,
              fun w hw hpub => findSourceVector_none hsource hw hpub, hregister, rfl⟩)
          | _ =>
            have hsame := registerInterrupt_failed hregister (fun handle => by simp)
            subst hsame
            exact .inl ⟨_, rfl⟩

/-- What a request comes to: an error before anything is written, or a record to publish. -/
theorem allocateInterrupt_cases (s : State) (q : Request) (context : Context) :
    (∃ error, allocateInterrupt s q context = (.error error, s)) ∨
    ∃ r epoch membership s', r < kRegistrationCapacity ∧
      isRecordPublished (s.records r).state = false ∧
      recordEpoch (s.records r).state < epoch ∧ epoch ≤ kMaxRecordEpoch ∧
      acquireVector s q.source (normalizeFlags q.flags) context = (.ok membership, s') ∧
      allocateInterrupt s q context = concludeAllocation (publish s' r
        (newRecord q (normalizeFlags q.flags) epoch membership.identity) membership)
        r membership context := by
  rw [allocateInterrupt]
  cases hcheck : checkRequest q context with
  | some error => exact .inl ⟨error, rfl⟩
  | none =>
    cases hrecord : findFreeRecord s with
    | none => exact .inl ⟨.notFound, rfl⟩
    | some r =>
      obtain ⟨hr, hunused⟩ := findFreeRecord_some hrecord
      cases hepoch : nextRecordEpoch (s.records r).state with
      | none => exact .inl ⟨.notFound, by simp only [hepoch]⟩
      | some epoch =>
        obtain ⟨hlt, heq⟩ := nextRecordEpoch_eq_some.mp hepoch
        obtain ⟨hgrows, hbound⟩ := succ_spec hlt
        simp only [hepoch]
        rcases acquireVector_cases s q.source (normalizeFlags q.flags) context with
          ⟨error, hacquire⟩ | ⟨v, hv, hpub, hacquire⟩ |
          ⟨v, vectorEpoch, handle, slots, hv, hpub, hvectorEpoch, hsource, hregister, hacquire⟩
        · exact .inl ⟨error, by rw [hacquire]⟩
        all_goals
          refine .inr ⟨r, epoch, _, _, hr, hunused, heq ▸ hgrows, heq ▸ hbound, hacquire, ?_⟩
          simp only [hacquire]

theorem newRecord_published {q : Request} {flags : Flags} {epoch : Word}
    {identity : VectorIdentity} (hepoch : epoch ≤ kMaxRecordEpoch) :
    isRecordPublished (newRecord q flags epoch identity).state = true :=
  (newRecord_spec hepoch _).2.1

/-- At the update of the controller slot only that slot is still to be repaired. -/
theorem publish_consistent (h : Consistent s) {q : Request} {flags : Flags} {r : ℕ} {epoch : Word}
    {membership : Membership} {s' : State} (hr : r < kRegistrationCapacity)
    (hunused : isRecordPublished (s.records r).state = false) (hepoch : epoch ≤ kMaxRecordEpoch)
    (hacquire : acquireVector s q.source flags context = (.ok membership, s')) :
    ∃ v < kVectorCapacity,
      membership.identity = vectorIdentity
        (publish s' r (newRecord q flags epoch membership.identity) membership) v ∧
      published (publish s' r (newRecord q flags epoch membership.identity) membership) v ∧
      ConsistentExcept (publish s' r (newRecord q flags epoch membership.identity) membership)
        (some v) := by
  rcases acquireVector_cases s q.source flags context with
    ⟨error, heq⟩ | ⟨v, hv, hpub, heq⟩ |
    ⟨v, vectorEpoch, handle, slots, hv, hfree, hvectorEpoch, hsource, hregister, heq⟩
  · rw [hacquire] at heq
    cases heq
  · rw [hacquire] at heq
    obtain ⟨rfl, rfl⟩ : membership = ⟨vectorIdentity s v, none⟩ ∧ s' = s := by
      simpa using heq
    have hpublish : publish s' r (newRecord q flags epoch (vectorIdentity s' v))
        ⟨vectorIdentity s' v, none⟩ =
        s'.setRecord r (newRecord q flags epoch (vectorIdentity s' v)) := rfl
    refine ⟨v, hv, ?_⟩
    simp only [hpublish]
    refine ⟨rfl, hpub, setRecord_consistent h hv hpub ?_ (fun _ => rfl) ?_⟩
    · intro hpublished
      rw [hunused] at hpublished
      cases hpublished
    · rw [anyLiveRecord_iff]
      refine ⟨r, hr, ?_⟩
      rw [recordBelongsTo_setRecord, if_pos rfl, newRecord_published hepoch]
      simp [newRecord]
  · rw [hacquire] at heq
    obtain ⟨rfl, rfl⟩ := Prod.mk.inj heq |>.imp_left Except.ok.inj
    obtain ⟨hslot, hvalid, hallocated, hmatches, hothers⟩ := registerInterrupt_registered hregister
    obtain ⟨-, hpublished⟩ := publishedVectorEpoch_spec hvectorEpoch
    set vector : SourceVector :=
      ⟨publishedVectorEpoch vectorEpoch, q.source, handle.slot, handle.generation, flags,
        selectLevel flags⟩ with hvector
    set record := newRecord q flags epoch ⟨v, publishedVectorEpoch vectorEpoch⟩ with hrecord
    have hpublish : publish ((s.setSlots slots).setVector v
          { s.vectors v with
            source := q.source
            controllerSlot := handle.slot
            controllerGeneration := handle.generation
            flags := flags
            level := selectLevel flags }) r record
          ⟨⟨v, publishedVectorEpoch vectorEpoch⟩, some handle⟩ =
        s.setAll slots v vector r record := by
      simp [publish, setPublication, State.setAll, State.setVector, State.setRecord, State.setSlots,
        hvector]
    have hvectorAt : (s.setAll slots v vector r record).vectors v = vector := by
      simp [State.setAll]
    refine ⟨v, hv, ?_⟩
    simp only [hpublish]
    refine ⟨by rw [vectorIdentity, hvectorAt], by rw [published, hvectorAt]; exact hpublished, ?_⟩
    apply addVector_consistent h hv hr hfree hunused hpublished (newRecord_published hepoch) rfl
      hsource hothers hallocated
    refine ⟨?_, ?_, ?_⟩
    · rw [controllerHandle, hvectorAt]
      exact hvalid
    · rw [hvectorAt]
      exact hslot
    · rw [controllerWord, controllerHandle, hvectorAt]
      exact hmatches

theorem acquireVector_records {source : ℤ} {flags : Flags} {membership : Membership} {s' : State}
    (hacquire : acquireVector s source flags context = (.ok membership, s')) :
    s'.records = s.records := by
  rcases acquireVector_cases s source flags context with
    ⟨error, heq⟩ | ⟨v, hv, hpub, heq⟩ | ⟨v, epoch, handle, slots, hv, hfree, hepoch, _, _, heq⟩
  all_goals
    rw [hacquire] at heq
    cases heq
  · rfl
  · rfl

theorem publish_records (s : State) (r : ℕ) (record : Record) (membership : Membership) :
    (publish s r record membership).records = Function.update s.records r record := by
  rw [publish]
  split_ifs <;> rfl

/-- An allocation keeps the tables linked, and one that fails changes nothing at all. -/
theorem allocateInterrupt_spec (h : Consistent s) (q : Request) (context : Context) :
    (∃ error, allocateInterrupt s q context = (.error error, s)) ∨
    ∃ r s', allocateInterrupt s q context = (.ok r, s') ∧ Consistent s' ∧
      recordEpoch (s.records r).state < recordEpoch (s'.records r).state ∧
      ∀ r', r' ≠ r → s'.records r' = s.records r' := by
  rcases allocateInterrupt_cases s q context with
    hfailed | ⟨r, epoch, membership, s', hr, hunused, hgrows, hepoch, hacquire, heq⟩
  · exact .inl hfailed
  · obtain ⟨v, hv, hidentity, hpublished, hconsistent⟩ :=
      publish_consistent h hr hunused hepoch hacquire
    obtain ⟨s'', hupdate, hrepaired, hrecords⟩ := updateVectorEnablement_spec hconsistent hv hpublished
    rw [← hidentity] at hupdate
    rw [concludeAllocation, hupdate] at heq
    rw [publish_records, acquireVector_records hacquire] at hrecords
    refine .inr ⟨r, s'', heq, hrepaired, ?_, ?_⟩
    · rw [hrecords, Function.update_self]
      exact lt_of_lt_of_eq hgrows (newRecord_spec hepoch _).1.symm
    · intro r' hne
      rw [hrecords, Function.update_of_ne hne]

end Allocation

section Release

variable {r : ℕ}

theorem desired_spec (state : Word) (enable : Bool) :
    isRecordPublished (if enable then state ||| kRecordEnabled else state &&& ~~~kRecordEnabled) =
      isRecordPublished state ∧
    recordEpoch (if enable then state ||| kRecordEnabled else state &&& ~~~kRecordEnabled) =
      recordEpoch state := by
  cases enable with
  | true =>
    obtain ⟨hepoch, hpublished, -⟩ := record_or_mask_spec state (i := 1) (by omega)
    exact ⟨hpublished.trans (by simp), hepoch⟩
  | false =>
    obtain ⟨hepoch, hpublished, -⟩ := record_and_not_mask_spec state (i := 1) (by omega)
    exact ⟨hpublished.trans (by simp), hepoch⟩

theorem setRecordEnabled_consistent (h : Consistent s) (hr : r < kRegistrationCapacity)
    (enable : Bool) : Consistent (setRecordEnabled s r enable).2 := by
  rw [setRecordEnabled]
  by_cases hlive : isRecordPublished (s.records r).state = true
  · obtain ⟨v, hv, hpublished, hidentity⟩ := h.member r hr hlive
    simp only [if_pos hlive]
    set record : Record := { s.records r with
      state := if enable then (s.records r).state ||| kRecordEnabled
        else (s.records r).state &&& ~~~kRecordEnabled } with hrecord
    have hstill : isRecordPublished record.state = true :=
      (desired_spec _ enable).1.trans hlive
    have hexcept : ConsistentExcept (s.setRecord r record) (some v) := by
      have hnew : (⟨record.vectorSlot, record.vectorPublication⟩ : VectorIdentity) =
          vectorIdentity s v := hidentity
      apply setRecord_consistent h hv hpublished (fun _ => hidentity) (fun _ => hnew)
      rw [anyLiveRecord_iff]
      refine ⟨r, hr, ?_⟩
      rw [recordBelongsTo_setRecord, if_pos rfl, hstill]
      simpa [recordIdentity] using hidentity
    obtain ⟨s', hupdate, hrepaired, -⟩ := updateVectorEnablement_spec hexcept hv hpublished
    rw [hidentity]
    change updateVectorEnablement _ (vectorIdentity s v) = _ at hupdate
    rw [hupdate]
    exact hrepaired
  · rw [if_neg hlive]
    exact h

theorem espIntrSetEnabled_consistent (h : Consistent s) (handle : Option ℕ) (enable : Bool) :
    Consistent (espIntrSetEnabled s handle enable).2 := by
  rw [espIntrSetEnabled]
  cases hfind : findRecord handle with
  | none => exact h
  | some r => exact setRecordEnabled_consistent h (findRecord_some hfind) enable

/-- A vector is removed with its slot, which no other vector uses. -/
theorem removeVector_eq (h : Linked s) {v : ℕ} (hv : v < kVectorCapacity)
    (hpublished : published s v) (htask : context.task = true) (record : Record) :
    ∃ slots vector, isVectorPublished vector.publication = false ∧
      (∀ i, i ≠ (s.vectors v).controllerSlot → slots i = s.slots i) ∧
      removeVector (s.setRecord r record) (vectorIdentity s v) context =
        (true, s.setAll slots v vector r record) := by
  obtain ⟨hvalid, hbound, hcurrent⟩ := h.registration v hv hpublished
  have hload : loadVectorControllerHandle (s.setRecord r record) (vectorIdentity s v) =
      some (controllerHandle s v) := by
    rw [← loadVectorControllerHandle_eq h hv hpublished]
    rfl
  have hunregister := unregisterInterrupt_matched hvalid hbound htask hcurrent
  refine ⟨Function.update s.slots (s.vectors v).controllerSlot
      ⟨stateWithGeneration (s.vectors v).controllerGeneration 0, none, 0⟩,
    ⟨unpublished (s.vectors v).publication, 0, noSlot, 0, 0, 0⟩, (unpublished_spec _).2,
    fun i hi => Function.update_of_ne hi _ _, ?_⟩
  simp only [removeVector, hload, setPublication_slots, setRecord_slots, hunregister]
  simp [State.setAll, State.setVector, State.setRecord, State.setSlots, setPublication,
    vectorIdentity, controllerHandle]

theorem espIntrFree_consistent (h : Consistent s) (handle : Option ℕ) (context : Context) :
    Consistent (espIntrFree s handle context).2 := by
  rw [espIntrFree]
  by_cases htask : context.task = true
  swap
  · rw [if_pos (by simpa using htask)]
    exact h
  rw [if_neg (by simp [htask])]
  cases hfind : findRecord handle with
  | none => exact h
  | some r =>
    have hr := findRecord_some hfind
    by_cases hlive : isRecordPublished (s.records r).state = true
    swap
    · simp only [if_neg hlive]
      exact h
    simp only [if_pos hlive]
    obtain ⟨v, hv, hpublished, hidentity⟩ := h.member r hr hlive
    rw [hidentity, clearRecord]
    set record : Record := ⟨recordState (recordEpoch (s.records r).state) 0, noSlot, 0, none, 0, 0, 0⟩
      with hrecord
    have hcleared : isRecordPublished record.state = false := (freedRecord_spec _).2.1
    cases hother : anyLiveRecord (s.setRecord r record) (vectorIdentity s v) with
    | true =>
      have hexcept : ConsistentExcept (s.setRecord r record) (some v) := by
        apply setRecord_consistent h hv hpublished (fun _ => hidentity) _ hother
        intro hpub
        rw [hcleared] at hpub
        cases hpub
      obtain ⟨s', hupdate, hrepaired, -⟩ := updateVectorEnablement_spec hexcept hv hpublished
      change updateVectorEnablement _ (vectorIdentity s v) = _ at hupdate
      rw [if_pos rfl, hupdate]
      exact hrepaired
    | false =>
      obtain ⟨slots, vector, hvector, hslots, hremove⟩ :=
        removeVector_eq (r := r) h.toLinked hv hpublished htask record
      rw [if_neg (by simp), hremove]
      exact removeVector_consistent h hv hpublished hidentity hvector hcleared hother hslots

end Release

section Runs

theorem execute_consistent (h : Consistent s) (call : Call) : Consistent (execute s call).2 := by
  have hallocate : ∀ q context, Consistent (allocateInterrupt s q context).2 := by
    intro q context
    rcases allocateInterrupt_spec h q context with ⟨error, heq⟩ | ⟨r, s', heq, hconsistent, -⟩
    · rw [heq]
      exact h
    · rw [heq]
      exact hconsistent
  cases call with
  | espIntrAlloc source flags handler argument returnHandle context => exact hallocate _ _
  | espIntrAllocIntrstatus request returnHandle context => exact hallocate _ _
  | espIntrFree handle context => exact espIntrFree_consistent h handle context
  | espIntrEnable handle => exact espIntrSetEnabled_consistent h handle true
  | espIntrDisable handle => exact espIntrSetEnabled_consistent h handle false

theorem start_consistent (slots : ℕ → Slot) : Consistent (start slots) := by
  have hempty : ∀ v, ¬published (start slots) v := by
    intro v
    simp [published, start, isVectorPublished]
  refine ⟨⟨?_, ?_, ?_, ?_⟩, ?_, ?_⟩
  · intro r _ hpub
    simp [start, isRecordPublished] at hpub
  all_goals
    intro v _
    first
      | exact fun w _ hpub => absurd hpub (hempty v)
      | exact fun hpub => absurd hpub (hempty v)

theorem run_consistent (h : Consistent s) (calls : List Call) : Consistent (run s calls) := by
  induction calls generalizing s with
  | nil => exact h
  | cons call calls ih => exact ih (execute_consistent h call)

end Runs

section Epochs

/-- The identity that a call gives out: a record and its epoch. -/
def granted (s : State) (call : Call) : List (ℕ × Word) :=
  match call.request with
  | none => []
  | some (q, context) =>
    match allocateInterrupt s q context with
    | (.error _, _) => []
    | (.ok r, s) => [(r, recordEpoch (s.records r).state)]

/-- The identities that a sequence of calls gives out, in their order. -/
def grants (s : State) : List Call → List (ℕ × Word)
  | [] => []
  | call :: calls => granted s call ++ grants (execute s call).2 calls

variable {r : ℕ}

theorem updateVectorEnablement_records (s : State) (identity : VectorIdentity) :
    (updateVectorEnablement s identity).2.records = s.records := by
  have hupdate : ∀ op handle, (updateInterrupt s op handle).2.records = s.records := by
    intro op handle
    simp only [updateInterrupt]
    split_ifs <;> rfl
  rw [updateVectorEnablement]
  split
  · rfl
  · exact hupdate _ _

theorem setRecordEnabled_epoch (s : State) (r' : ℕ) (enable : Bool) (r : ℕ) :
    recordEpoch ((setRecordEnabled s r' enable).2.records r).state =
      recordEpoch (s.records r).state := by
  rw [setRecordEnabled]
  by_cases hlive : isRecordPublished (s.records r').state = true
  · simp only [if_pos hlive, updateVectorEnablement_records, setRecord_records]
    by_cases hr : r = r'
    · subst hr
      rw [Function.update_self]
      exact (desired_spec _ enable).2
    · rw [Function.update_of_ne hr]
  · rw [if_neg hlive]

theorem removeVector_records (s : State) (identity : VectorIdentity) (context : Context) :
    (removeVector s identity context).2.records = s.records := by
  rw [removeVector]
  split
  rfl

theorem espIntrFree_epoch (s : State) (handle : Option ℕ) (context : Context) (r : ℕ) :
    recordEpoch ((espIntrFree s handle context).2.records r).state =
      recordEpoch (s.records r).state := by
  have hrecords : ∀ r' identity, (if anyLiveRecord (clearRecord s r') identity then
      updateVectorEnablement (clearRecord s r') identity
      else removeVector (clearRecord s r') identity context).2.records =
        (clearRecord s r').records := by
    intro r' identity
    split_ifs
    · exact updateVectorEnablement_records _ _
    · exact removeVector_records _ _ _
  rw [espIntrFree]
  by_cases htask : context.task = true
  swap
  · rw [if_pos (by simpa using htask)]
  rw [if_neg (by simp [htask])]
  cases hfind : findRecord handle with
  | none => rfl
  | some r' =>
    by_cases hlive : isRecordPublished (s.records r').state = true
    · simp only [if_pos hlive]
      rw [hrecords, clearRecord, setRecord_records]
      by_cases hr : r = r'
      · subst hr
        rw [Function.update_self]
        exact (freedRecord_spec _).1
      · rw [Function.update_of_ne hr]
    · simp only [if_neg hlive]

theorem execute_request {call : Call} {q : Request} (hcall : call.request = some (q, context)) :
    (execute s call).2 = (allocateInterrupt s q context).2 ∧
      ∀ r, (allocateInterrupt s q context).1 = .ok r → (execute s call).1.code = .ok := by
  cases call with
  | espIntrAlloc source flags handler argument returnHandle context' =>
    cases hcall
    refine ⟨rfl, ?_⟩
    intro r hr
    simp only [execute, hr]
    rfl
  | espIntrAllocIntrstatus request returnHandle context' =>
    cases hcall
    refine ⟨rfl, ?_⟩
    intro r hr
    simp only [execute, hr]
    rfl
  | _ => cases hcall

/-- A call that allocates raises the epoch of one record, and no call lowers one. -/
theorem execute_epoch (h : Consistent s) (call : Call) :
    (∀ r, recordEpoch (s.records r).state ≤ recordEpoch ((execute s call).2.records r).state) ∧
    (granted s call = [] ∨ ∃ r, recordEpoch (s.records r).state <
        recordEpoch ((execute s call).2.records r).state ∧
      granted s call = [(r, recordEpoch ((execute s call).2.records r).state)]) := by
  cases hcall : call.request with
  | none =>
    refine ⟨?_, .inl (by rw [granted, hcall])⟩
    intro r
    cases call with
    | espIntrAlloc | espIntrAllocIntrstatus => cases hcall
    | espIntrFree handle context => exact BitVec.le_of_eq (espIntrFree_epoch s handle context r).symm
    | espIntrEnable handle =>
      cases hfind : findRecord handle with
      | none => simp [execute, espIntrSetEnabled, hfind]
      | some r' => simp [execute, espIntrSetEnabled, hfind, setRecordEnabled_epoch]
    | espIntrDisable handle =>
      cases hfind : findRecord handle with
      | none => simp [execute, espIntrSetEnabled, hfind]
      | some r' => simp [execute, espIntrSetEnabled, hfind, setRecordEnabled_epoch]
  | some request =>
    obtain ⟨q, context⟩ := request
    rw [(execute_request hcall).1, granted, hcall]
    rcases allocateInterrupt_spec h q context with
      ⟨error, heq⟩ | ⟨r, s', heq, -, hgrows, hothers⟩
    · simp only [heq]
      exact ⟨fun r => BitVec.le_refl _, .inl trivial⟩
    · simp only [heq]
      refine ⟨?_, .inr ⟨r, hgrows, rfl⟩⟩
      intro r'
      by_cases hne : r' = r
      · subst hne
        exact BitVec.le_of_lt hgrows
      · rw [hothers r' hne]
        exact BitVec.le_refl _

/-- An identity given out later has an epoch that its record had not reached. -/
theorem grants_later (h : Consistent s) (calls : List Call) :
    ∀ identity ∈ grants s calls, recordEpoch (s.records identity.1).state < identity.2 := by
  induction calls generalizing s with
  | nil => simp [grants]
  | cons call calls ih =>
    intro identity hidentity
    obtain ⟨hmono, hgranted⟩ := execute_epoch h call
    rcases List.mem_append.mp hidentity with hnow | hlater
    · rcases hgranted with hnone | ⟨r, hgrows, heq⟩
      · rw [hnone] at hnow
        cases hnow
      · rw [heq, List.mem_singleton] at hnow
        subst hnow
        exact hgrows
    · exact Nat.lt_of_le_of_lt (hmono _) (ih (execute_consistent h call) identity hlater)

theorem grants_increasing (h : Consistent s) (calls : List Call) :
    (grants s calls).Pairwise fun given later => given.1 = later.1 → given.2 < later.2 := by
  induction calls generalizing s with
  | nil => exact List.Pairwise.nil
  | cons call calls ih =>
    have hnext := execute_consistent h call
    refine List.pairwise_append.mpr ⟨?_, ih hnext, ?_⟩
    · rcases (execute_epoch h call).2 with hnone | ⟨r, -, heq⟩
      · rw [hnone]
        exact List.Pairwise.nil
      · rw [heq]
        exact List.pairwise_singleton _ _
    · intro given hgiven later hlater hsame
      rcases (execute_epoch h call).2 with hnone | ⟨r, -, heq⟩
      · rw [hnone] at hgiven
        cases hgiven
      · rw [heq, List.mem_singleton] at hgiven
        subst hgiven
        have hlt := grants_later hnext calls later hlater
        rwa [← hsame] at hlt

end Epochs

/-- After any sequence of calls over any controller: one published vector for a source, a
vector published exactly while it has live records, its controller slot enabled exactly while
one of these is, identities given out with epochs that only grow, and a failed allocation
that leaves both tables and the controller as they were. -/
theorem adapter_tables (slots : ℕ → Slot) (calls : List Call) :
    let s := run (start slots) calls
    (∀ v < kVectorCapacity, ∀ w < kVectorCapacity, published s v → published s w →
      (s.vectors v).source = (s.vectors w).source → v = w) ∧
    (∀ v < kVectorCapacity, published s v ↔ ∃ r < kRegistrationCapacity,
      recordBelongsTo s r (vectorIdentity s v) = true) ∧
    (∀ r < kRegistrationCapacity, isRecordPublished (s.records r).state = true →
      ∃ v < kVectorCapacity, published s v ∧ recordBelongsTo s r (vectorIdentity s v) = true) ∧
    (∀ v < kVectorCapacity, published s v →
      matchesHandle (controllerWord s v) (controllerHandle s v) = true ∧
      (enabled (controllerWord s v) = true ↔ ∃ r < kRegistrationCapacity,
        recordBelongsTo s r (vectorIdentity s v) = true ∧
        isRecordEnabled (s.records r).state = true)) ∧
    (grants (start slots) calls).Pairwise (fun given later =>
      given.1 = later.1 → given.2 < later.2) ∧
    ∀ call : Call, call.request.isSome = true → (execute s call).1.code ≠ .ok →
      (execute s call).2 = s := by
  intro s
  have h : Consistent s := run_consistent (start_consistent slots) calls
  refine ⟨h.source, ?_, ?_, ?_, grants_increasing (start_consistent slots) calls, ?_⟩
  · intro v hv
    constructor
    · intro hpublished
      exact anyLiveRecord_iff.mp (h.populated v hv hpublished)
    · rintro ⟨r, hr, hbelongs⟩
      obtain ⟨hlive, hidentity⟩ := recordBelongsTo_iff.mp hbelongs
      obtain ⟨w, hw, hpublished, hidentity'⟩ := h.member r hr hlive
      obtain rfl : v = w := congrArg VectorIdentity.slot (hidentity.symm.trans hidentity')
      exact hpublished
  · intro r hr hlive
    obtain ⟨v, hv, hpublished, hidentity⟩ := h.member r hr hlive
    exact ⟨v, hv, hpublished, recordBelongsTo_iff.mpr ⟨hlive, hidentity⟩⟩
  · intro v hv hpublished
    refine ⟨(h.registration v hv hpublished).current, ?_⟩
    rw [h.agrees v hv hpublished (by simp)]
    exact anyEnabledRecord_iff
  · intro call hcall hcode
    obtain ⟨⟨q, context⟩, hrequest⟩ := Option.isSome_iff_exists.mp hcall
    obtain ⟨hstate, hok⟩ := execute_request (s := s) hrequest
    rw [hstate]
    rcases allocateInterrupt_spec h q context with ⟨error, heq⟩ | ⟨r, s', heq, -⟩
    · rw [heq]
    · exact absurd (hok r (congrArg Prod.fst heq)) hcode

end RooTesting.EspInterrupts
