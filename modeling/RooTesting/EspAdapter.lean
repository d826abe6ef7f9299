import RooTesting.EspWords
import RooTesting.InterruptController

/-! # The ESP interrupt adapter

A table of vectors, each serving one interrupt source through one slot of the controller, and
a table of records, each serving one user's handler. Allocation, free, enable and disable run
on a task inside a critical section, so each call is one function here. A
compare-and-swap in such a call that fails for no reason is tried again on the same word. -/
namespace RooTesting.EspInterrupts
open InterruptController (Word Generation Handle Slot Update kInterruptCapacity allocated enabled
  pending hasUnusedGeneration registered stateWithGeneration matchesHandle)

def kVectorCapacity : ℕ := 64
def kRegistrationCapacity : ℕ := 64

abbrev Flags := BitVec 32

def espIntrFlagLevel (level : ℕ) : Flags := 1#32 <<< level
def espIntrFlagNmi : Flags := espIntrFlagLevel 7
def espIntrFlagShared : Flags := 1#32 <<< 8
def espIntrFlagEdge : Flags := 1#32 <<< 9
def espIntrFlagIram : Flags := 1#32 <<< 10
def espIntrFlagIntrdisabled : Flags := 1#32 <<< 11
def espIntrFlagLowmed : Flags := espIntrFlagLevel 1 ||| espIntrFlagLevel 2 ||| espIntrFlagLevel 3
def espIntrFlagHigh : Flags :=
  espIntrFlagLevel 4 ||| espIntrFlagLevel 5 ||| espIntrFlagLevel 6 ||| espIntrFlagNmi
def espIntrFlagLevelmask : Flags := espIntrFlagLowmed ||| espIntrFlagHigh

/-- The flags have one of the mask. -/
def has (flags mask : Flags) : Bool := flags &&& mask ≠ 0

/-- A handler of a record: the one that does nothing, or the user's. -/
inductive Handler where
  | noop
  | user (handler : ℕ)
  deriving DecidableEq

structure SourceVector where
  publication : Word
  source : ℤ
  controllerSlot : ℕ
  controllerGeneration : Generation
  flags : Flags
  level : ℕ

structure VectorIdentity where
  slot : ℕ
  publication : Word
  deriving DecidableEq

/-- A registration. A handler of `none` is the null pointer. -/
structure Record where
  state : Word
  vectorSlot : ℕ
  vectorPublication : Word
  handler : Option Handler
  argument : ℕ
  statusRegister : BitVec 32
  statusMask : BitVec 32

/-- Both tables, the slots of the controller and the port's request to dispatch. -/
structure State where
  vectors : ℕ → SourceVector
  records : ℕ → Record
  slots : ℕ → Slot
  requested : Bool

/-- `static_cast<uint32_t>(-1)`. -/
def noSlot : ℕ := 2 ^ 32 - 1

inductive EspErr where
  | ok | fail | invalidArg | invalidState | notFound
  deriving DecidableEq

/-- What the port answers during a call: whether a task makes it, and whether the
dispatcher of the controller can be installed. -/
structure Context where
  task : Bool
  installed : Bool

section Controller

inductive InterruptRegistrationResult where
  | registered (handle : Handle)
  | invalidArgument | wrongContext | noCapacity | backendUnavailable

variable (slots : ℕ → Slot)

def registerInterrupt (handler : Option ℕ) (argument : ℕ) (initiallyEnabled : Bool)
    (context : Context) : InterruptRegistrationResult × (ℕ → Slot) :=
  match handler with
  | none => (.invalidArgument, slots)
  | some handler =>
    if !context.task then (.wrongContext, slots)
    else if !context.installed then (.backendUnavailable, slots)
    else
      match (List.range kInterruptCapacity).find? fun i =>
          !allocated (slots i).state && hasUnusedGeneration (slots i).state with
      | none => (.noCapacity, slots)
      | some i =>
        let generation := InterruptController.generation (slots i).state + 1
        (.registered ⟨i, generation⟩,
          Function.update slots i ⟨registered generation initiallyEnabled, some handler, argument⟩)

def unregisterInterrupt (handle : Handle) (context : Context) : Bool × (ℕ → Slot) :=
  if !context.task || !handle.isValid || kInterruptCapacity ≤ handle.slot then (false, slots)
  else if matchesHandle (slots handle.slot).state handle then
    (true, Function.update slots handle.slot ⟨stateWithGeneration handle.generation 0, none, 0⟩)
  else (false, slots)

end Controller

/-- Enables, disables or pends a slot of the controller. -/
def updateInterrupt (s : State) (op : Update) (handle : Handle) : Bool × State :=
  if !handle.isValid || kInterruptCapacity ≤ handle.slot then (false, s)
  else
    let slot := s.slots handle.slot
    if matchesHandle slot.state handle then
      (true, { s with
        slots := Function.update s.slots handle.slot { slot with state := op.apply slot.state }
        requested := s.requested || op.requests (op.apply slot.state) })
    else (false, s)

section Tables

variable (s : State)

def findSourceVector (source : ℤ) : Option ℕ :=
  (List.range kVectorCapacity).find? fun v =>
    isVectorPublished (s.vectors v).publication && (s.vectors v).source = source

/-- A position at its maximum epoch is retired even after publication clears. -/
def findFreeVector : Option ℕ :=
  (List.range kVectorCapacity).find? fun v =>
    !isVectorPublished (s.vectors v).publication &&
      vectorEpoch (s.vectors v).publication < kMaxVectorEpoch

def findFreeRecord : Option ℕ :=
  (List.range kRegistrationCapacity).find? fun r =>
    !isRecordPublished (s.records r).state && recordEpoch (s.records r).state < kMaxRecordEpoch

/-- A handle is null or an address; the addresses below the capacity are the records'. -/
def findRecord (handle : Option ℕ) : Option ℕ :=
  handle.bind fun address => if address < kRegistrationCapacity then some address else none

def loadVectorControllerHandle (identity : VectorIdentity) : Option Handle :=
  if kVectorCapacity ≤ identity.slot then none
  else
    let vector := s.vectors identity.slot
    if vector.publication ≠ identity.publication || !isVectorPublished vector.publication then none
    else
      let handle : Handle := ⟨vector.controllerSlot, vector.controllerGeneration⟩
      if handle.isValid then some handle else none

def recordIdentity (r : ℕ) : VectorIdentity :=
  ⟨(s.records r).vectorSlot, (s.records r).vectorPublication⟩

def recordBelongsTo (r : ℕ) (identity : VectorIdentity) : Bool :=
  isRecordPublished (s.records r).state && recordIdentity s r = identity

def anyLiveRecord (identity : VectorIdentity) : Bool :=
  (List.range kRegistrationCapacity).any fun r => recordBelongsTo s r identity

def anyEnabledRecord (identity : VectorIdentity) : Bool :=
  (List.range kRegistrationCapacity).any fun r =>
    isRecordEnabled (s.records r).state && recordBelongsTo s r identity

def updateVectorEnablement (identity : VectorIdentity) : Bool × State :=
  match loadVectorControllerHandle s identity with
  | none => (false, s)
  | some handle => updateInterrupt s (if anyEnabledRecord s identity then .enable else .disable) handle

def State.setVector (v : ℕ) (vector : SourceVector) : State :=
  { s with vectors := Function.update s.vectors v vector }

def State.setRecord (r : ℕ) (record : Record) : State :=
  { s with records := Function.update s.records r record }

def State.setSlots (slots : ℕ → Slot) : State := { s with slots := slots }

end Tables

def normalizeFlags (flags : Flags) : Flags :=
  if has flags espIntrFlagLevelmask then flags
  else flags ||| if has flags espIntrFlagShared then espIntrFlagLevel 1 else espIntrFlagLowmed

def selectLevel (flags : Flags) : ℕ :=
  ((List.range' 1 7).find? fun level => has flags (espIntrFlagLevel level)).getD 0

def isCompatibleSharedVector (vector : SourceVector) (flags : Flags) : Bool :=
  if !has vector.flags espIntrFlagShared || !has flags espIntrFlagShared then false
  else if vector.flags &&& espIntrFlagIram ≠ flags &&& espIntrFlagIram then false
  else has flags (espIntrFlagLevel vector.level)

def registrationError : InterruptRegistrationResult → EspErr
  | .registered _ => .ok
  | .invalidArgument => .invalidArg
  | .noCapacity => .notFound
  | .wrongContext => .invalidState
  | .backendUnavailable => .invalidState

structure Request where
  source : ℤ
  flags : Flags
  statusRegister : BitVec 32
  statusMask : BitVec 32
  handler : Option ℕ
  argument : ℕ

/-- The checks before the critical section. -/
def checkRequest (q : Request) (context : Context) : Option EspErr :=
  if has q.flags espIntrFlagShared && (has q.flags espIntrFlagEdge || q.handler.isNone || q.source < 0)
  then some .invalidArg
  else if has q.flags espIntrFlagHigh && q.handler.isSome then some .invalidArg
  else if q.statusRegister ≠ 0 && q.statusMask = 0 then some .invalidArg
  else if !context.task then some .invalidState
  else none

/-- The address of `DispatchSourceVector`, which the adapter registers with a vector as its
argument. -/
def dispatchSourceVector : ℕ := 0

/-- The vector that a new record joins, and the controller handle when the vector is new. -/
structure Membership where
  identity : VectorIdentity
  registration : Option Handle

/-- The vector that serves the source, or a free one that is made ready but not published. -/
def acquireVector (s : State) (source : ℤ) (flags : Flags) (context : Context) :
    Except EspErr Membership × State :=
  match findSourceVector s source with
  | some v =>
    if isCompatibleSharedVector (s.vectors v) flags then
      (.ok ⟨⟨v, (s.vectors v).publication⟩, none⟩, s)
    else (.error .notFound, s)
  | none =>
    match findFreeVector s with
    | none => (.error .notFound, s)
    | some v =>
      match nextVectorEpoch (s.vectors v).publication with
      | none => (.error .notFound, s)
      | some epoch =>
        match registerInterrupt s.slots (some dispatchSourceVector) v false context with
        | (.registered handle, slots) =>
          (.ok ⟨⟨v, publishedVectorEpoch epoch⟩, some handle⟩,
            (s.setSlots slots).setVector v
              { s.vectors v with
                source := source
                controllerSlot := handle.slot
                controllerGeneration := handle.generation
                flags := flags
                level := selectLevel flags })
        | (result, slots) => (.error (registrationError result), s.setSlots slots)

/-- The new record, complete with its state word. -/
def newRecord (q : Request) (flags : Flags) (epoch : Word) (identity : VectorIdentity) : Record where
  state := recordState epoch (newRecordFlags (!has flags espIntrFlagIntrdisabled))
  vectorSlot := identity.slot
  vectorPublication := identity.publication
  handler := some (q.handler.elim .noop .user)
  argument := q.argument
  -- real non-shared dispatch ignores intrstatus metadata
  statusRegister := if has flags espIntrFlagShared then q.statusRegister else 0
  statusMask := if has flags espIntrFlagShared then q.statusMask else 0

def setPublication (s : State) (v : ℕ) (publication : Word) : State :=
  s.setVector v { s.vectors v with publication := publication }

/-- Stores the record, and publishes its vector when that is new. -/
def publish (s : State) (r : ℕ) (record : Record) (membership : Membership) : State :=
  let s := s.setRecord r record
  if membership.registration.isSome then
    setPublication s membership.identity.slot membership.identity.publication
  else s

/-- Takes a published record and its new vector back. -/
def retract (s : State) (r : ℕ) (membership : Membership) (context : Context) : State :=
  let s := s.setRecord r
    { s.records r with state := recordState (recordEpoch (s.records r).state) 0 }
  match membership.registration with
  | none => s
  | some handle =>
    let s := setPublication s membership.identity.slot (unpublished membership.identity.publication)
    s.setSlots (unregisterInterrupt s.slots handle context).2

/-- The last step of an allocation: its vector's slot, or all is taken back. -/
def concludeAllocation (s : State) (r : ℕ) (membership : Membership) (context : Context) :
    Except EspErr ℕ × State :=
  match updateVectorEnablement s membership.identity with
  | (false, s) => (.error .invalidState, retract s r membership context)
  | (true, s) => (.ok r, s)

def allocateInterrupt (s : State) (q : Request) (context : Context) : Except EspErr ℕ × State :=
  match checkRequest q context with
  | some error => (.error error, s)
  | none =>
    let flags := normalizeFlags q.flags
    match findFreeRecord s with
    | none => (.error .notFound, s)
    | some r =>
      match nextRecordEpoch (s.records r).state with
      | none => (.error .notFound, s)
      | some epoch =>
        match acquireVector s q.source flags context with
        | (.error error, s) => (.error error, s)
        | (.ok membership, s) =>
          let s := publish s r (newRecord q flags epoch membership.identity) membership
          concludeAllocation s r membership context

def setRecordEnabled (s : State) (r : ℕ) (enable : Bool) : EspErr × State :=
  let record := s.records r
  if isRecordPublished record.state then
    let identity := recordIdentity s r
    let desired := if enable then record.state ||| kRecordEnabled else record.state &&& ~~~kRecordEnabled
    match updateVectorEnablement (s.setRecord r { record with state := desired }) identity with
    | (updated, s) => (if updated then .ok else .invalidArg, s)
  else (.invalidArg, s)

/-- Clears a vector that has lost its last record. -/
def removeVector (s : State) (identity : VectorIdentity) (context : Context) : Bool × State :=
  let handle := loadVectorControllerHandle s identity
  let s := setPublication s identity.slot (unpublished identity.publication)
  let (removed, slots) := match handle with
    | none => (false, s.slots)
    | some handle => unregisterInterrupt s.slots handle context
  (removed, (s.setSlots slots).setVector identity.slot
    { s.vectors identity.slot with
      controllerSlot := noSlot
      controllerGeneration := 0
      source := 0
      flags := 0
      level := 0 })

def clearRecord (s : State) (r : ℕ) : State :=
  s.setRecord r ⟨recordState (recordEpoch (s.records r).state) 0, noSlot, 0, none, 0, 0, 0⟩

def espIntrFree (s : State) (handle : Option ℕ) (context : Context) : EspErr × State :=
  if !context.task then (.invalidState, s)
  else
    match findRecord handle with
    | none => (.invalidArg, s)
    | some r =>
      if isRecordPublished (s.records r).state then
        let identity := recordIdentity s r
        let s := clearRecord s r
        match if anyLiveRecord s identity then updateVectorEnablement s identity
          else removeVector s identity context with
        | (removed, s) => (if removed then .ok else .fail, s)
      else (.invalidArg, s)

def espIntrSetEnabled (s : State) (handle : Option ℕ) (enable : Bool) : EspErr × State :=
  match findRecord handle with
  | none => (.invalidArg, s)
  | some r => setRecordEnabled s r enable

/-- A call of the public interface. The flag `returnHandle` says that the caller passed an
address for the handle. -/
inductive Call where
  | espIntrAlloc (source : ℤ) (flags : Flags) (handler : Option ℕ) (argument : ℕ)
      (returnHandle : Bool) (context : Context)
  | espIntrAllocIntrstatus (request : Request) (returnHandle : Bool) (context : Context)
  | espIntrFree (handle : Option ℕ) (context : Context)
  | espIntrEnable (handle : Option ℕ)
  | espIntrDisable (handle : Option ℕ)

/-- The request of an allocation, with no status filter where the variant has none. -/
def Call.request : Call → Option (Request × Context)
  | .espIntrAlloc source flags handler argument _ context =>
    some (⟨source, flags, 0, 0, handler, argument⟩, context)
  | .espIntrAllocIntrstatus request _ context => some (request, context)
  | _ => none

/-- What a call returns: its code, and the handle where one is stored. -/
structure Reply where
  code : EspErr
  handle : Option ℕ

def allocationReply (returnHandle : Bool) : Except EspErr ℕ → Reply
  | .error error => ⟨error, none⟩
  | .ok r => ⟨.ok, if returnHandle then some r else none⟩

def execute (s : State) : Call → Reply × State
  | .espIntrAlloc source flags handler argument returnHandle context =>
    let (result, s) := allocateInterrupt s ⟨source, flags, 0, 0, handler, argument⟩ context
    (allocationReply returnHandle result, s)
  | .espIntrAllocIntrstatus request returnHandle context =>
    let (result, s) := allocateInterrupt s request context
    (allocationReply returnHandle result, s)
  | .espIntrFree handle context =>
    let (code, s) := espIntrFree s handle context
    (⟨code, none⟩, s)
  | .espIntrEnable handle =>
    let (code, s) := espIntrSetEnabled s handle true
    (⟨code, none⟩, s)
  | .espIntrDisable handle =>
    let (code, s) := espIntrSetEnabled s handle false
    (⟨code, none⟩, s)

def run (s : State) (calls : List Call) : State := calls.foldl (fun s c => (execute s c).2) s

/-- Empty tables over a controller that may already serve others. -/
def start (slots : ℕ → Slot) : State where
  vectors _ := ⟨0, 0, noSlot, 0, 0, 0⟩
  records _ := ⟨0, noSlot, 0, none, 0, 0, 0⟩
  slots := slots
  requested := false

end RooTesting.EspInterrupts
