import RooTesting.AlarmTable
import RooTesting.Threads

/-! # The compare backend of the timer

One compare, programmed by tasks, reached on the thread that delivers the due alarms, and
handled in an interrupt frame. A task is suspended as long as the frame is open; the
delivering thread may be a native one and goes on. Sections under the compare mutex are cut
where the interrupt handler, which takes no lock, can look between. -/
namespace RooTesting.EspTimer
open AlarmService Transition Threads

def kDisarmedCompare : ℕ := 2 ^ 64 - 1

/-- What the interrupt handler does next. -/
inductive Frame where
  | exchange
  | loadGeneration
  | compare (generation : ℕ)
  | call (generation : ℕ)
  deriving DecidableEq

/-- The registration of the timer's interrupt source. -/
structure Line where
  live : Bool
  enabled : Bool
  asserted : Bool
  deriving DecidableEq

def Line.raiseInterruptSource (line : Line) : Line :=
  { line with asserted := line.live || line.asserted }

/-- A call of the upper handler, with the generation that the interrupt handler had loaded. -/
structure Invocation where
  generation : ℕ
  handler : ℕ
  deriving DecidableEq

/-- The variables of the backend, the alarm service, whose callbacks are told by their
generation, and the interrupt. Nothing reads the last two fields. -/
structure Shared where
  scheduledAlarm : ℕ
  requestedCompare : ℕ
  compareGeneration : ℕ
  initialized : Bool
  interruptHandle : Bool
  pendingGeneration : ℕ
  pendingStatus : Bool
  upperHandler : Option ℕ
  locked : Bool
  service : Service ℕ
  line : Line
  frame : Option Frame
  invoked : List Invocation
  returned : List ℕ

/-- What a thread does next. The calls of tasks come first, in the order of their steps. -/
inductive Local where
  | idle
  | enableInterrupt (handler : ℕ)
  | clearStatus (handler : ℕ)
  | publishHandler (handler : ℕ)
  | dropStatus (generation timestamp oldAlarm : ℕ)
  | cancelOld (generation timestamp oldAlarm : ℕ)
  | schedule (generation timestamp : ℕ)
  | install (generation newAlarm : ℕ)
  | cancelNew (generation newAlarm : ℕ)
  | retractStatus (generation : ℕ)
  | retractHandler (generation : ℕ)
  | cancelAlarm (generation alarm : ℕ) (handle : Bool)
  | disableInterrupt (generation : ℕ)
  | freeInterrupt (generation : ℕ)
  | deliver (generation : ℕ)
  | storeGeneration (generation : ℕ)
  | storeStatus (generation : ℕ)
  | raise
  deriving DecidableEq

/-- The flag of an allocation and of an enabling is the verdict of the interrupt allocator. -/
inductive Event where
  | init (alarmHandler : Option ℕ) (allocated : Bool)
  | setAlarm (timestamp alarmId : ℕ)
  | deinit
  | claim
  | resume (enabled : Bool)
  | advance (uptimeNs : ℤ)
  | dispatch
  | interrupt
  deriving DecidableEq

namespace Shared
variable (s : Shared)

/-- Advances the generation, a `uint64_t`. The check of the source fails where it would wrap. -/
def nextGeneration : Option ℕ :=
  let next := (s.compareGeneration + 1) % uint64Size
  if next = 0 then none else some next

/-- The first part of `esp_timer_impl_init`, under the lock. -/
def init (alarmHandler : Option ℕ) (allocated : Bool) : Option (Shared × Local) :=
  match alarmHandler with
  | none => some (s, .idle)
  | some handler =>
    if s.locked then none
    else if s.initialized then some (s, .idle)
    else if s.line.live || !allocated then some (s, .idle)
    else some ({ s with
      locked := true
      line := ⟨true, false, false⟩ }, .enableInterrupt handler)

/-- The first part of `esp_timer_impl_set_alarm_id`, under the lock. -/
def setAlarm (timestamp alarmId : ℕ) : Option (Shared × Local) :=
  if alarmId = 0 ∧ timestamp < uint64Size ∧ s.locked = false ∧ s.initialized then
    s.nextGeneration.map fun generation =>
      ({ s with
          locked := true
          compareGeneration := generation
          requestedCompare := timestamp
          scheduledAlarm := 0 },
        .dropStatus generation timestamp s.scheduledAlarm)
  else none

/-- The first part of `esp_timer_impl_deinit`, under the lock. -/
def deinit : Option (Shared × Local) :=
  if s.locked then none
  else if s.initialized then
    s.nextGeneration.map fun generation =>
      ({ s with
          locked := true
          compareGeneration := generation
          initialized := false
          requestedCompare := kDisarmedCompare },
        .retractStatus generation)
  else some (s, .idle)

/-- The alarm service hands a due alarm to the thread. -/
def claim : Option (Shared × Local) :=
  match s.service.popDue with
  | some (some due, service) => some ({ s with service := service }, .deliver due.2.callback)
  | _ => none

/-- One step of the interrupt handler. -/
def interrupt : Option Shared :=
  match s.frame with
  | none => none
  | some .exchange =>
    if s.pendingStatus then
      some { s with
        pendingStatus := false
        frame := some .loadGeneration }
    else some { s with frame := none }
  | some .loadGeneration => some { s with frame := some (.compare s.pendingGeneration) }
  | some (.compare generation) =>
    some { s with
      frame := if generation = s.compareGeneration then some (.call generation) else none }
  | some (.call generation) =>
    match s.upperHandler with
    | some handler =>
      some { s with
        frame := none
        invoked := ⟨generation, handler⟩ :: s.invoked }
    | none => some { s with frame := none }

def cancelSystemTimeAlarm (id : ℕ) : Shared :=
  { s with service := (s.service.cancelSystemTimeAlarm id).2 }

/-- A call of `esp_timer_impl_set_alarm_id` or of `esp_timer_impl_deinit` returns. -/
def leave (generation : ℕ) : Shared × Local :=
  ({ s with returned := generation :: s.returned }, .idle)

/-- The next step of a call. -/
def resume (enabled : Bool) : Local → Option (Shared × Local)
  | .idle => none
  | .enableInterrupt handler =>
    if enabled then
      some ({ s with line := { s.line with enabled := true } }, .clearStatus handler)
    else
      some ({ s with
        line := ⟨false, false, false⟩
        locked := false }, .idle)
  | .clearStatus handler => some ({ s with pendingStatus := false }, .publishHandler handler)
  | .publishHandler handler =>
    some ({ s with
      interruptHandle := true
      requestedCompare := kDisarmedCompare
      scheduledAlarm := 0
      upperHandler := some handler
      initialized := true
      locked := false }, .idle)
  | .dropStatus generation timestamp oldAlarm =>
    some ({ s with
      pendingStatus := false
      locked := false }, .cancelOld generation timestamp oldAlarm)
  | .cancelOld generation timestamp oldAlarm =>
    let s := s.cancelSystemTimeAlarm oldAlarm
    if timestamp = kDisarmedCompare ∨ int64Max < timestamp then some (s.leave generation)
    else some (s, .schedule generation timestamp)
  | .schedule generation timestamp =>
    (s.service.scheduleSystemTimeAlarm timestamp generation).map fun scheduled =>
      ({ s with service := scheduled.2 }, .install generation scheduled.1)
  | .install generation newAlarm =>
    if s.locked then none
    else if s.initialized ∧ generation = s.compareGeneration ∧
        s.pendingGeneration ≠ generation then
      some ({ s with scheduledAlarm := newAlarm }.leave generation)
    else some (s, .cancelNew generation newAlarm)
  | .cancelNew generation newAlarm =>
    some ((s.cancelSystemTimeAlarm newAlarm).leave generation)
  | .retractStatus generation =>
    some ({ s with pendingStatus := false }, .retractHandler generation)
  | .retractHandler generation =>
    some ({ s with
      upperHandler := none
      scheduledAlarm := 0
      interruptHandle := false
      locked := false }, .cancelAlarm generation s.scheduledAlarm s.interruptHandle)
  | .cancelAlarm generation alarm handle =>
    let s := s.cancelSystemTimeAlarm alarm
    if handle then some (s, .disableInterrupt generation) else some (s.leave generation)
  | .disableInterrupt generation =>
    some ({ s with line := { s.line with enabled := false } }, .freeInterrupt generation)
  | .freeInterrupt generation =>
    some ({ s with line := ⟨false, false, false⟩ }.leave generation)
  | .deliver generation =>
    if s.locked then none
    else if s.initialized = false ∨ generation ≠ s.compareGeneration then some (s, .idle)
    else some ({ s with
      locked := true
      scheduledAlarm := 0 }, .storeGeneration generation)
  | .storeGeneration generation =>
    some ({ s with pendingGeneration := generation }, .storeStatus generation)
  | .storeStatus _ =>
    some ({ s with
      pendingStatus := true
      locked := false }, .raise)
  | .raise => some ({ s with line := s.line.raiseInterruptSource }, .idle)

end Shared

/-- The step belongs to the delivery of an alarm, which a native thread may run. -/
def Local.delivers : Local → Bool
  | .deliver _ | .storeGeneration _ | .storeStatus _ | .raise => true
  | _ => false

/-- One step. Tasks wait for the end of the interrupt frame, and the frame opens when the
enabled interrupt is asserted. -/
def program : Program Shared Local Event := fun event s l =>
  match event with
  | .init alarmHandler allocated =>
    if l = .idle ∧ s.frame = none then s.init alarmHandler allocated else none
  | .setAlarm timestamp alarmId =>
    if l = .idle ∧ s.frame = none then s.setAlarm timestamp alarmId else none
  | .deinit => if l = .idle ∧ s.frame = none then s.deinit else none
  | .claim => if l = .idle then s.claim else none
  | .resume enabled =>
    if l.delivers ∨ s.frame = none then s.resume enabled l else none
  | .advance uptimeNs =>
    some ({ s with service := s.service.publishAtLeast uptimeNs }, l)
  | .dispatch =>
    if s.line.enabled ∧ s.line.asserted ∧ s.frame = none then
      some ({ s with
        line := { s.line with asserted := false }
        frame := some .exchange }, l)
    else none
  | .interrupt => s.interrupt.map fun s => (s, l)

abbrev System := Config Shared Local

/-- The system before the first call. -/
def start (autoSync : Bool) (hostNowNs : ℤ) : System where
  shared := {
    scheduledAlarm := 0
    requestedCompare := kDisarmedCompare
    compareGeneration := 0
    initialized := false
    interruptHandle := false
    pendingGeneration := 0
    pendingStatus := false
    upperHandler := none
    locked := false
    service := initial autoSync hostNowNs
    line := ⟨false, false, false⟩
    frame := none
    invoked := []
    returned := [] }
  thread := fun _ => .idle

/-- The system after some run of steps. -/
def Reachable (c : System) : Prop :=
  ∃ autoSync hostNowNs events, run (fire program) (start autoSync hostNowNs) events = some c

/-- The call has drawn the generation and will schedule its alarm. -/
def Local.arms (generation timestamp : ℕ) : Local → Prop
  | .dropStatus g t _ | .cancelOld g t _ =>
    g = generation ∧ t = timestamp ∧ (timestamp : ℤ) ≤ int64Max
  | .schedule g t => g = generation ∧ t = timestamp
  | _ => False

/-- The thread has taken the alarm of the generation and has not yet published the status. -/
def Local.claims (generation : ℕ) : Local → Prop
  | .deliver g | .storeGeneration g | .storeStatus g => g = generation
  | _ => False

/-- The interrupt handler has consumed the status of the generation. -/
def Shared.consumes (s : Shared) (generation : ℕ) : Prop :=
  s.frame = some .loadGeneration ∧ s.pendingGeneration = generation ∨
    s.frame = some (.compare generation) ∨ s.frame = some (.call generation)

/-- The interrupt is raised, or about to be, or just entered. -/
def Raised (c : System) : Prop :=
  (∃ t, c.thread t = .raise) ∨ c.shared.line.asserted = true ∨ c.shared.frame = some .exchange

/-- The places where the compare event of the current generation can be. -/
inductive Place where
  | arming
  | scheduled
  | claimed
  | pending
  | consumed
  | handled
  deriving DecidableEq

def At (c : System) : Place → Prop
  | .arming => ∃ t, (c.thread t).arms c.shared.compareGeneration c.shared.requestedCompare
  | .scheduled => ∃ e ∈ c.shared.service.alarms,
      e.2.callback = c.shared.compareGeneration ∧ e.1 = c.shared.requestedCompare
  | .claimed => ∃ t, (c.thread t).claims c.shared.compareGeneration
  | .pending => c.shared.pendingStatus = true ∧
      c.shared.pendingGeneration = c.shared.compareGeneration ∧ Raised c
  | .consumed => c.shared.consumes c.shared.compareGeneration
  | .handled => ∃ i ∈ c.shared.invoked, i.generation = c.shared.compareGeneration

end RooTesting.EspTimer
