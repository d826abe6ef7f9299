import RooTesting.LedcThreads

/-! # Whole LEDC calls

A driver call from beginning to end, with nothing else running: its result, the driver
and the signals of the GPIO pins. The deliveries of the fade engine, its deadlines and the
interrupt service run to their ends in the same way. Only the call that waits for a fade
stops on the way, until it has taken the gate of the fade once more. -/
namespace RooTesting.LedcDriver
open FadeEngine (Engine Request Completion Delivery)

/-- The driver, the signal each GPIO pin retains, and the gates that calls of
`ledc_fade_start` wait for. -/
structure Board where
  driver : Driver
  pins : ℤ → Option FadeEngine.VoltageSignal
  waiting : List ℕ

/-- What a call meets outside the driver: whether its thread is delivering already, the
uptime, the alarm it is given, and whether the scheduler runs. -/
structure Moment where
  active : Bool
  nowUs : ℤ
  alarm : ℕ
  running : Bool

def boardStart : Board := ⟨start, fun _ => none, []⟩

namespace Board

def publish (b : Board) : List Publication → Board
  | [] => b
  | p :: publications =>
    publish { b with pins := Function.update b.pins p.pin (some p.signal) } publications

/-- The drain of the delivery queue, to its end. -/
def deliver (b : Board) : List Delivery → Board
  | [] => { b with driver := { b.driver with
      engine := { b.driver.engine with
        delivery := []
        draining := false } } }
  | item :: rest =>
    if (b.driver.engine.channels item.channel).generation = item.generation then
      let pins := Function.update b.pins item.pin (some item.signal)
      let engine :=
        if item.finalize then (b.driver.engine.finalize item).2 else b.driver.engine
      deliver { b with driver := { b.driver with engine := engine }, pins := pins } rest
    else deliver b rest

def drain (b : Board) (drainNow : Bool) : Board :=
  if drainNow then b.deliver b.driver.engine.delivery else b

/-- `LedcFadeEngine::Start`; nothing has changed where it refuses. -/
def startEngine (b : Board) (m : Moment) (request : Request) : Option Board :=
  if !m.active && request.accepted m.nowUs then
    (b.driver.engine.start request m.nowUs).map fun r =>
      let engine :=
        if request.immediate then r.2.2 else r.2.2.storeAlarm request.channel r.1 m.alarm
      drain { b with driver := { b.driver with engine := engine } } r.2.1
  else none

/-- A call that waits, which needs the scheduler, is left at the second
`xSemaphoreTake`. -/
def fadeStart (b : Board) (m : Moment) (mode channel : ℕ) (fadeMode : FadeMode) (created : Bool) :
    EspErr × Board :=
  match b.driver.fadeStart mode channel fadeMode created with
  | .error error => (error, b)
  | .ok (gate, request, driver) =>
    match startEngine { b with driver := driver } m request with
    | none => (.invalidState, { b with driver := driver.give gate })
    | some b =>
      if fadeMode = .waitDone then
        if m.running then (.ok, { b with waiting := gate :: b.waiting }) else (.invalidState, b)
      else (.ok, b)

/-- A call that waits for the gate takes it, and is done. -/
def awaken (b : Board) (gate : ℕ) : Option Board :=
  if gate ∈ b.waiting then
    (b.driver.take gate).map fun d => { b with driver := d, waiting := b.waiting.erase gate }
  else none

def cancelEngine (b : Board) (m : Moment) (index : ℕ) : Board :=
  if !m.active && index < FadeEngine.kChannels then
    match b.driver.engine.cancel index m.nowUs with
    | none => b
    | some (_, drainNow, engine) =>
      drain { b with driver := { b.driver with engine := engine } } drainNow
  else b

def uninstall (b : Board) (m : Moment) : Board :=
  if b.driver.fadeInstalled then
    let b := (List.range FadeEngine.kChannels).foldl (fun b index =>
      let b := b.cancelEngine m index
      { b with driver := b.driver.clearCallbacks index }) b
    { b with driver := b.driver.uninstalled }
  else b

/-- A section of the driver that publishes when it is done. -/
def commit (b : Board) (r : EspErr × Driver × List Publication) : EspErr × Board :=
  (r.1, publish { b with driver := r.2.1 } r.2.2)

def settle (b : Board) (r : EspErr × Driver) : EspErr × Board := (r.1, { b with driver := r.2 })

/-- The call as a whole, or up to its wait; the call that returns nothing returns `ok`. -/
def perform (b : Board) (m : Moment) : Call → EspErr × Board
  | .timerConfig config originUs => b.commit (b.driver.timerConfig config originUs)
  | .channelConfig config => b.commit (b.driver.channelConfig config)
  | .fadeFuncInstall alloc enabled => b.settle (b.driver.fadeFuncInstall alloc enabled)
  | .cbRegister mode channel cbs userArg =>
    b.settle (b.driver.cbRegister mode channel cbs userArg)
  | .setDuty mode channel duty => b.settle (b.driver.setDuty mode channel duty)
  | .setDutyWithHpoint mode channel duty hpoint =>
    b.settle (b.driver.setDutyWithHpoint mode channel duty hpoint)
  | .updateDuty mode channel => b.commit (b.driver.updateDuty mode channel)
  | .setDutyAndUpdate mode channel duty hpoint =>
    b.commit (b.driver.setDutyAndUpdate mode channel duty hpoint)
  | .setFadeWithTime mode channel targetDuty desiredFadeTimeMs =>
    b.settle (b.driver.setFadeWithTime mode channel targetDuty desiredFadeTimeMs)
  | .fadeStart mode channel fadeMode created => b.fadeStart m mode channel fadeMode created
  | .setFadeTimeAndStart mode channel targetDuty desiredFadeTimeMs fadeMode created =>
    if int32Max < desiredFadeTimeMs then (.invalidArg, b)
    else
      let r := b.driver.setFadeWithTime mode channel targetDuty desiredFadeTimeMs
      if r.1 = .ok then fadeStart { b with driver := r.2 } m mode channel fadeMode created
      else (r.1, { b with driver := r.2 })
  | .fadeFuncUninstall => (.ok, b.uninstall m)

/-- The alarm of a fade. -/
def deadline (b : Board) (index generation : ℕ) : Board :=
  match b.driver.engine.deadline index generation with
  | none => b
  | some (drainNow, engine) =>
    drain { b with driver := { b.driver with engine := engine } } drainNow

/-- `LedcInterrupt` for one channel; a callback that is run leaves the driver alone. -/
def serve (b : Board) (index : ℕ) : Board :=
  match b.driver.engine.takeCompletion index with
  | none => b
  | some (completion, engine) =>
    { b with driver := (({ b.driver with engine := engine } : Driver).publishCompletion
        completion).2 }

def interrupt (b : Board) : Board := (List.range FadeEngine.kChannels).foldl serve b

end Board

end RooTesting.LedcDriver
