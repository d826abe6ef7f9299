import RooTesting.FadeDelivery
import RooTesting.LedcDriver

/-! # Driver calls, deadlines and interrupts of any number of threads

A driver call is a stack of frames, over the frames of the engine calls it makes. The
interrupt service may start on any thread at any time; its callbacks, and the sinks that
pins publish to, may make driver calls themselves. -/
namespace RooTesting.LedcDriver
open Transition Threads
open FadeEngine (Engine Request Completion)

/-- A call in progress, by the step it takes next. -/
inductive Frame where
  | engine (f : FadeEngine.Frame)
  | publish (publications : List Publication)
  | fadeStart (mode channel : ℕ) (fadeMode : FadeMode) (created : Bool)
  | startEngine (gate : ℕ) (request : Request) (fadeMode : FadeMode)
  | started (gate : ℕ) (fadeMode : FadeMode)
  | waitDone (gate : ℕ)
  | cancel (index : ℕ)
  | clear (index : ℕ)
  | serve (index : ℕ)
  | publishCompletion (completion : Completion)
  | callback (cb arg : ℕ) (completion : Completion)

/-- A thread with its `kLedcDeliveryActive`. -/
structure Local where
  active : Bool
  stack : List Frame

inductive Call where
  | timerConfig (config : Option TimerConfig) (originUs : ℤ)
  | channelConfig (config : Option ChannelConfig)
  | fadeFuncInstall (alloc : Except EspErr ℕ) (enabled : Bool)
  | cbRegister (mode channel : ℕ) (cbs : Option (Option ℕ)) (userArg : ℕ)
  | setDuty (mode channel duty : ℕ)
  | setDutyWithHpoint (mode channel duty hpoint : ℕ)
  | updateDuty (mode channel : ℕ)
  | setDutyAndUpdate (mode channel duty hpoint : ℕ)
  | setFadeWithTime (mode channel targetDuty : ℕ) (desiredFadeTimeMs : ℤ)
  | fadeStart (mode channel : ℕ) (fadeMode : FadeMode) (created : Bool)
  | setFadeTimeAndStart (mode channel targetDuty desiredFadeTimeMs : ℕ) (fadeMode : FadeMode)
      (created : Bool)
  | fadeFuncUninstall

inductive Event where
  | call (c : Call)
  | deadline (index generation : ℕ)
  | interrupt
  | resume
  | clock (nowUs : ℤ)
  | scheduled (alarm : ℕ)
  | scheduler (running : Bool)

/-- A thread outside the driver and the engine, in a sink or in a callback may make a call. -/
def callable : List Frame → Bool
  | [] => true
  | .engine (.write _) :: _ => true
  | .publish _ :: _ => true
  | .callback .. :: _ => true
  | _ => false

def Local.push (l : Local) (fs : List Frame) : Local := { l with stack := fs ++ l.stack }

/-- The frames of an engine call on top of a stack of driver frames. -/
def Local.ofEngine (l : FadeEngine.Local) (rest : List Frame) : Local :=
  ⟨l.active, l.stack.map .engine ++ rest⟩

def published (r : EspErr × Driver × List Publication) : Driver × List Frame :=
  (r.2.1, [.publish r.2.2])

/-- The section of `ledc_fade_start` that takes the gate. -/
def beginFade (d : Driver) (mode channel : ℕ) (fadeMode : FadeMode) (created : Bool) :
    Driver × List Frame :=
  match d.fadeStart mode channel fadeMode created with
  | .error _ => (d, [])
  | .ok (gate, request, d) => (d, [.startEngine gate request fadeMode])

/-- The first locked section of a call. -/
def begin (d : Driver) : Call → Driver × List Frame
  | .timerConfig config originUs => published (d.timerConfig config originUs)
  | .channelConfig config => published (d.channelConfig config)
  | .fadeFuncInstall alloc enabled => ((d.fadeFuncInstall alloc enabled).2, [])
  | .cbRegister mode channel cbs userArg => ((d.cbRegister mode channel cbs userArg).2, [])
  | .setDuty mode channel duty => ((d.setDuty mode channel duty).2, [])
  | .setDutyWithHpoint mode channel duty hpoint =>
    ((d.setDutyWithHpoint mode channel duty hpoint).2, [])
  | .updateDuty mode channel => published (d.updateDuty mode channel)
  | .setDutyAndUpdate mode channel duty hpoint =>
    published (d.setDutyAndUpdate mode channel duty hpoint)
  | .setFadeWithTime mode channel targetDuty desiredFadeTimeMs =>
    ((d.setFadeWithTime mode channel targetDuty desiredFadeTimeMs).2, [])
  | .fadeStart mode channel fadeMode created => beginFade d mode channel fadeMode created
  | .setFadeTimeAndStart mode channel targetDuty desiredFadeTimeMs fadeMode created =>
    if int32Max < desiredFadeTimeMs then (d, [])
    else
      let r := d.setFadeWithTime mode channel targetDuty desiredFadeTimeMs
      (r.2, if r.1 = .ok then [.fadeStart mode channel fadeMode created] else [])
  | .fadeFuncUninstall =>
    if d.fadeInstalled then ({ d with locked := true }, [.cancel 0]) else (d, [])

def serveNext (index : ℕ) : List Frame :=
  if index + 1 < FadeEngine.kChannels then [.serve (index + 1)] else []

/-- The next step of the innermost call of a thread. -/
def resume (d : Driver) (active : Bool) (rest : List Frame) : Frame → Option (Driver × Local)
  | .engine f => (FadeEngine.resume d.engine active [] f).map fun r =>
    ({ d with engine := r.1 }, .ofEngine r.2 rest)
  | .publish [] => some (d, ⟨active, rest⟩)
  | .publish (_ :: publications) => some (d, ⟨active, .publish publications :: rest⟩)
  | .fadeStart mode channel fadeMode created =>
    if d.locked then none
    else
      let r := beginFade d mode channel fadeMode created
      some (r.1, ⟨active, r.2 ++ rest⟩)
  | .waitDone gate => (d.take gate).map fun d => (d, ⟨active, rest⟩)
  | .clear index =>
    let d := d.clearCallbacks index
    if index + 1 < FadeEngine.kChannels then some (d, ⟨active, .cancel (index + 1) :: rest⟩)
    else some (d.uninstalled, ⟨active, rest⟩)
  | .serve index =>
    match d.engine.takeCompletion index with
    | none => some (d, ⟨active, serveNext index ++ rest⟩)
    | some (completion, e) =>
      some ({ d with engine := e }, ⟨active, .publishCompletion completion :: rest⟩)
  | .publishCompletion completion =>
    if d.locked then none
    else
      let r := d.publishCompletion completion
      let callbacks := r.1.toList.map fun cb => .callback cb.1 cb.2 completion
      some (r.2, ⟨active, callbacks ++ serveNext completion.channel ++ rest⟩)
  | .callback .. => some (d, ⟨active, rest⟩)
  | _ => none

/-- `LedcFadeEngine::Start` up to its alarm, for a call that holds the gate. -/
def startEngine (d : Driver) (active : Bool) (rest : List Frame) (gate : ℕ) (request : Request)
    (fadeMode : FadeMode) (nowUs : ℤ) : Driver × Local :=
  let refused : Driver × Local := (d.give gate, ⟨active, rest⟩)
  if !active && request.accepted nowUs then
    match d.engine.start request nowUs with
    | none => refused
    | some (generation, drainNow, e) =>
      ({ d with engine := e }, .ofEngine ⟨active,
        if request.immediate then FadeEngine.drainIf drainNow
        else [.startAlarm request.channel generation drainNow]⟩ (.started gate fadeMode :: rest))
  else refused

/-- `LedcFadeEngine::Cancel` up to its alarm, then the callbacks of the channel. -/
def cancelEngine (d : Driver) (active : Bool) (rest : List Frame) (index : ℕ) (nowUs : ℤ) :
    Driver × Local :=
  let nothing : Driver × Local := (d, ⟨active, .clear index :: rest⟩)
  if !active && index < FadeEngine.kChannels then
    match d.engine.cancel index nowUs with
    | none => nothing
    | some (alarm, drainNow, e) =>
      ({ d with engine := e }, .ofEngine ⟨active, [.cancelAlarm alarm drainNow]⟩
        (.clear index :: rest))
  else nothing

/-- One atomic step of one thread. -/
def step : Program Driver Local Event
  | .call c, d, l =>
    if callable l.stack && !d.locked then
      let r := begin d c
      some (r.1, l.push r.2)
    else none
  | .deadline index generation, d, l =>
    if callable l.stack then
      (FadeEngine.begin d.engine ⟨l.active, []⟩ (.deadline index generation)).map fun r =>
        ({ d with engine := r.1 }, .ofEngine r.2 l.stack)
    else none
  | .interrupt, d, l => some (d, l.push [.serve 0])
  | .resume, d, ⟨active, f :: rest⟩ => resume d active rest f
  | .clock nowUs, d, ⟨active, .startEngine gate request fadeMode :: rest⟩ =>
    some (startEngine d active rest gate request fadeMode nowUs)
  | .clock nowUs, d, ⟨active, .cancel index :: rest⟩ =>
    some (cancelEngine d active rest index nowUs)
  | .scheduled alarm, d, ⟨active, .engine (.startAlarm channel generation drainNow) :: rest⟩ =>
    some ({ d with engine := d.engine.storeAlarm channel generation alarm },
      .ofEngine ⟨active, FadeEngine.drainIf drainNow⟩ rest)
  | .scheduler running, d, ⟨active, .started gate fadeMode :: rest⟩ =>
    some (d, ⟨active, (if fadeMode = .waitDone ∧ running then [.waitDone gate] else []) ++ rest⟩)
  | _, _, _ => none

abbrev System := Config Driver Local

def systemStart : System := ⟨start, fun _ => ⟨false, []⟩⟩

/-- A frame of a driver call or of the interrupt service. -/
def Frame.isCall : Frame → Bool
  | .engine _ => false
  | _ => true

/-- No driver call and no interrupt service is in progress. -/
def Idle (c : System) : Prop := ∀ t, ∀ f ∈ (c.thread t).stack, f.isCall = false

/-- The gate of a channel could be taken: it is given, or is still to be created. -/
def Driver.gateAvailable (d : Driver) (index : ℕ) : Bool :=
  match (d.channels index).gate with
  | none => true
  | some gate => d.semaphores gate

/-- The fade engine holds the gate of the channel. -/
def gateHeld (e : Engine) (index : ℕ) : Bool :=
  (e.channels index).state = .armed || (e.channels index).state = .queued ||
    (e.channels index).state = .pending

end RooTesting.LedcDriver
