import RooTesting.ArduinoLedc
import RooTesting.FadeDuty

/-! # Whole Arduino LEDC calls

A call from beginning to end, with nothing else running: its result, the records of the channels,
the fade engine and what was written to each pin last. Deadlines and completions run in the same
way. -/
namespace RooTesting.LedcReadings
open ArduinoLedc
open FadeEngine (Engine Request Delivery VoltageSignal kChannels period)

/-- What was written to a pin last. -/
inductive PinSignal where
  | level (high : Bool)
  | carrier (signal : VoltageSignal)
  deriving DecidableEq

/-- The ticks of a period in which the pin is active for a channel. -/
def PinSignal.ticks (period : ℕ) (inverted : Bool) (uptimeUs : ℤ) : PinSignal → ℤ
  | .level high => if high = inverted then 0 else period
  | .carrier .zero => if inverted then period else 0
  | .carrier (.square _ duty _ _ invertedSignal) =>
    if invertedSignal = inverted then duty.ticks period uptimeUs
    else period - duty.ticks period uptimeUs

structure Board where
  engine : Engine
  channels : ℕ → Channel
  pinChannel : ℕ → Option ℕ
  fadeInterrupt : Bool
  pins : ℤ → Option PinSignal

def Board.initial : Board := ⟨FadeEngine.initial, fun _ => {}, fun _ => none, false, fun _ => none⟩

def buildSignal (c : Channel) : PinSignal :=
  if c.frequency = 0 then .level c.inverted
  else .carrier (.square c.frequency
    (.constant (mappedDuty c.resolution c.duty / (period c.resolution : ℚ))) c.carrierOriginUs 0
    c.inverted)

namespace Board

variable (soc : Soc) (b : Board)

def write (pin : ℤ) (signal : PinSignal) : Board :=
  { b with pins := Function.update b.pins pin (some signal) }

def publish (index : ℕ) : Board := b.write (b.channels index).pin (buildSignal (b.channels index))

def driveLow (pin : ℕ) : Board := b.write pin (.level false)

def setChannel (index : ℕ) (c : Channel) : Board :=
  { b with channels := Function.update b.channels index c }

def setPinChannel (pin : ℕ) (index : Option ℕ) : Board :=
  { b with pinChannel := Function.update b.pinChannel pin index }

def forPin (pin : ℕ) : Option ℕ := if pin < soc.pins then b.pinChannel pin else none

/-- `FadeActive`; whether the gate is held does not depend on the time. -/
def fadeActive (index : ℕ) : Bool := (b.engine.snapshot index 0).gateHeld

/-- The drain of the delivery queue, to its end. -/
def deliver (b : Board) : List Delivery → Board
  | [] => { b with engine := { b.engine with delivery := [], draining := false } }
  | item :: rest =>
    if (b.engine.channels item.channel).generation = item.generation then
      let b := b.write item.pin (.carrier item.signal)
      let engine := if item.finalize then (b.engine.finalize item).2 else b.engine
      deliver { b with engine := engine } rest
    else deliver b rest

def drain (drainNow : Bool) : Board := if drainNow then b.deliver b.engine.delivery else b

/-- `LedcFadeEngine::Start`; nothing has changed where it refuses. -/
def startEngine (r : Request) (nowUs : ℤ) (alarm : ℕ) : Option Board :=
  if r.accepted nowUs then
    (b.engine.start r nowUs).map fun x =>
      let engine := if r.immediate then x.2.2 else x.2.2.storeAlarm r.channel x.1 alarm
      drain { b with engine := engine } x.2.1
  else none

/-- `LedcFadeEngine::Cancel`. -/
def cancelEngine (index : ℕ) (nowUs : ℤ) : Board :=
  if index < kChannels then
    match b.engine.cancel index nowUs with
    | none => b
    | some (_, drainNow, engine) => drain { b with engine := engine } drainNow
  else b

/-- The alarm of a fade. -/
def deadline (index generation : ℕ) : Board :=
  match b.engine.deadline index generation with
  | none => b
  | some (drainNow, engine) => drain { b with engine := engine } drainNow

def ledcDetach (pin : ℕ) (nowUs : ℤ) : Bool × Board :=
  match b.forPin soc pin with
  | none => (false, b)
  | some index =>
    (true, (((b.cancelEngine index nowUs).driveLow pin).setChannel index {}).setPinChannel pin none)

/-- The part of `ledcAttachChannel` that takes the channel away from the pin it was on. -/
def evict (index : ℕ) (nowUs : ℤ) : Board :=
  let state := b.channels index
  if state.attached ∧ state.pin < soc.pins then
    ((b.cancelEngine index nowUs).driveLow state.pin).setPinChannel state.pin none
  else b

/-- The part of `ledcAttachChannel` that gives the channel to the pin. -/
def install (pin frequency resolution index : ℕ) (claimed : Bool) (nowUs : ℤ) : Bool × Board :=
  let state : Channel := {
    attached := true
    pin := pin
    resolution := resolution
    frequency := frequency
    carrierOriginUs := nowUs }
  if claimed then (true, ((b.setChannel index state).setPinChannel pin (some index)).publish index)
  else (false, (b.setChannel index {}).setPinChannel pin none)

def ledcAttachChannel (pin frequency resolution index : ℕ) (claimed : Bool) (nowUs : ℤ) :
    Bool × Board :=
  if soc.isOutputPin pin = false ∨ soc.channels ≤ index ∨ resolution = 0 ∨
      soc.timerBitWidth < resolution then (false, b)
  else
    let b := if b.pinChannel pin ≠ none then (b.ledcDetach soc pin nowUs).2 else b
    (b.evict soc index nowUs).install pin frequency resolution index claimed nowUs

/-- The channel that `ledcAttach` takes. -/
def unused : Option ℕ := (List.range soc.channels).find? fun index => !(b.channels index).attached

def ledcAttach (pin frequency resolution : ℕ) (claimed : Bool) (nowUs : ℤ) : Bool × Board :=
  match b.unused soc with
  | none => (false, b)
  | some index => b.ledcAttachChannel soc pin frequency resolution index claimed nowUs

/-- A channel with a new record, published. -/
def republish (index : ℕ) (c : Channel) : Board := (b.setChannel index c).publish index

def ledcWrite (pin duty : ℕ) : Bool × Board :=
  match b.forPin soc pin with
  | none => (false, b)
  | some index =>
    if b.fadeActive index then (false, b)
    else (true, b.republish index { b.channels index with duty := duty })

def ledcWriteChannel (index duty : ℕ) : Bool × Board :=
  if soc.channels ≤ index ∨ (b.channels index).attached = false ∨ b.fadeActive index = true then
    (false, b)
  else (true, b.republish index { b.channels index with duty := duty })

def ledcWriteTone (pin frequency : ℕ) : ℕ × Board :=
  match b.forPin soc pin with
  | none => (0, b)
  | some index =>
    let state := b.channels index
    (frequency, b.republish index { state with
      frequency := frequency
      duty := if frequency ≠ 0 then 1 <<< (state.resolution - 1) else 0 })

def ledcRead (pin : ℕ) (nowUs : ℤ) : ℕ :=
  match b.forPin soc pin with
  | none => 0
  | some index =>
    let fade := b.engine.snapshot index nowUs
    let state := b.channels index
    if fade.gateHeld then fade.duty else mappedDuty state.resolution state.duty

def ledcChangeFrequency (pin frequency resolution : ℕ) (nowUs : ℤ) : ℕ × Board :=
  match b.forPin soc pin with
  | none => (0, b)
  | some index =>
    if resolution = 0 ∨ soc.timerBitWidth < resolution ∨ b.fadeActive index = true then (0, b)
    else (frequency, b.republish index { b.channels index with
      frequency := frequency
      resolution := resolution
      carrierOriginUs := nowUs })

def ledcOutputInvert (pin : ℕ) (inverted : Bool) : Bool × Board :=
  match b.forPin soc pin with
  | none => (false, b)
  | some index => (true, b.republish index { b.channels index with inverted := inverted })

def ensureFadeInterrupt (ensured : Bool) : Bool × Board :=
  if b.fadeInterrupt then (true, b)
  else if ensured then
    (true, { b with engine := b.engine.setCompletionNotifier true, fadeInterrupt := true })
  else (false, b)

def request (index : ℕ) (c : FadeCall) : Request :=
  let state := b.channels index
  { channel := index
    pin := state.pin
    frequencyHz := state.frequency
    resolution := state.resolution
    startDuty := mappedDuty state.resolution c.startDuty
    targetDuty := mappedDuty state.resolution c.targetDuty
    carrierOriginUs := state.carrierOriginUs
    inverted := state.inverted
    durationUs := c.durationMs.toNat * 1000 }

/-- `StartFade` from the record on; neither duty is above the period, so that check of the source
never fails. -/
def startRequest (index : ℕ) (c : FadeCall) (alarm : ℕ) (callback : Option Function)
    (arg : Argument) : Bool × Board :=
  let r := b.request index c
  let state := { b.channels index with
    duty := r.startDuty
    callback := callback
    callbackArg := arg }
  match (b.setChannel index state).startEngine r c.nowUs alarm with
  | some b => (true, b)
  | none => (false, b.setChannel index { state with callback := none, callbackArg := .null })

def startFade (c : FadeCall) (alarm : ℕ) (callback : Option Function) (arg : Argument) :
    Bool × Board :=
  if c.durationMs < 0 then (false, b)
  else match b.forPin soc c.pin with
  | none => (false, b)
  | some index =>
    if b.fadeActive index then (false, b)
    else
      let ready := b.ensureFadeInterrupt c.ensured
      if ready.1 then ready.2.startRequest index c alarm callback arg else (false, ready.2)

def ledcFadeWithInterrupt (c : FadeCall) (alarm f : ℕ) : Bool × Board :=
  match b.forPin soc c.pin with
  | none => (false, b)
  | some index =>
    if b.fadeActive index then (false, b)
    else (b.setChannel index
      { b.channels index with noArgumentCallback := some f }).startFade soc c alarm
        (some .noArgument) (.channel index)

/-- The turn of `FinishFade` on a channel, up to the call of the callback where there is one. -/
def finishFade (index : ℕ) : Board :=
  match b.engine.takeCompletion index with
  | none => b
  | some (completion, engine) =>
    let b := { b with engine := engine }
    let state := b.channels index
    if state.attached = false then b
    else b.setChannel index { state with
      duty := completion.duty
      callback := none
      callbackArg := .null
      noArgumentCallback := if state.callback = none then none else state.noArgumentCallback }

/-- The callback has returned to `FinishFade`. -/
def callbackReturns (index : ℕ) : Board :=
  b.setChannel index { b.channels index with noArgumentCallback := none }

end Board

def intMax : ℤ := 2 ^ 31 - 1

inductive Happening where
  | attachChannel (pin frequency resolution index : ℕ) (claimed : Bool) (nowUs : ℤ)
  | attach (pin frequency resolution : ℕ) (claimed : Bool) (nowUs : ℤ)
  | detach (pin : ℕ) (nowUs : ℤ)
  | write (pin duty : ℕ)
  | writeChannel (index duty : ℕ)
  | writeTone (pin frequency : ℕ)
  | changeFrequency (pin frequency resolution : ℕ) (nowUs : ℤ)
  | outputInvert (pin : ℕ) (inverted : Bool)
  | fade (c : FadeCall) (alarm : ℕ)
  | fadeWithInterrupt (c : FadeCall) (alarm : ℕ) (callback : Option ℕ)
  | fadeWithInterruptArg (c : FadeCall) (alarm : ℕ) (callback : Option ℕ) (arg : ℕ)
  | deadline (index generation : ℕ)
  | finishFade (index : ℕ)
  | callbackReturns (index : ℕ)

/-- The duration of a fade is an `int`. -/
def happen (soc : Soc) (b : Board) : Happening → Option Board
  | .attachChannel pin frequency resolution index claimed nowUs =>
    some (b.ledcAttachChannel soc pin frequency resolution index claimed nowUs).2
  | .attach pin frequency resolution claimed nowUs =>
    some (b.ledcAttach soc pin frequency resolution claimed nowUs).2
  | .detach pin nowUs => some (b.ledcDetach soc pin nowUs).2
  | .write pin duty => some (b.ledcWrite soc pin duty).2
  | .writeChannel index duty => some (b.ledcWriteChannel soc index duty).2
  | .writeTone pin frequency => some (b.ledcWriteTone soc pin frequency).2
  | .changeFrequency pin frequency resolution nowUs =>
    some (b.ledcChangeFrequency soc pin frequency resolution nowUs).2
  | .outputInvert pin inverted => some (b.ledcOutputInvert soc pin inverted).2
  | .fade c alarm =>
    if c.durationMs ≤ intMax then some (b.startFade soc c alarm none .null).2 else none
  | .fadeWithInterrupt c alarm callback =>
    if c.durationMs ≤ intMax then
      match callback with
      | none => some (b.startFade soc c alarm none .null).2
      | some f => some (b.ledcFadeWithInterrupt soc c alarm f).2
    else none
  | .fadeWithInterruptArg c alarm callback arg =>
    if c.durationMs ≤ intMax then
      some (b.startFade soc c alarm (callback.map .user) (.user arg)).2
    else none
  | .deadline index generation => some (b.deadline index generation)
  | .finishFade index => some (b.finishFade index)
  | .callbackReturns index => some (b.callbackReturns index)

end RooTesting.LedcReadings
