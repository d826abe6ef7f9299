import RooTesting.FadeGenerations

/-! # The Arduino LEDC calls over the fade engine

The pins, channels and callbacks of the calls are plain data. A call runs alone up to and with
its section of the engine; drains, deadlines and the completion interrupt come in between, and
while the interrupt is served only the callback it runs makes calls. -/
namespace RooTesting.ArduinoLedc
open Transition Threads FadeEngine

/-- The pins and channels of the target. -/
structure Soc where
  pins : ℕ
  channels : ℕ
  timerBitWidth : ℕ
  isOutputPin : ℕ → Bool
  output_lt : ∀ pin, isOutputPin pin = true → pin < pins
  channels_le : channels ≤ kChannels

/-- A callback takes one argument; `noArgument` is `NoArgumentCallback`. -/
inductive Function
  | noArgument
  | user (f : ℕ)
  deriving DecidableEq

inductive Argument
  | null
  | channel (index : ℕ)
  | user (a : ℕ)
  deriving DecidableEq

structure Channel where
  attached : Bool := false
  pin : ℕ := 255
  resolution : ℕ := 8
  frequency : ℕ := 1000
  duty : ℕ := 0
  inverted : Bool := false
  carrierOriginUs : ℤ := 0
  callback : Option Function := none
  callbackArg : Argument := .null
  noArgumentCallback : Option ℕ := none
  deriving DecidableEq

/-- What a fade asks to be called at its completion. -/
inductive Call
  | plain (f : ℕ)
  | withArg (f a : ℕ)
  deriving DecidableEq

inductive Status
  | live
  | dropped (late : Bool)
  | completed
  deriving DecidableEq

/-- A started fade: what it wants called, and what was called at its completion. -/
structure Fade where
  channel : ℕ
  generation : ℕ
  request : Request
  wanted : Option Call
  status : Status
  calls : List Call
  deriving DecidableEq

/-- `FinishFade` on a thread: the next channel of its loop, and whether a callback runs. -/
structure Isr where
  thread : ℕ
  next : ℕ
  calling : Bool
  deriving DecidableEq

/-- The state of the calls and of the engine, with a record of the started fades. -/
structure World where
  engine : System × List Entry
  channels : ℕ → Channel
  pinChannel : ℕ → Option ℕ
  fadeInterrupt : Bool
  isr : Option Isr
  started : ℕ
  fades : ℕ → Fade
  live : ℕ → Option ℕ

def World.initial : World where
  engine := (FadeEngine.start, [])
  channels := fun _ => {}
  pinChannel := fun _ => none
  fadeInterrupt := false
  isr := none
  started := 0
  fades := fun _ => ⟨0, 0, emptyRequest, none, .live, []⟩
  live := fun _ => none

structure FadeCall where
  pin : ℕ
  startDuty : ℕ
  targetDuty : ℕ
  durationMs : ℤ
  ensured : Bool
  nowUs : ℤ
  deriving DecidableEq

inductive Action
  | engine (t : ℕ) (a : Event)
  | attachChannel (t pin frequency resolution channel : ℕ) (claimed : Bool) (nowUs : ℤ)
  | attach (t pin frequency resolution : ℕ) (claimed : Bool) (nowUs : ℤ)
  | detach (t pin : ℕ) (nowUs : ℤ)
  | fade (t : ℕ) (c : FadeCall)
  | fadeWithInterrupt (t : ℕ) (c : FadeCall) (callback : Option ℕ)
  | fadeWithInterruptArg (t : ℕ) (c : FadeCall) (callback : Option ℕ) (arg : ℕ)
  | interrupt (t : ℕ)
  | takeCompletion
  | callbackReturns

def mappedDuty (resolution duty : ℕ) : ℕ :=
  if 1 < resolution ∧ period resolution - 1 ≤ duty then period resolution
  else min duty (period resolution)

theorem mappedDuty_le (resolution duty : ℕ) : mappedDuty resolution duty ≤ period resolution := by
  rw [mappedDuty]
  split
  · exact le_rfl
  · exact min_le_right _ _

/-- The engine works on its own. -/
def internal : Event → Bool
  | .scheduled _ | .deadline .. | .resume => true
  | _ => false

namespace World

variable (w : World)

def setChannel (index : ℕ) (c : Channel) : World :=
  { w with channels := Function.update w.channels index c }

def forPin (soc : Soc) (pin : ℕ) : Option ℕ :=
  if pin < soc.pins then w.pinChannel pin else none

def gate (index : ℕ) : FadeEngine.Channel := w.engine.1.shared.channels index

/-- `FadeActive`; whether the gate is held does not depend on the time. -/
def fadeActive (index : ℕ) : Bool := (w.engine.1.shared.snapshot index 0).gateHeld

/-- A section of the engine on a thread. -/
def enter (t : ℕ) (a : Event) : Option World :=
  (recordedStep w.engine (t, a)).map fun x => { w with engine := x }

/-- The fade of a channel is past its deadline. -/
def pastDeadline (index : ℕ) (nowUs : ℤ) : Bool :=
  let c := w.gate index
  decide (c.state = .queued ∨ c.state = .pending ∨
    (c.state = .armed ∧ c.fadeStartUs + c.request.durationUs ≤ nowUs))

/-- The record of the fade on a channel that is detached or given to another pin. -/
def drop (index : ℕ) (late : Bool) : World :=
  match w.live index with
  | none => w
  | some id =>
    let fade := w.fades id
    if fade.status = .live then
      { w with fades := Function.update w.fades id { fade with status := .dropped late } }
    else w

/-- Where the engine has let go of a channel, no fade of it is under way. -/
def settle (index : ℕ) : World :=
  if (w.gate index).state = .cancelled ∨ (w.gate index).state = .idle then
    { w with live := Function.update w.live index none }
  else w

/-- `Cancel` of the channel and its fresh state. -/
def release (t index : ℕ) (nowUs : ℤ) : Option World :=
  ((w.drop index (w.pastDeadline index nowUs)).enter t (.cancel index nowUs)).map fun w =>
    (w.settle index).setChannel index {}

def ledcDetach (soc : Soc) (t pin : ℕ) (nowUs : ℤ) : Option World :=
  match w.forPin soc pin with
  | none => some w
  | some index => (w.release t index nowUs).map fun w =>
      { w with pinChannel := Function.update w.pinChannel pin none }

/-- The part of `ledcAttachChannel` that takes the channel away from another pin. -/
def reassign (t channel : ℕ) (nowUs : ℤ) : Option World :=
  if (w.channels channel).attached then
    (w.release t channel nowUs).map fun v =>
      { v with pinChannel := Function.update v.pinChannel (w.channels channel).pin none }
  else some w

/-- A call on a pin that is in use begins with its `ledcDetach`, a step of its own. -/
def ledcAttachChannel (soc : Soc) (t pin frequency resolution channel : ℕ) (claimed : Bool)
    (nowUs : ℤ) : Option World :=
  if soc.isOutputPin pin = false ∨ soc.channels ≤ channel ∨ resolution = 0 ∨
      soc.timerBitWidth < resolution then some w
  else if w.pinChannel pin ≠ none then none
  else (w.reassign t channel nowUs).map fun w =>
    let state : Channel := {
      attached := true
      pin := pin
      resolution := resolution
      frequency := frequency
      carrierOriginUs := nowUs }
    if claimed then
      { w.setChannel channel state with
        pinChannel := Function.update w.pinChannel pin (some channel) }
    else w.setChannel channel {}

def ledcAttach (soc : Soc) (t pin frequency resolution : ℕ) (claimed : Bool) (nowUs : ℤ) :
    Option World :=
  match (List.range soc.channels).find? fun i => !(w.channels i).attached with
  | none => some w
  | some channel => w.ledcAttachChannel soc t pin frequency resolution channel claimed nowUs

def ensureFadeInterrupt (t : ℕ) (ensured : Bool) : Option (Bool × World) :=
  if w.fadeInterrupt then some (true, w)
  else if ensured then
    (w.enter t (.setCompletionNotifier true)).map fun w => (true, { w with fadeInterrupt := true })
  else some (false, w)

def request (index : ℕ) (c : FadeCall) : Request :=
  let state := w.channels index
  { channel := index
    pin := state.pin
    frequencyHz := state.frequency
    resolution := state.resolution
    startDuty := mappedDuty state.resolution c.startDuty
    targetDuty := mappedDuty state.resolution c.targetDuty
    carrierOriginUs := state.carrierOriginUs
    inverted := state.inverted
    durationUs := c.durationMs.toNat * 1000 }

/-- `Start` returns true. -/
def accepts (t : ℕ) (r : Request) (nowUs : ℤ) : Bool :=
  !(w.engine.1.thread t).active && r.accepted nowUs && (w.engine.1.shared.start r nowUs).isSome

/-- The record of a fade that has been started. -/
def begun (index : ℕ) (r : Request) (wanted : Option Call) : World :=
  { w with
    started := w.started + 1
    fades := Function.update w.fades w.started
      ⟨index, (w.gate index).generation, r, wanted, .live, []⟩
    live := Function.update w.live index (some w.started) }

/-- `Start` with the callback installed before and taken back when it fails. -/
def startRequest (t index : ℕ) (c : FadeCall) (callback : Option Function) (arg : Argument)
    (wanted : Option Call) : Option World :=
  -- neither duty is above the period, so that check of the source never fails
  let r := w.request index c
  let state := { w.channels index with duty := r.startDuty }
  if w.accepts t r c.nowUs then
    (w.enter t (.start r c.nowUs)).map fun w =>
      (w.setChannel index { state with callback := callback, callbackArg := arg }).begun index r
        wanted
  else (w.enter t (.start r c.nowUs)).map fun w =>
    w.setChannel index { state with callback := none, callbackArg := .null }

def startFade (soc : Soc) (t : ℕ) (c : FadeCall) (callback : Option Function) (arg : Argument)
    (wanted : Option Call) : Option World :=
  if c.durationMs < 0 then some w
  else match w.forPin soc c.pin with
  | none => some w
  | some index =>
    if w.fadeActive index then some w
    else (w.ensureFadeInterrupt t c.ensured).bind fun ready =>
      if ready.1 then ready.2.startRequest t index c callback arg wanted else some ready.2

def ledcFadeWithInterrupt (soc : Soc) (t : ℕ) (c : FadeCall) (f : ℕ) : Option World :=
  match w.forPin soc c.pin with
  | none => some w
  | some index =>
    if w.fadeActive index then some w
    else (w.setChannel index
      { w.channels index with noArgumentCallback := some f }).startFade soc t c
        (some .noArgument) (.channel index) (some (.plain f))

/-- What a call of the installed callback comes to. -/
def invoked (callback : Option Function) (arg : Argument) : Option Call :=
  match callback, arg with
  | some .noArgument, .channel index => (w.channels index).noArgumentCallback.map .plain
  | some (.user f), .user a => some (.withArg f a)
  | _, _ => none

/-- The record of a completion that `FinishFade` has taken, and of the call it made. -/
def finish (index : ℕ) (call : Option Call) : World :=
  match w.live index with
  | none => w
  | some id => { w with
      live := Function.update w.live index none
      fades := Function.update w.fades id { w.fades id with
        status := if (w.fades id).status = .live then .completed else (w.fades id).status
        calls := call.toList ++ (w.fades id).calls } }

/-- The turn of `FinishFade` on an attached channel whose completion it has taken, up to the
call of the callback where there is one. -/
def deliver (i : Isr) (duty : ℕ) : World :=
  let state := w.channels i.next
  let call := w.invoked state.callback state.callbackArg
  let taken := { state with duty := duty, callback := none, callbackArg := .null }
  let w := w.finish i.next call
  if call = none then
    { w.setChannel i.next { taken with noArgumentCallback := none } with
      isr := some ⟨i.thread, i.next + 1, false⟩ }
  else { w.setChannel i.next taken with isr := some ⟨i.thread, i.next, true⟩ }

def finishFade (soc : Soc) (i : Isr) : Option World :=
  if i.next < soc.channels then
    match w.engine.1.shared.takeCompletion i.next with
    | none => some { w with isr := some ⟨i.thread, i.next + 1, false⟩ }
    | some (completion, _) => (w.enter i.thread (.takeCompletion i.next)).map fun w =>
        if (w.channels i.next).attached then w.deliver i completion.duty
        else { w.finish i.next none with isr := some ⟨i.thread, i.next + 1, false⟩ }
  else some { w with isr := none }

/-- The callback has returned to `FinishFade`. -/
def callbackReturns (i : Isr) : World :=
  { w.setChannel i.next { w.channels i.next with noArgumentCallback := none } with
    isr := some ⟨i.thread, i.next + 1, false⟩ }

/-- The thread is not held up by the interrupt, or it runs the callback of the interrupt. -/
def mayCall (t : ℕ) : Bool := w.isr.all fun i => i.calling && i.thread == t

end World

def step (soc : Soc) (w : World) : Action → Option World
  | .engine t a => if internal a then w.enter t a else none
  | .attachChannel t pin frequency resolution channel claimed nowUs =>
      if w.mayCall t then
        w.ledcAttachChannel soc t pin frequency resolution channel claimed nowUs
      else none
  | .attach t pin frequency resolution claimed nowUs =>
      if w.mayCall t then w.ledcAttach soc t pin frequency resolution claimed nowUs else none
  | .detach t pin nowUs => if w.mayCall t then w.ledcDetach soc t pin nowUs else none
  | .fade t c => if w.mayCall t then w.startFade soc t c none .null none else none
  | .fadeWithInterrupt t c callback =>
      if w.mayCall t then
        match callback with
        | none => w.startFade soc t c none .null none
        | some f => w.ledcFadeWithInterrupt soc t c f
      else none
  | .fadeWithInterruptArg t c callback arg =>
      if w.mayCall t then
        w.startFade soc t c (callback.map .user) (.user arg) (callback.map fun f => .withArg f arg)
      else none
  | .interrupt t =>
      if w.isr = none ∧ w.fadeInterrupt = true then some { w with isr := some ⟨t, 0, false⟩ }
      else none
  | .takeCompletion =>
      match w.isr with
      | some i => if i.calling then none else w.finishFade soc i
      | none => none
  | .callbackReturns =>
      match w.isr with
      | some i => if i.calling then some (w.callbackReturns i) else none
      | none => none

end RooTesting.ArduinoLedc
