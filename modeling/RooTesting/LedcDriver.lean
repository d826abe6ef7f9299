import RooTesting.FadeEngine

/-! # The ESP-IDF LEDC driver

The sections of every driver call under the driver's lock, as functions of the timers,
the channels, the semaphores and the fade engine. Clock readings and the results of the
interrupt allocator and of the semaphore allocator come in as arguments. -/
namespace RooTesting.LedcDriver
open FadeEngine

def speedModeMax : ℕ := 2
def channelMax : ℕ := 8
def timerMax : ℕ := 4
def timer1Bit : ℕ := 1
def timerBitMax : ℕ := 21
def int32Max : ℕ := 2 ^ 31 - 1
def ledcErrDuty : ℕ := 0xFFFFFFFF

inductive EspErr where
  | ok | fail | noMem | invalidArg | invalidState | notFound
  deriving DecidableEq

inductive FadeMode where
  | noWait | waitDone | max
  deriving DecidableEq

structure TimerConfig where
  speedMode : ℕ := 0
  dutyResolution : ℕ := 0
  timerNum : ℕ := 0
  freqHz : ℕ := 0
  deconfigure : Bool := false
  deriving DecidableEq

structure ChannelConfig where
  gpioNum : ℤ := 0
  speedMode : ℕ := 0
  channel : ℕ := 0
  timerSel : ℕ := 0
  duty : ℕ := 0
  hpoint : ℤ := 0
  outputInvert : Bool := false
  deconfigure : Bool := false
  deriving DecidableEq

structure TimerState where
  configured : Bool := false
  config : TimerConfig := {}
  carrierOriginUs : ℤ := 0
  deriving DecidableEq

/-- A callback and the gate are handles; `none` is the null pointer. -/
structure ChannelState where
  configured : Bool := false
  config : ChannelConfig := {}
  pendingDuty : ℕ := 0
  pendingHpoint : ℕ := 0
  duty : ℕ := 0
  hpoint : ℕ := 0
  fadeTarget : ℕ := 0
  fadeDurationUs : ℕ := 0
  fadeCb : Option ℕ := none
  callbackArg : ℕ := 0
  gate : Option ℕ := none
  deriving DecidableEq

structure Publication where
  pin : ℤ
  signal : VoltageSignal
  deriving DecidableEq

/-- The timers by mode and number, the channels by fade index, and the binary
semaphores by handle. -/
structure Driver where
  timers : ℕ × ℕ → TimerState
  channels : ℕ → ChannelState
  engine : Engine
  fadeInstalled : Bool
  interruptHandle : Option ℕ
  locked : Bool
  semaphores : ℕ → Bool
  semaphoreCount : ℕ

def start : Driver :=
  ⟨fun _ => {}, fun _ => {}, initial, false, none, false, fun _ => false, 0⟩

def validMode (mode : ℕ) : Bool := mode < speedModeMax
def validTimer (timer : ℕ) : Bool := timer < timerMax
def validChannel (channel : ℕ) : Bool := channel < channelMax

/-- `IsOutputPin` on the ESP32: forty pins, six of them missing and six input only. -/
def validPin (pin : ℤ) : Bool :=
  0 ≤ pin && pin < 34 && !(pin = 24 || pin = 28 || pin = 29 || pin = 30 || pin = 31)

def validTimerConfig (config : TimerConfig) : Bool :=
  config.freqHz ≠ 0 && timer1Bit ≤ config.dutyResolution && config.dutyResolution < timerBitMax

def validOutput (timer : TimerState) (duty hpoint : ℕ) : Bool :=
  timer.configured && duty ≤ period timer.config.dutyResolution &&
    hpoint < period timer.config.dutyResolution

def fadeIndex (mode channel : ℕ) : ℕ := mode * channelMax + channel

namespace Driver

variable (d : Driver)

def setTimer (mode timer : ℕ) (t : TimerState) : Driver :=
  { d with timers := Function.update d.timers (mode, timer) t }

def setChannel (index : ℕ) (c : ChannelState) : Driver :=
  { d with channels := Function.update d.channels index c }

def timerOf (mode : ℕ) (c : ChannelState) : TimerState := d.timers (mode, c.config.timerSel)

def buildSignal (mode : ℕ) (c : ChannelState) : VoltageSignal :=
  let timer := d.timerOf mode c
  if !c.configured || !validOutput timer c.duty c.hpoint then .zero
  else
    let scale : ℚ := period timer.config.dutyResolution
    .square timer.config.freqHz (.constant (c.duty / scale)) timer.carrierOriginUs
      (c.hpoint / scale) c.config.outputInvert

def addPublication (mode : ℕ) (c : ChannelState) : List Publication :=
  if c.configured then [⟨c.config.gpioNum, d.buildSignal mode c⟩] else []

/-- `xSemaphoreTake` without waiting. -/
def take (gate : ℕ) : Option Driver :=
  if d.semaphores gate then some { d with semaphores := Function.update d.semaphores gate false }
  else none

def give (gate : ℕ) : Driver := { d with semaphores := Function.update d.semaphores gate true }

/-- The gate of a channel, created and given when there is none yet. -/
def ensureGate (index : ℕ) (created : Bool) : Option (ℕ × Driver) :=
  match (d.channels index).gate with
  | some gate => some (gate, d)
  | none =>
    if created then
      let gate := d.semaphoreCount
      let d := { d with semaphoreCount := gate + 1 }
      some (gate, (d.setChannel index { d.channels index with gate := some gate }).give gate)
    else none

/-- The clamping of one channel after its timer has changed its resolution. -/
def clampChannel (period : ℕ) (c : ChannelState) : ChannelState :=
  { c with
    pendingDuty := min c.pendingDuty period
    duty := min c.duty period
    pendingHpoint := min c.pendingHpoint (period - 1)
    hpoint := min c.hpoint (period - 1) }

/-- The configured channels of a mode that run on a timer. -/
def usesTimer (mode timer index : ℕ) : Bool :=
  index / channelMax = mode && (d.channels index).configured &&
    (d.channels index).config.timerSel = timer

def timerConfig (config : Option TimerConfig) (originUs : ℤ) :
    EspErr × Driver × List Publication :=
  match config with
  | none => (.invalidArg, d, [])
  | some config =>
    if !validMode config.speedMode || !validTimer config.timerNum then (.invalidArg, d, [])
    else if !config.deconfigure && !validTimerConfig config then (.invalidArg, d, [])
    else
      let timer := d.timers (config.speedMode, config.timerNum)
      let d :=
        if config.deconfigure then d.setTimer config.speedMode config.timerNum {}
        else
          let d := d.setTimer config.speedMode config.timerNum ⟨true, config, originUs⟩
          if timer.configured && timer.config.dutyResolution ≠ config.dutyResolution then
            { d with channels := fun index =>
                if d.usesTimer config.speedMode config.timerNum index then
                  clampChannel (period config.dutyResolution) (d.channels index)
                else d.channels index }
          else d
      (.ok, d, (List.range channelMax).flatMap fun channel =>
        let index := fadeIndex config.speedMode channel
        if d.usesTimer config.speedMode config.timerNum index then
          d.addPublication config.speedMode (d.channels index)
        else [])

def channelConfig (config : Option ChannelConfig) : EspErr × Driver × List Publication :=
  match config with
  | none => (.invalidArg, d, [])
  | some config =>
    if !validMode config.speedMode || !validChannel config.channel then (.invalidArg, d, [])
    else if !config.deconfigure &&
        (!validTimer config.timerSel || !validPin config.gpioNum || config.hpoint < 0) then
      (.invalidArg, d, [])
    else
      let index := fadeIndex config.speedMode config.channel
      let c := d.channels index
      if config.deconfigure then
        (.ok, d.setChannel index {}, if c.configured then [⟨c.config.gpioNum, .zero⟩] else [])
      else
        let timer := d.timers (config.speedMode, config.timerSel)
        if timer.configured && !validOutput timer config.duty config.hpoint.toNat then
          (.invalidArg, d, [])
        else
          let silenced : List Publication :=
            if c.configured && c.config.gpioNum ≠ config.gpioNum then
              [⟨c.config.gpioNum, .zero⟩]
            else []
          let c := { c with
            configured := true
            config := config
            pendingDuty := config.duty
            pendingHpoint := config.hpoint.toNat
            duty := config.duty
            hpoint := config.hpoint.toNat }
          let d := d.setChannel index c
          (.ok, d, silenced ++ d.addPublication config.speedMode c)

/-- The results of the interrupt allocator come in: a handle or an error, and whether
the handle could be enabled. -/
def fadeFuncInstall (alloc : Except EspErr ℕ) (enabled : Bool) : EspErr × Driver :=
  if d.fadeInstalled then (.invalidState, d)
  else
    match alloc with
    | .error e => (e, d)
    | .ok handle =>
      if enabled then
        (.ok, { d with
          interruptHandle := some handle
          fadeInstalled := true
          engine := d.engine.setCompletionNotifier true })
      else (.fail, d)

def cbRegister (mode channel : ℕ) (cbs : Option (Option ℕ)) (userArg : ℕ) : EspErr × Driver :=
  match cbs with
  | none => (.invalidArg, d)
  | some cb =>
    if !validMode mode || !validChannel channel then (.invalidArg, d)
    else
      let c := d.channels (fadeIndex mode channel)
      if !d.fadeInstalled || !c.configured then (.invalidState, d)
      else (.ok, d.setChannel (fadeIndex mode channel) { c with
        fadeCb := cb
        callbackArg := userArg })

def setDuty (mode channel duty : ℕ) : EspErr × Driver :=
  if !validMode mode || !validChannel channel then (.invalidArg, d)
  else
    let c := d.channels (fadeIndex mode channel)
    let timer := d.timerOf mode c
    if !c.configured then (.invalidState, d)
    else if timer.configured && !validOutput timer duty c.pendingHpoint then (.invalidArg, d)
    else (.ok, d.setChannel (fadeIndex mode channel) { c with pendingDuty := duty })

def setDutyWithHpoint (mode channel duty hpoint : ℕ) : EspErr × Driver :=
  if !validMode mode || !validChannel channel then (.invalidArg, d)
  else
    let c := d.channels (fadeIndex mode channel)
    let timer := d.timerOf mode c
    if !c.configured then (.invalidState, d)
    else if timer.configured && !validOutput timer duty hpoint then (.invalidArg, d)
    else (.ok, d.setChannel (fadeIndex mode channel) { c with
      pendingDuty := duty
      pendingHpoint := hpoint })

def updateDuty (mode channel : ℕ) : EspErr × Driver × List Publication :=
  if !validMode mode || !validChannel channel then (.invalidArg, d, [])
  else
    let c := d.channels (fadeIndex mode channel)
    if !c.configured then (.invalidState, d, [])
    else if (d.engine.snapshot (fadeIndex mode channel) 0).gateHeld then (.invalidState, d, [])
    else if !validOutput (d.timerOf mode c) c.pendingDuty c.pendingHpoint then (.invalidArg, d, [])
    else
      let c := { c with duty := c.pendingDuty, hpoint := c.pendingHpoint }
      let d := d.setChannel (fadeIndex mode channel) c
      (.ok, d, d.addPublication mode c)

def setDutyAndUpdate (mode channel duty hpoint : ℕ) : EspErr × Driver × List Publication :=
  if !validMode mode || !validChannel channel then (.invalidArg, d, [])
  else
    let c := d.channels (fadeIndex mode channel)
    if !c.configured then (.invalidState, d, [])
    else if !validOutput (d.timerOf mode c) duty hpoint then (.invalidArg, d, [])
    else if (d.engine.snapshot (fadeIndex mode channel) 0).gateHeld then (.invalidState, d, [])
    else
      let c := { c with
        pendingDuty := duty
        pendingHpoint := hpoint
        duty := duty
        hpoint := hpoint }
      let d := d.setChannel (fadeIndex mode channel) c
      (.ok, d, d.addPublication mode c)

def getDuty (mode channel : ℕ) (nowUs : ℤ) : ℕ :=
  if !validMode mode || !validChannel channel then ledcErrDuty
  else
    let c := d.channels (fadeIndex mode channel)
    if !c.configured then ledcErrDuty
    else
      let fade := d.engine.snapshot (fadeIndex mode channel) nowUs
      if fade.gateHeld then fade.duty else c.duty

/-- The time is an `int`, so that none is above the second bound. -/
def setFadeWithTime (mode channel targetDuty : ℕ) (desiredFadeTimeMs : ℤ) : EspErr × Driver :=
  if !validMode mode || !validChannel channel || desiredFadeTimeMs < 0 ||
      int32Max < desiredFadeTimeMs then (.invalidArg, d)
  else
    let c := d.channels (fadeIndex mode channel)
    if !d.fadeInstalled || !c.configured then (.invalidState, d)
    else if !validOutput (d.timerOf mode c) targetDuty c.hpoint then (.invalidArg, d)
    else (.ok, d.setChannel (fadeIndex mode channel) { c with
      fadeTarget := targetDuty
      fadeDurationUs := desiredFadeTimeMs.toNat * 1000 })

/-- What a fade on a channel asks of the engine. -/
def request (mode channel : ℕ) : Request :=
  let c := d.channels (fadeIndex mode channel)
  let timer := d.timerOf mode c
  { channel := fadeIndex mode channel
    pin := c.config.gpioNum
    frequencyHz := timer.config.freqHz
    resolution := timer.config.dutyResolution
    startDuty := c.duty
    targetDuty := c.fadeTarget
    carrierOriginUs := timer.carrierOriginUs
    pulseStartPhase := c.hpoint / (period timer.config.dutyResolution : ℚ)
    inverted := c.config.outputInvert
    durationUs := c.fadeDurationUs }

/-- The locked section of `ledc_fade_start`: the gate it has taken and the request. -/
def fadeStart (mode channel : ℕ) (fadeMode : FadeMode) (created : Bool) :
    Except EspErr (ℕ × Request × Driver) :=
  if !validMode mode || !validChannel channel || fadeMode = .max then .error .invalidArg
  else
    let c := d.channels (fadeIndex mode channel)
    if !d.fadeInstalled || !c.configured then .error .invalidState
    else if !validOutput (d.timerOf mode c) c.fadeTarget c.hpoint then .error .invalidArg
    else
      match (d.ensureGate (fadeIndex mode channel) created).bind fun g =>
          (g.2.take g.1).map fun d => (g.1, d) with
      | none => .error .invalidState
      | some (gate, d) => .ok (gate, d.request mode channel, d)

/-- The locked section of `LedcInterrupt` for one completion; the result is the callback
to run. -/
def publishCompletion (completion : Completion) : Option (ℕ × ℕ) × Driver :=
  let c := d.channels completion.channel
  let d := d.setChannel completion.channel { c with
    duty := completion.duty
    pendingDuty := completion.duty }
  (c.fadeCb.map fun cb => (cb, c.callbackArg),
    match c.gate with
    | some gate => d.give gate
    | none => d)

/-- One channel's callbacks, cleared by `ledc_fade_func_uninstall`. -/
def clearCallbacks (index : ℕ) : Driver :=
  d.setChannel index { d.channels index with fadeCb := none, callbackArg := 0 }

/-- The end of the locked section of `ledc_fade_func_uninstall`. -/
def uninstalled : Driver :=
  { d with
    engine := d.engine.setCompletionNotifier false
    fadeInstalled := false
    interruptHandle := none
    locked := false }

end Driver

end RooTesting.LedcDriver
