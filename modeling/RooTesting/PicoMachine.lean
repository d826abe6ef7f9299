import RooTesting.PicoBoard

/-! # Board operations and their publications

A device callback may call the board again while a publication is under way, so the
publications in progress form a stack. Every operation of the board is one of four kinds
of change, and everything proved of runs rests on these four. -/
namespace RooTesting.PicoBoard
open Checks Transition

/-- What an operation still has to publish: the pins of changed drives, and then the
converter pin it marks; or the pins of a slice. -/
inductive Task where
  | drives (changed : BitVec 32) (adcPin : Option ℕ)
  | slice (slice : ℕ)

inductive Op where
  | attachInput (pin source : ℕ)
  | attachOutput (pin sink : ℕ)
  | attach (pin io : ℕ)
  | attachUartDevice (device : ℕ) (tx rx : ℤ)
  | attachSpiDevice (device : ℕ) (clk miso mosi : ℤ)
  | attachI2cDevice (device : ℕ) (sda scl : ℤ)
  | init (mask : BitVec 32)
  | setFunction (mask : BitVec 32) (function : GpioFunction)
  | put (mask value : BitVec 32)
  | toggle (mask : BitVec 32)
  | setDirection (mask value : BitVec 32)
  | setPulls (pin : ℕ) (up down : Bool)
  | setInputEnabled (pin : ℕ) (enabled : Bool)
  | setInputOverride (pin value : ℕ)
  | setOutputOverride (pin value : ℕ)
  | setOutputEnableOverride (pin value : ℕ)
  | initAdcGpio (pin : ℕ)
  | setPwmState (slice : ℕ) (state : PwmState)
  | initUart (index baudrate : ℕ)
  | deinitUart (index : ℕ)
  | setUartBaudrate (index baudrate : ℕ)
  | setUartTranslateCrLf (index : ℕ) (enabled : Bool)
  | initSpi (index baudrate : ℕ)
  | deinitSpi (index : ℕ)
  | setSpiBaudrate (index baudrate : ℕ)
  | setSpiFormat (index dataBits cpol cpha : ℕ) (msbFirst : Bool)
  | beginSpi (index : ℕ)
  | endSpi (index : ℕ)
  | initI2c (index baudrate : ℕ)
  | deinitI2c (index : ℕ)
  | setI2cBaudrate (index baudrate : ℕ)
  | beginI2c (index : ℕ)
  | endI2c (index : ℕ) (restart : Bool)
  | initAdc
  | selectAdc (input : ℕ)

def settled (x : Except String Board) : Except String (Board × Option Task) :=
  x.map fun b => (b, none)

def answered (x : Except String (Board × ℕ)) : Except String (Board × Option Task) :=
  x.map fun r => (r.1, none)

def published (adcPin : Option ℕ) (x : Except String (Board × BitVec 32)) :
    Except String (Board × Option Task) :=
  x.map fun r => (r.1, some (.drives r.2 adcPin))

variable (fixture : Fixture)

def Op.perform (b : Board) : Op → Except String (Board × Option Task)
  | .attachInput pin source => settled (b.attachInput fixture pin source)
  | .attachOutput pin sink => settled (b.attachOutput fixture pin sink)
  | .attach pin io => settled (b.attach fixture pin io)
  | .attachUartDevice device tx rx => settled (b.attachUartDevice fixture device tx rx)
  | .attachSpiDevice device clk miso mosi =>
    settled (b.attachSpiDevice fixture device clk miso mosi)
  | .attachI2cDevice device sda scl => settled (b.attachI2cDevice fixture device sda scl)
  | .init mask => published none (b.init fixture mask)
  | .setFunction mask function => published none (b.setFunction fixture mask function)
  | .put mask value => published none (b.put fixture mask value)
  | .toggle mask => published none (b.toggle fixture mask)
  | .setDirection mask value => published none (b.setDirection fixture mask value)
  | .setPulls pin up down => published none (b.setPulls fixture pin up down)
  | .setInputEnabled pin enabled => published none (b.setInputEnabled fixture pin enabled)
  | .setInputOverride pin value => published none (b.setInputOverride fixture pin value)
  | .setOutputOverride pin value => published none (b.setOutputOverride fixture pin value)
  | .setOutputEnableOverride pin value =>
    published none (b.setOutputEnableOverride fixture pin value)
  | .initAdcGpio pin => published (some pin) (b.initAdcGpio fixture pin)
  | .setPwmState slice state =>
    (b.setPwmState fixture slice state).map fun b => (b, some (.slice slice))
  | .initUart index baudrate => answered (b.initUart index baudrate)
  | .deinitUart index => settled (b.deinitUart index)
  | .setUartBaudrate index baudrate => answered (b.setUartBaudrate index baudrate)
  | .setUartTranslateCrLf index enabled => settled (b.setUartTranslateCrLf index enabled)
  | .initSpi index baudrate => answered (b.initSpi fixture index baudrate)
  | .deinitSpi index => settled (b.deinitSpi fixture index)
  | .setSpiBaudrate index baudrate => answered (b.setSpiBaudrate fixture index baudrate)
  | .setSpiFormat index dataBits cpol cpha msbFirst =>
    settled (b.setSpiFormat fixture index dataBits cpol cpha msbFirst)
  | .beginSpi index => settled (b.beginSpi fixture index)
  | .endSpi index => settled (b.endSpi index)
  | .initI2c index baudrate => answered (b.initI2c fixture index baudrate)
  | .deinitI2c index => settled (b.deinitI2c fixture index)
  | .setI2cBaudrate index baudrate => answered (b.setI2cBaudrate fixture index baudrate)
  | .beginI2c index => settled (b.beginI2c fixture index)
  | .endI2c index restart => settled (b.endI2c index restart)
  | .initAdc => settled (b.initAdc fixture)
  | .selectAdc input => settled (b.selectAdc fixture input)

/-- A publication under way: the next pin of its loop, and whether the device behind the
last written pin still runs. -/
structure Frame where
  task : Task
  pin : ℕ := 0
  inSink : Bool := false

structure Session where
  board : Board
  frames : List Frame

def Session.start : Session := ⟨initial, []⟩

inductive Event where
  | call (op : Op)
  | visit
  | sinkReturns

/-- The pins a loop publishes, as the board is when it gets to them. -/
def Task.selects (b : Board) (pin : ℕ) : Task → Bool
  | .drives changed _ => changed.getLsbD pin
  | .slice index => (b.pins pin).function = .pwm && pwmSlice pin = index

/-- What is left of an operation after its loop. -/
def Task.finish (b : Board) : Task → Board
  | .drives _ none => b
  | .drives _ (some pin) => { b with adcPins := Function.update b.adcPins (pin - 26) true }
  | .slice _ => { b with publishingPwm := false }

/-- The signal `publish` writes to a pin, if any. -/
def Board.publishes (b : Board) (pin : ℕ) : Option VoltageSignal :=
  if b.busOwned pin then none else b.drive pin

def Session.visit (b : Board) (f : Frame) (frames : List Frame) : Session :=
  if f.pin < gpioCount then
    match if f.task.selects b f.pin then b.publishes f.pin else none with
    | some signal => ⟨b.write f.pin signal, ⟨f.task, f.pin + 1, true⟩ :: frames⟩
    | none => ⟨b, ⟨f.task, f.pin + 1, false⟩ :: frames⟩
  else ⟨f.task.finish b, frames⟩

/-- Code outside the board runs before every operation and inside every device. -/
def Session.open (s : Session) : Bool :=
  match s.frames with
  | [] => true
  | f :: _ => f.inSink

def Session.call (s : Session) (op : Op) : Session :=
  match op.perform fixture s.board with
  | .ok (b, none) => ⟨b, s.frames⟩
  | .ok (b, some task) => ⟨b, ⟨task, 0, false⟩ :: s.frames⟩
  | .error _ => s

/-- A rejected operation leaves everything as it was. -/
def step (s : Session) : Event → Option Session
  | .call op => if s.open then some (s.call fixture op) else none
  | .visit =>
    match s.frames with
    | [] => none
    | f :: frames => if f.inSink then none else some (Session.visit s.board f frames)
  | .sinkReturns =>
    match s.frames with
    | [] => none
    | f :: frames =>
      if f.inSink then some ⟨s.board, ⟨f.task, f.pin, false⟩ :: frames⟩ else none

section Inversion

variable {fixture : Fixture} {s s' : Session}

theorem step_call {op : Op} (h : step fixture s (.call op) = some s') :
    s.open = true ∧ s' = s.call fixture op := by
  simp only [step, Option.ite_none_right_eq_some, Option.some.injEq] at h
  exact ⟨h.1, h.2.symm⟩

theorem step_visit (h : step fixture s .visit = some s') :
    ∃ f frames, s.frames = f :: frames ∧ f.inSink = false ∧
      s' = Session.visit s.board f frames := by
  simp only [step] at h
  cases hframes : s.frames with
  | nil => simp [hframes] at h
  | cons f frames =>
    simp only [hframes, Option.ite_none_left_eq_some, Option.some.injEq] at h
    exact ⟨f, frames, rfl, by simpa using h.1, h.2.symm⟩

theorem step_sinkReturns (h : step fixture s .sinkReturns = some s') :
    ∃ f frames, s.frames = f :: frames ∧
      s' = ⟨s.board, ⟨f.task, f.pin, false⟩ :: frames⟩ := by
  simp only [step] at h
  cases hframes : s.frames with
  | nil => simp [hframes] at h
  | cons f frames =>
    simp only [hframes, Option.ite_none_right_eq_some, Option.some.injEq] at h
    exact ⟨f, frames, rfl, h.2.symm⟩

end Inversion

end RooTesting.PicoBoard
