import RooTesting.Checks
import RooTesting.Transition
import Mathlib.Algebra.Order.Floor.Ring
import Mathlib.Data.Rat.Floor
import Mathlib.Logic.Function.Basic

/-! # The RP2040 board

The thirty pins with their attachments, the serial controllers, the PWM slices and the
converter of `FakePicoBoard`. An operation checks first and changes afterwards; a failed
check ends it with its message. An operation that changes drives leaves the publication
of them as a task, since device callbacks run between its writes. Real signal parameters
are rationals. -/
namespace RooTesting.PicoBoard
open Checks

def gpioCount : ℕ := 30
def gpioMask : BitVec 64 := 0x3FFFFFFF

inductive GpioFunction where
  | xip | spi | uart | i2c | pwm | sio | pio0 | pio1 | gpck | usb | hstx | pio2
  | coresightTrace | uartAux | null
  deriving DecidableEq

inductive Override where
  | normal | invert | low | high
  deriving DecidableEq

def Override.ofValue : ℕ → Option Override
  | 0 => some normal
  | 1 => some invert
  | 2 => some low
  | 3 => some high
  | _ => none

def Override.apply (value : Bool) : Override → Bool
  | normal => value
  | invert => !value
  | low => false
  | high => true

structure PinState where
  function : GpioFunction := .null
  directionOut : Bool := false
  outputLatch : Bool := false
  pullUp : Bool := false
  pullDown : Bool := true
  inputEnabled : Bool := true
  inputOverride : Override := .normal
  outputOverride : Override := .normal
  outputEnableOverride : Override := .normal
  deriving DecidableEq

inductive Attachment where
  | none | input | output | io | uart | spi | i2c
  deriving DecidableEq

/-- The signals the board drives: a rail, or the pulse train of a running slice. -/
inductive VoltageSignal where
  | constant (voltage : ℚ)
  | square (low high frequencyHz duty : ℚ) (originUs : ℤ) (pulseStartCycles : ℚ)
      (inverted : Bool)
  deriving DecidableEq

structure PwmState where
  enabled : Bool := false
  divider16 : ℕ := 16
  wrap : ℕ := 65535
  levels : ℕ × ℕ := (0, 0)
  inverted : Bool × Bool := (false, false)
  counter : ℕ := 0
  originUs : ℤ := 0
  deriving DecidableEq

structure UartState where
  enabled : Bool := false
  baudrate : ℕ := 0
  translateCrLf : Bool := false
  deriving DecidableEq

structure SpiState where
  enabled : Bool := false
  busy : Bool := false
  baudrate : ℕ := 0
  dataBits : ℕ := 8
  mode : ℕ := 0
  deriving DecidableEq

structure I2cState where
  enabled : Bool := false
  busy : Bool := false
  restartOnNext : Bool := false
  baudrate : ℕ := 0
  deriving DecidableEq

/-- A device is a handle; a pin the device leaves out is −1. -/
structure UartConnection where
  device : ℕ
  tx : ℤ
  rx : ℤ
  deriving DecidableEq

structure SpiConnection where
  device : ℕ
  clk : ℤ
  miso : ℤ
  mosi : ℤ
  deriving DecidableEq

structure I2cConnection where
  device : ℕ
  sda : ℤ
  scl : ℤ
  deriving DecidableEq

/-- What a GPIO pin forwards to: a sink of its own, or the handle of a borrowed fixture. -/
inductive GpioDevice where
  | own | sink (sink : ℕ) | source (source : ℕ) | io (io : ℕ)
  deriving DecidableEq

structure FakeGpioPin where
  device : GpioDevice := .own
  lastSignal : Option VoltageSignal := none
  deriving DecidableEq

structure Board where
  pins : ℕ → PinState
  attachments : ℕ → Attachment
  configured : ℕ → Bool
  outputSinks : ℕ → Option ℕ
  uarts : ℕ → UartState
  uartConnections : List UartConnection
  spis : ℕ → SpiState
  spiConnections : List SpiConnection
  i2cs : ℕ → I2cState
  i2cConnections : List I2cConnection
  pwms : ℕ → PwmState
  publishingPwm : Bool
  adcEnabled : Bool
  adcInput : ℕ
  adcPins : ℕ → Bool
  gpio : ℕ → FakeGpioPin

/-- The build, the bus address of each device and the chip select sink of each device. -/
structure Fixture where
  freertos : Bool
  address : ℕ → ℕ
  cs : ℕ → ℕ

def initial : Board where
  pins := fun _ => {}
  attachments := fun _ => .none
  configured := fun _ => false
  outputSinks := fun _ => none
  uarts := fun _ => {}
  uartConnections := []
  spis := fun _ => {}
  spiConnections := []
  i2cs := fun _ => {}
  i2cConnections := []
  pwms := fun _ => {}
  publishingPwm := false
  adcEnabled := false
  adcInput := 0
  adcPins := fun _ => false
  gpio := fun _ => {}

/-- The level of a strong output, apart from the latch behind it. -/
def strongLevel (state : PinState) : Option Bool :=
  if state.function ≠ .sio || !state.outputEnableOverride.apply state.directionOut then none
  else some (state.outputOverride.apply state.outputLatch)

def railVoltage (high : Bool) : ℚ := if high then 33 / 10 else 0

def uartIndex (pin : ℕ) : ℕ := [0, 1, 1, 0, 0, 1, 1, 0].getD (pin / 4) 0

def spiIndex (pin : ℕ) : ℕ := pin / 8 % 2

def i2cIndex (pin : ℕ) : ℕ := pin / 2 % 2

def pwmSlice (pin : ℕ) : ℕ := pin / 2 % 8

/-- The divisor of the UART and the rate it gives at the nominal peripheral clock. -/
def actualBaudrate (requested : ℕ) : Except String ℕ := do
  check (requested ≠ 0) "Invalid Pico UART baudrate"
  let clock := 125000000
  let divisor := 8 * clock / requested + 1
  let integer := divisor / 128
  if integer = 0 then return clock / 16
  if 65535 ≤ integer then return 4 * clock / (64 * 65535)
  return 4 * clock / (64 * integer + divisor % 128 / 2)

/-- The first even prescaler that reaches the rate, then the largest divider below it. -/
def spiBaudrate (requested : ℕ) : Except String ℕ := do
  let clock := 125000000
  check (requested ≠ 0 ∧ requested ≤ clock) "Invalid Pico SPI baudrate"
  match ((List.range 127).map (2 * · + 2)).find? (clock < · * 256 * requested) with
  | none => throw "Invalid Pico SPI baudrate: too low"
  | some prescale =>
    let postdiv := ((List.range 255).map (256 - ·)).find?
      fun postdiv => requested < clock / (prescale * (postdiv - 1))
    return clock / (prescale * postdiv.getD 1)

namespace Board

variable (fixture : Fixture) (b : Board)

/-- The SIO or PWM drive of a pin in a state, without looking at external sources. -/
def pinDrive (pin : ℕ) (state : PinState) : Option VoltageSignal :=
  if state.function = .pwm then
    let pwm := b.pwms (pwmSlice pin)
    let level := if pin % 2 = 0 then pwm.levels.1 else pwm.levels.2
    let inverted := if pin % 2 = 0 then pwm.inverted.1 else pwm.inverted.2
    if !pwm.enabled then some (.constant (railVoltage (decide (pwm.counter < level) != inverted)))
    else
      let period : ℚ := pwm.wrap + 1
      some (.square 0 (railVoltage true) (125000000 * 16 / pwm.divider16 / period)
        (min (level / period) 1) pwm.originUs (Int.fract (-pwm.counter / period)) inverted)
  else (strongLevel state).map fun level => .constant (railVoltage level)

/-- The drive of a pin as the board is. -/
def drive (pin : ℕ) : Option VoltageSignal := b.pinDrive pin (b.pins pin)

/-- The mux or the reservation of a serial bus: such a pin has no waveform. -/
def busOwned (pin : ℕ) : Bool :=
  (b.pins pin).function = .i2c || b.attachments pin = .i2c ||
    (b.pins pin).function = .spi || b.attachments pin = .spi ||
    (b.pins pin).function = .uart || b.attachments pin = .uart

/-- `FakeGpioPin::write`: the signal is retained before it is forwarded. -/
def write (pin : ℕ) (signal : VoltageSignal) : Board :=
  { b with
    gpio := Function.update b.gpio pin { b.gpio pin with lastSignal := some signal } }

def lastSignal (pin : ℕ) : Option VoltageSignal := (b.gpio pin).lastSignal

/-- `attachInternal`: the pin is replaced, with what it retained. -/
def connect (pin : ℕ) (device : GpioDevice) (attachment : Attachment) : Board :=
  { b with
    gpio := Function.update b.gpio pin { device }
    attachments := Function.update b.attachments pin attachment }

/-- A pin of −1 reserves nothing. -/
def reserve (pin : ℤ) (attachment : Attachment) : Board :=
  { b with attachments := fun p => if (p : ℤ) = pin then attachment else b.attachments p }

def checkPin (pin : ℤ) : Except String Unit :=
  check (0 ≤ pin ∧ pin < gpioCount) "Invalid Pico GPIO pin"

def checkMask (mask : BitVec 64) : Except String Unit :=
  check (mask &&& ~~~gpioMask = 0) "Invalid Pico GPIO mask"

def checkBusesIdle : Except String Unit := do
  check (b.publishingPwm = false) "Pico reconfiguration during PWM publication"
  check (fixture.freertos = true ∨ ((b.i2cs 0).busy = false ∧ (b.i2cs 1).busy = false))
    "Pico reconfiguration during I2C transfer"
  check (fixture.freertos = true ∨ ((b.spis 0).busy = false ∧ (b.spis 1).busy = false))
    "Pico reconfiguration during SPI transfer"

/-- In the scheduled build only the pins of a busy controller and its chip selects are
held. -/
def checkPinIdle (pin : ℕ) : Except String Unit := do
  check (¬((b.pins pin).function = .spi ∨ b.attachments pin = .spi) ∨
    (b.spis (spiIndex pin)).busy = false) "Pico reconfiguration during SPI transfer"
  check (¬((b.pins pin).function = .i2c ∨ b.attachments pin = .i2c) ∨
    (b.i2cs (i2cIndex pin)).busy = false) "Pico reconfiguration during I2C transfer"
  check (∀ connection ∈ b.spiConnections,
    b.outputSinks pin = some (fixture.cs connection.device) →
      (b.spis (spiIndex connection.clk.toNat)).busy = false) "Pico CS change during SPI transfer"

def checkPinsIdle (mask : BitVec 32) : Except String Unit :=
  if fixture.freertos then
    (List.range gpioCount).foldlM
      (fun _ pin => if mask.getLsbD pin then b.checkPinIdle fixture pin else pure ()) ()
  else pure ()

def checkAttachment (pin : ℤ) : Except String Unit := do
  b.checkBusesIdle fixture
  checkPin pin
  check (b.attachments pin.toNat = .none) "Pico GPIO attachment conflict"
  check (b.configured pin.toNat = false) "Attach Pico GPIO devices before configuring the pin"

def attachInput (pin : ℕ) (source : ℕ) : Except String Board := do
  b.checkAttachment fixture pin
  return b.connect pin (.source source) .input

def attachOutput (pin : ℕ) (sink : ℕ) : Except String Board := do
  b.checkAttachment fixture pin
  return { b.connect pin (.sink sink) .output with
    outputSinks := Function.update b.outputSinks pin (some sink) }

def attach (pin : ℕ) (io : ℕ) : Except String Board := do
  b.checkAttachment fixture pin
  return b.connect pin (.io io) .io

/-- One turn of the loop of `updatePins`: the prospective state of a selected pin, and
whether its drive changes. -/
def updatePin (mask : BitVec 32) (update : ℕ → PinState → Except String PinState)
    (prospect : (ℕ → PinState) × BitVec 32) (pin : ℕ) :
    Except String ((ℕ → PinState) × BitVec 32) :=
  if mask.getLsbD pin then do
    let state ← update pin (prospect.1 pin)
    check (b.pinDrive pin state = none ∨ b.attachments pin ≠ .input)
      "Pico GPIO output conflicts with an attached input source"
    check (b.attachments pin ≠ .uart ∨ b.pinDrive pin state = none)
      "Unsupported Pico SIO output on a UART attachment"
    check (b.attachments pin ≠ .spi ∨ b.pinDrive pin state = none)
      "Unsupported Pico SIO output on a SPI attachment"
    check (b.attachments pin ≠ .i2c ∨ b.pinDrive pin state = none)
      "Unsupported Pico SIO output on an I2C attachment"
    return (Function.update prospect.1 pin state,
      if b.pinDrive pin state ≠ b.drive pin then prospect.2 ||| 1#32 <<< pin else prospect.2)
  else return prospect

/-- The whole prospective change is checked before any of it is made; the changed drives
come back to be published. -/
def updatePins (mask : BitVec 32) (update : ℕ → PinState → Except String PinState) :
    Except String (Board × BitVec 32) := do
  b.checkBusesIdle fixture
  b.checkPinsIdle fixture mask
  checkMask (mask.setWidth 64)
  let (next, changedDrive) ← (List.range gpioCount).foldlM (b.updatePin mask update) (b.pins, 0)
  return ({ b with
    pins := next
    configured := fun pin => (decide (pin < gpioCount) && mask.getLsbD pin) || b.configured pin },
    changedDrive)

def init (mask : BitVec 32) : Except String (Board × BitVec 32) :=
  b.updatePins fixture mask fun _ state => pure { state with
    function := .sio
    directionOut := false
    outputLatch := false
    inputEnabled := true
    inputOverride := .normal
    outputOverride := .normal
    outputEnableOverride := .normal }

def selectFunction (function : GpioFunction) (pin : ℕ) (state : PinState) :
    Except String PinState := do
  check (function ≠ .i2c ∨ b.attachments pin = .none ∨ b.attachments pin = .i2c)
    "Pico I2C conflicts with another attachment"
  check (function ≠ .spi ∨ pin % 4 ≠ 1) "Unsupported Pico GPIO function: SPI CSn"
  check (function ≠ .spi ∨ b.attachments pin = .none ∨ b.attachments pin = .spi)
    "Pico SPI conflicts with a GPIO attachment"
  check (function ≠ .uart ∨ pin % 4 < 2) "Unsupported Pico GPIO function: UART CTS/RTS"
  check (function ≠ .uart ∨ b.attachments pin = .none ∨ b.attachments pin = .uart)
    "Pico UART conflicts with a GPIO attachment"
  return { state with
    function := function
    inputEnabled := true
    inputOverride := .normal
    outputOverride := .normal
    outputEnableOverride := .normal }

def setFunction (mask : BitVec 32) (function : GpioFunction) :
    Except String (Board × BitVec 32) := do
  check (function = .sio ∨ function = .null ∨ function = .uart ∨ function = .spi ∨
    function = .i2c ∨ function = .pwm) "Unsupported Pico GPIO function"
  b.updatePins fixture mask (b.selectFunction function)

def put (mask value : BitVec 32) : Except String (Board × BitVec 32) :=
  b.updatePins fixture mask fun pin state =>
    pure { state with outputLatch := value.getLsbD pin }

def toggle (mask : BitVec 32) : Except String (Board × BitVec 32) :=
  b.updatePins fixture mask fun _ state =>
    pure { state with outputLatch := !state.outputLatch }

def setDirection (mask value : BitVec 32) : Except String (Board × BitVec 32) :=
  b.updatePins fixture mask fun pin state =>
    pure { state with directionOut := value.getLsbD pin }

/-- An operation on one pin: its number is checked, then its bit is the mask. -/
def updateOne (pin : ℕ) (update : ℕ → PinState → Except String PinState) :
    Except String (Board × BitVec 32) :=
  b.updatePins fixture (1#32 <<< pin) update

def setPulls (pin : ℕ) (up down : Bool) : Except String (Board × BitVec 32) := do
  checkPin pin
  check (up = false ∨ down = false) "Unimplemented: Pico GPIO bus keeper"
  b.updateOne fixture pin fun _ state => pure { state with
    pullUp := up
    pullDown := down }

def setInputEnabled (pin : ℕ) (enabled : Bool) : Except String (Board × BitVec 32) := do
  checkPin pin
  b.updateOne fixture pin fun _ state => pure { state with inputEnabled := enabled }

def checkOverride (value : ℕ) : Except String Override :=
  match Override.ofValue value with
  | some control => pure control
  | none => throw "Invalid Pico GPIO override"

def setInputOverride (pin value : ℕ) : Except String (Board × BitVec 32) := do
  checkPin pin
  let control ← checkOverride value
  b.updateOne fixture pin fun _ state => pure { state with inputOverride := control }

def setOutputOverride (pin value : ℕ) : Except String (Board × BitVec 32) := do
  checkPin pin
  let control ← checkOverride value
  check (control = .normal ∨ (b.pins pin).function = .sio)
    "Unsupported Pico GPIO override on a non-SIO pin"
  b.updateOne fixture pin fun _ state => pure { state with outputOverride := control }

def setOutputEnableOverride (pin value : ℕ) : Except String (Board × BitVec 32) := do
  checkPin pin
  let control ← checkOverride value
  check (control = .normal ∨ (b.pins pin).function = .sio)
    "Unsupported Pico GPIO override on a non-SIO pin"
  b.updateOne fixture pin fun _ state => pure { state with outputEnableOverride := control }

def initAdcGpio (pin : ℕ) : Except String (Board × BitVec 32) := do
  checkPin pin
  check (26 ≤ pin ∧ pin ≤ 29) "Invalid Pico ADC GPIO"
  check (b.attachments pin = .none ∨ b.attachments pin = .input ∨ b.attachments pin = .io)
    "Pico ADC attachment conflict"
  b.updateOne fixture pin fun _ state => pure { state with
    function := .null
    directionOut := false
    inputEnabled := false
    pullUp := false
    pullDown := false
    inputOverride := .normal
    outputOverride := .normal
    outputEnableOverride := .normal }

def attachUartPin (pin role : ℤ) (message : String) : Except String Unit :=
  if 0 ≤ pin then do
    b.checkAttachment fixture pin
    check (pin % 4 = role) message
  else pure ()

def attachUartDevice (device : ℕ) (tx rx : ℤ) : Except String Board := do
  check (0 ≤ tx ∨ 0 ≤ rx) "Pico UART needs a TX or RX pin"
  check (-1 ≤ tx) "Invalid Pico UART TX pin"
  check (-1 ≤ rx) "Invalid Pico UART RX pin"
  b.attachUartPin fixture tx 0 "Invalid Pico UART TX pin"
  b.attachUartPin fixture rx 1 "Invalid Pico UART RX pin"
  check (0 ≤ tx → 0 ≤ rx → uartIndex tx.toNat = uartIndex rx.toNat)
    "Pico UART controller mismatch"
  check (∀ connection ∈ b.uartConnections, connection.device ≠ device)
    "Pico UART device already attached"
  let connection := UartConnection.mk device tx rx
  let connected := { b with uartConnections := b.uartConnections ++ [connection] }
  return (connected.reserve tx .uart).reserve rx .uart

def uartState (index : ℕ) : Except String UartState := do
  check (index < 2) "Invalid Pico UART index"
  return b.uarts index

def setUart (index : ℕ) (state : UartState) : Board :=
  { b with uarts := Function.update b.uarts index state }

def initUart (index baudrate : ℕ) : Except String (Board × ℕ) := do
  let _ ← b.uartState index
  let actual ← actualBaudrate baudrate
  return (b.setUart index ⟨true, actual, false⟩, actual)

def deinitUart (index : ℕ) : Except String Board := do
  let state ← b.uartState index
  return b.setUart index { state with enabled := false }

def setUartBaudrate (index baudrate : ℕ) : Except String (Board × ℕ) := do
  let state ← b.uartState index
  check (state.enabled = true) "Pico UART is disabled"
  let actual ← actualBaudrate baudrate
  return (b.setUart index { state with baudrate := actual }, actual)

def setUartTranslateCrLf (index : ℕ) (enabled : Bool) : Except String Board := do
  let state ← b.uartState index
  check (state.enabled = true) "Pico UART is disabled"
  return b.setUart index { state with translateCrLf := enabled }

def attachSpiPin (pin : ℤ) : Except String Unit :=
  if pin < 0 then pure ()
  else do
    check (b.attachments pin.toNat = .none ∨ b.attachments pin.toNat = .spi)
      "Pico SPI attachment conflict"
    check (b.configured pin.toNat = false) "Attach Pico SPI devices before configuring pins"

/-- The optional receive pin, on the controller of the clock. -/
def checkMiso (clk miso : ℤ) : Except String Unit :=
  if 0 ≤ miso then do
    checkPin miso
    check (miso % 4 = 0) "Invalid Pico SPI RX pin"
    check (spiIndex clk.toNat = spiIndex miso.toNat) "Pico SPI controller mismatch"
  else pure ()

def attachSpiDevice (device : ℕ) (clk miso mosi : ℤ) : Except String Board := do
  b.checkBusesIdle fixture
  checkPin clk
  checkPin mosi
  check (-1 ≤ miso) "Invalid Pico SPI RX pin"
  check (clk % 4 = 2) "Invalid Pico SPI SCK pin"
  check (mosi % 4 = 3) "Invalid Pico SPI TX pin"
  check (spiIndex clk.toNat = spiIndex mosi.toNat) "Pico SPI controller mismatch"
  checkMiso clk miso
  b.attachSpiPin clk
  b.attachSpiPin miso
  b.attachSpiPin mosi
  check (∀ connection ∈ b.spiConnections, connection.device ≠ device)
    "Pico SPI device already attached"
  let connection := SpiConnection.mk device clk miso mosi
  let connected := { b with spiConnections := b.spiConnections ++ [connection] }
  return ((connected.reserve clk .spi).reserve miso .spi).reserve mosi .spi

def spiState (index : ℕ) : Except String SpiState := do
  check (index < 2) "Invalid Pico SPI index"
  return b.spis index

def setSpi (index : ℕ) (state : SpiState) : Board :=
  { b with spis := Function.update b.spis index state }

/-- The state of an idle controller, between transfers. -/
def idleSpi (index : ℕ) : Except String SpiState := do
  b.checkBusesIdle fixture
  let state ← b.spiState index
  check (state.busy = false) "Pico reconfiguration during SPI transfer"
  return state

def initSpi (index baudrate : ℕ) : Except String (Board × ℕ) := do
  let _ ← b.idleSpi fixture index
  let actual ← spiBaudrate baudrate
  return (b.setSpi index ⟨true, false, actual, 8, 0⟩, actual)

def deinitSpi (index : ℕ) : Except String Board := do
  let state ← b.idleSpi fixture index
  return b.setSpi index { state with enabled := false }

def setSpiBaudrate (index baudrate : ℕ) : Except String (Board × ℕ) := do
  let state ← b.idleSpi fixture index
  check (state.enabled = true) "Pico SPI is disabled"
  let actual ← spiBaudrate baudrate
  return (b.setSpi index { state with baudrate := actual }, actual)

def setSpiFormat (index dataBits cpol cpha : ℕ) (msbFirst : Bool) : Except String Board := do
  let state ← b.idleSpi fixture index
  check (state.enabled = true) "Pico SPI is disabled"
  check (dataBits = 8 ∨ dataBits = 16) "Unimplemented: Pico SPI frame width"
  check (msbFirst = true) "Unimplemented: Pico SPI LSB-first order"
  check (cpol = 0 ∨ cpol = 1) "Invalid Pico SPI polarity"
  check (cpha = 0 ∨ cpha = 1) "Invalid Pico SPI phase"
  return b.setSpi index { state with
    dataBits := dataBits
    mode := 2 * cpol + cpha }

def beginSpi (index : ℕ) : Except String Board := do
  let state ← b.idleSpi fixture index
  check (state.enabled = true) "Pico SPI is disabled"
  return b.setSpi index { state with busy := true }

def endSpi (index : ℕ) : Except String Board := do
  let state ← b.spiState index
  check (state.busy = true) "Pico SPI is not busy"
  return b.setSpi index { state with busy := false }

def attachI2cPin (pin : ℤ) : Except String Unit := do
  check (b.attachments pin.toNat = .none ∨ b.attachments pin.toNat = .i2c)
    "Pico I2C attachment conflict"
  check (b.configured pin.toNat = false) "Attach Pico I2C devices before configuring pins"

def checkI2cConnection (device : ℕ) (sda scl : ℤ) (connection : I2cConnection) :
    Except String Unit := do
  check (connection.device ≠ device) "Pico I2C device already attached"
  check (connection.sda ≠ sda ∨ connection.scl ≠ scl ∨
    fixture.address connection.device ≠ fixture.address device) "Duplicate Pico I2C address"

def attachI2cDevice (device : ℕ) (sda scl : ℤ) : Except String Board := do
  b.checkBusesIdle fixture
  checkPin sda
  checkPin scl
  check (sda % 2 = 0) "Invalid Pico I2C SDA pin"
  check (scl % 2 = 1) "Invalid Pico I2C SCL pin"
  check (i2cIndex sda.toNat = i2cIndex scl.toNat) "Pico I2C controller mismatch"
  check (8 ≤ fixture.address device ∧ fixture.address device ≤ 0x77)
    "Invalid Pico I2C address"
  b.attachI2cPin sda
  b.attachI2cPin scl
  b.i2cConnections.forM (checkI2cConnection fixture device sda scl)
  let connection := I2cConnection.mk device sda scl
  let connected := { b with i2cConnections := b.i2cConnections ++ [connection] }
  return (connected.reserve sda .i2c).reserve scl .i2c

def i2cState (index : ℕ) : Except String I2cState := do
  check (index < 2) "Invalid Pico I2C index"
  return b.i2cs index

def setI2c (index : ℕ) (state : I2cState) : Board :=
  { b with i2cs := Function.update b.i2cs index state }

def idleI2c (index : ℕ) : Except String I2cState := do
  b.checkBusesIdle fixture
  let state ← b.i2cState index
  check (state.busy = false) "Pico reconfiguration during I2C transfer"
  return state

def initI2c (index baudrate : ℕ) : Except String (Board × ℕ) := do
  let _ ← b.idleI2c fixture index
  check (baudrate ≠ 0 ∧ baudrate ≤ 1000000) "Invalid Pico I2C baudrate"
  let period := (125000000 + baudrate / 2) / baudrate
  let low := period * 3 / 5
  let high := period - low
  check (8 ≤ low ∧ low ≤ 65535 ∧ 8 ≤ high ∧ high ≤ 65535) "Invalid Pico I2C divider"
  let actual := 125000000 / period
  return (b.setI2c index ⟨true, false, false, actual⟩, actual)

def deinitI2c (index : ℕ) : Except String Board := do
  let _ ← b.idleI2c fixture index
  return b.setI2c index {}

def setI2cBaudrate (index baudrate : ℕ) : Except String (Board × ℕ) := do
  let state ← b.i2cState index
  check (state.enabled = true) "Pico I2C is disabled"
  check (state.restartOnNext = false) "Pico I2C bus is held"
  b.initI2c fixture index baudrate

def beginI2c (index : ℕ) : Except String Board := do
  let state ← b.idleI2c fixture index
  check (state.enabled = true) ""
  return b.setI2c index { state with busy := true }

def endI2c (index : ℕ) (restart : Bool) : Except String Board := do
  let state ← b.i2cState index
  check (state.busy = true) ""
  return b.setI2c index { state with
    busy := false
    restartOnNext := restart }

def initAdc : Except String Board := do
  b.checkBusesIdle fixture
  return { b with
    adcEnabled := true
    adcInput := 0 }

def selectAdc (input : ℕ) : Except String Board := do
  b.checkBusesIdle fixture
  check (b.adcEnabled = true) "Pico ADC is not initialized"
  check (input < 4) "Unimplemented: Pico ADC internal channel"
  return { b with adcInput := input }

/-- The new state of a slice; its pins are published while `publishingPwm` is set. -/
def setPwmState (slice : ℕ) (state : PwmState) : Except String Board := do
  b.checkBusesIdle fixture
  check (slice < 8) "Invalid Pico PWM slice"
  check (16 ≤ state.divider16) "Invalid Pico PWM divider"
  check (state.divider16 ≤ 4095) "Invalid Pico PWM divider"
  return { b with
    pwms := Function.update b.pwms slice state
    publishingPwm := true }

end Board

end RooTesting.PicoBoard
