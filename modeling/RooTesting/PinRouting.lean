import RooTesting.Periman
import RooTesting.Transition

/-! # The routes of the UART and I2C pins

Two matrices tie the signals of the peripherals to pins, each driver keeps a record of its own
pins, and the peripheral manager keeps a third. Every call writes some of them. -/
namespace RooTesting.PinRouting
open Transition Periman

/-- What a pin is used for by a driver. -/
inductive Role where
  | tx (number : ℕ) | rx (number : ℕ) | cts (number : ℕ) | rts (number : ℕ)
  | sda (bus : ℕ) | scl (bus : ℕ)
  deriving DecidableEq

def kMatrixDetachInUndefPin : ℕ := 255

/-- The pins of a chip, the number of its peripherals and their signals. -/
structure Chip where
  isValidPin : ℕ → Bool
  isOutputPin : ℕ → Bool
  uarts : ℕ
  i2cs : ℕ
  kUartTxSignals : ℕ → ℕ
  kUartRxSignals : ℕ → ℕ
  sdaOut : ℕ → ℕ
  sdaIn : ℕ → ℕ
  sclOut : ℕ → ℕ
  sclIn : ℕ → ℕ
  kMatrixDetachOutSig : ℕ
  kMatrixDetachInLowPin : ℕ
  kMatrixDetachInHighPin : ℕ
  kConsoleTx : ℕ

namespace Chip

variable (b : Chip)

def hasRole : Role → Bool
  | .tx number | .rx number | .cts number | .rts number => number < b.uarts
  | .sda bus | .scl bus => bus < b.i2cs

/-- The signal that the role drives the pin with. -/
def outSignal : Role → Option ℕ
  | .tx number => some (b.kUartTxSignals number)
  | .sda bus => some (b.sdaOut bus)
  | .scl bus => some (b.sclOut bus)
  | _ => none

/-- The signal that the role reads from the pin. -/
def inSignal : Role → Option ℕ
  | .rx number => some (b.kUartRxSignals number)
  | .sda bus => some (b.sdaIn bus)
  | .scl bus => some (b.sclIn bus)
  | _ => none

end Chip

/-- A chip whose signals keep its roles apart, and with no pin under the mark of a detached
signal. -/
structure Board extends Chip where
  valid_of_output : ∀ pin, isOutputPin pin = true → isValidPin pin = true
  undef_invalid : isValidPin kMatrixDetachInUndefPin = false
  out_injective : ∀ r r' signal, toChip.hasRole r = true → toChip.hasRole r' = true →
    toChip.outSignal r = some signal → toChip.outSignal r' = some signal → r = r'
  out_ne_detach : ∀ r, toChip.hasRole r = true → toChip.outSignal r ≠ some kMatrixDetachOutSig
  in_injective : ∀ r r' signal, toChip.hasRole r = true → toChip.hasRole r' = true →
    toChip.inSignal r = some signal → toChip.inSignal r' = some signal → r = r'
  in_lt : ∀ r signal, toChip.hasRole r = true → toChip.inSignal r = some signal → signal < 256

def busType : Role → BusType
  | .tx _ => .uartTx
  | .rx _ => .uartRx
  | .cts _ => .uartCts
  | .rts _ => .uartRts
  | .sda _ => .i2cMasterSda
  | .scl _ => .i2cMasterScl

def busOf : Role → Bus
  | .tx number | .rx number | .cts number | .rts number => .uart number
  | .sda bus | .scl bus => .i2c bus

/-- A pin is none where the source has a negative one. -/
structure Uart where
  installed : Bool := false
  baudRate : ℕ := 0
  config : ℕ := 0
  rxPin : Option ℕ := none
  txPin : Option ℕ := none
  ctsPin : Option ℕ := none
  rtsPin : Option ℕ := none
  hasPeek : Bool := false
  inverted : Bool := false
  fifoThreshold : ℕ := 0
  eventQueue : Bool := false

structure I2c where
  initialized : Bool := false
  sda : Option ℕ := none
  scl : Option ℕ := none
  frequency : ℕ := 100000

structure World where
  uarts : ℕ → Uart
  i2cs : ℕ → I2c
  /-- `signal_to_pin_` of the in matrix. -/
  inMatrix : ℕ → ℕ
  /-- `pin_to_signal_` of the out matrix. -/
  outMatrix : ℕ → ℕ
  periman : Manager

inductive EspErr where
  | ok | invalidArg | invalidState
  deriving DecidableEq

section Calls

variable (b : Board) (s : World)

def inAssign (gpio signal : ℕ) : World :=
  if 256 ≤ signal then s
  else if b.isValidPin gpio = false ∧ gpio ≠ b.kMatrixDetachInLowPin ∧
      gpio ≠ b.kMatrixDetachInHighPin ∧ gpio ≠ kMatrixDetachInUndefPin then s
  else { s with inMatrix := Function.update s.inMatrix signal gpio }

def outAssign (gpio signal : ℕ) : World :=
  if b.isOutputPin gpio = false then s
  else { s with outMatrix := Function.update s.outMatrix gpio signal }

def setPinBus (pin : ℕ) (r : Role) (number : ℤ) : Bool × World :=
  let r := perimanSetPinBus b.isValidPin s.periman pin (busType r) (busOf r) number (-1)
  (r.1, { s with periman := r.2 })

def clearPinBus (pin : ℕ) : World :=
  { s with periman := (perimanClearPinBus b.isValidPin s.periman pin).2 }

def clearPinBus? (pin : Option ℕ) : World := pin.elim s fun pin => clearPinBus b s pin

def setUart (number : ℕ) (uart : Uart) : World :=
  { s with uarts := Function.update s.uarts number uart }

def setI2c (bus : ℕ) (i2c : I2c) : World := { s with i2cs := Function.update s.i2cs bus i2c }

/-- The old pin of a role, when it gets another one. -/
def clearOld (old : Option ℕ) (pin : ℕ) : World :=
  if old ≠ some pin then clearPinBus? b s old else s

def setRxPin (number pin : ℕ) : World :=
  let s := clearOld b s (s.uarts number).rxPin pin
  let s := setUart s number { s.uarts number with rxPin := some pin }
  let s := inAssign b s pin (b.kUartRxSignals number)
  (setPinBus b s pin (.rx number) number).2

def setTxPin (number pin : ℕ) : World :=
  let s := clearOld b s (s.uarts number).txPin pin
  let s := setUart s number { s.uarts number with txPin := some pin }
  let s := outAssign b s pin (b.kUartTxSignals number)
  (setPinBus b s pin (.tx number) number).2

def setCtsPin (number pin : ℕ) : World :=
  let s := setUart s number { s.uarts number with ctsPin := some pin }
  (setPinBus b s pin (.cts number) number).2

def setRtsPin (number pin : ℕ) : World :=
  let s := setUart s number { s.uarts number with rtsPin := some pin }
  (setPinBus b s pin (.rts number) number).2

/-- The pins of `uartSetPins` exist. -/
def pinsValid (rx tx cts rts : Option ℕ) : Bool :=
  rx.all b.isValidPin && tx.all b.isOutputPin && cts.all b.isValidPin && rts.all b.isOutputPin

def uartSetPins (number : ℕ) (rx tx cts rts : Option ℕ) : Bool × World :=
  if b.uarts ≤ number ∨ pinsValid b rx tx cts rts = false then (false, s)
  else
    let s := rx.elim s (setRxPin b s number)
    let s := tx.elim s (setTxPin b s number)
    let s := cts.elim s (setCtsPin b s number)
    (true, rts.elim s (setRtsPin b s number))

/-- `queued` tells whether the event queue could be created. -/
def uartBegin (number baudrate config : ℕ) (rx tx : Option ℕ) (inverted : Bool)
    (fifoThreshold : ℕ) (queued : Bool) : Bool × World :=
  if b.uarts ≤ number ∨ baudrate = 0 then (false, s)
  else if (s.uarts number).eventQueue = false ∧ queued = false then (false, s)
  else
    let s := setUart s number { s.uarts number with
      eventQueue := true
      installed := true
      baudRate := baudrate
      config := config
      fifoThreshold := fifoThreshold
      inverted := inverted }
    let r := uartSetPins b s number rx tx none none
    if r.1 then (true, r.2)
    else (false, setUart r.2 number { r.2.uarts number with installed := false })

def uartEnd (number : ℕ) : World :=
  if b.uarts ≤ number then s
  else
    let uart := s.uarts number
    let s := clearPinBus? b s uart.rxPin
    let s := clearPinBus? b s uart.txPin
    let s := clearPinBus? b s uart.ctsPin
    let s := clearPinBus? b s uart.rtsPin
    setUart s number { uart with installed := false, hasPeek := false, eventQueue := false }

def routePins (bus sda scl : ℕ) : World :=
  let s := outAssign b s sda (b.sdaOut bus)
  let s := inAssign b s sda (b.sdaIn bus)
  let s := outAssign b s scl (b.sclOut bus)
  inAssign b s scl (b.sclIn bus)

/-- A pin is none where the bus has not one yet; the out matrix has no such pin. -/
def unroutePins (bus : ℕ) (sda scl : Option ℕ) : World :=
  let s := sda.elim s fun sda => outAssign b s sda b.kMatrixDetachOutSig
  let s := inAssign b s kMatrixDetachInUndefPin (b.sdaIn bus)
  let s := scl.elim s fun scl => outAssign b s scl b.kMatrixDetachOutSig
  inAssign b s kMatrixDetachInUndefPin (b.sclIn bus)

def i2cInit (bus : ℕ) (sda scl : Option ℕ) (frequency : ℕ) : EspErr × World :=
  match sda, scl with
  | some sda, some scl =>
    if b.i2cs ≤ bus ∨ b.isOutputPin sda = false ∨ b.isOutputPin scl = false then (.invalidArg, s)
    else
      let frequency := if frequency = 0 then 100000 else frequency
      let frequency := if 1000000 < frequency then 1000000 else frequency
      let first := setPinBus b s sda (.sda bus) bus
      if first.1 = false then (.invalidState, first.2)
      else
        let second := setPinBus b first.2 scl (.scl bus) bus
        if second.1 = false then (.invalidState, clearPinBus b second.2 sda)
        else (.ok, routePins b (setI2c second.2 bus ⟨true, some sda, some scl, frequency⟩) bus sda scl)
  | _, _ => (.invalidArg, s)

def i2cDeinit (bus : ℕ) : EspErr × World :=
  if b.i2cs ≤ bus then (.invalidArg, s)
  else
    let i2c := s.i2cs bus
    let s := if i2c.initialized then unroutePins b s bus i2c.sda i2c.scl else s
    let s := clearPinBus? b s i2c.sda
    let s := clearPinBus? b s i2c.scl
    (.ok, setI2c s bus {})

end Calls

inductive Call where
  | uartBegin (number baudrate config : ℕ) (rx tx : Option ℕ) (inverted : Bool)
      (fifoThreshold : ℕ) (queued : Bool)
  | uartSetPins (number : ℕ) (rx tx cts rts : Option ℕ)
  | uartEnd (number : ℕ)
  | i2cInit (bus : ℕ) (sda scl : Option ℕ) (frequency : ℕ)
  | i2cDeinit (bus : ℕ)

def perform (b : Board) (s : World) : Call → World
  | .uartBegin number baudrate config rx tx inverted fifoThreshold queued =>
    (uartBegin b s number baudrate config rx tx inverted fifoThreshold queued).2
  | .uartSetPins number rx tx cts rts => (uartSetPins b s number rx tx cts rts).2
  | .uartEnd number => uartEnd b s number
  | .i2cInit bus sda scl frequency => (i2cInit b s bus sda scl frequency).2
  | .i2cDeinit bus => (i2cDeinit b s bus).2

def step (b : Board) (s : World) (c : Call) : Option World := some (perform b s c)

/-- The board has routed the first UART to the pin of the console. -/
def boot (b : Board) : World :=
  outAssign b ⟨fun _ => {}, fun _ => {}, fun _ => kMatrixDetachInUndefPin,
    fun _ => b.kMatrixDetachOutSig, .initial⟩ b.kConsoleTx (b.kUartTxSignals 0)

end RooTesting.PinRouting
