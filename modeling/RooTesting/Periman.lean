import Mathlib.Data.Int.Notation
import Mathlib.Data.Nat.Notation
import Mathlib.Logic.Function.Basic
import Mathlib.Tactic.Common

/-! # The peripheral manager

One assignment for each pin, and a callback for each type of bus that lets the bus go when its pin
is given to a bus of another type. -/
namespace RooTesting.Periman

/-- `max` stands for `ESP32_BUS_TYPE_MAX` and all that is above it. -/
inductive BusType where
  | init | gpio | uartRx | uartTx | uartCts | uartRts | ledc | i2cMasterSda | i2cMasterScl
  | other (index : ℕ)
  | max
  deriving DecidableEq

/-- What the pointer of an assignment points to. -/
inductive Bus where
  | null
  | ledc (channel : ℕ)
  | uart (number : ℕ)
  | i2c (bus : ℕ)
  | other (address : ℕ)
  deriving DecidableEq

structure PinAssignment where
  type : BusType
  bus : Bus
  busNumber : ℤ
  busChannel : ℤ
  deriving DecidableEq

def PinAssignment.free : PinAssignment := ⟨.init, .null, -1, -1⟩

/-- The callbacks leave the assignments alone and answer whether the bus is let go. -/
structure Manager where
  pinAssignments : ℕ → PinAssignment
  deinitCallbacks : BusType → Option (Bus → Bool)

def Manager.initial : Manager := ⟨fun _ => .free, fun _ => none⟩

variable (isValidPin : ℕ → Bool) (m : Manager)

/-- The callback of the bus that holds the pin, when the bus is of another type. -/
def callback (pin : ℕ) (type : BusType) : Option (Bus → Bool) :=
  let previous := m.pinAssignments pin
  if previous.type ≠ .init ∧ previous.type ≠ type ∧ previous.type ≠ .max then
    m.deinitCallbacks previous.type
  else none

def perimanSetPinBus (pin : ℕ) (type : BusType) (bus : Bus) (busNumber busChannel : ℤ) :
    Bool × Manager :=
  if isValidPin pin = false ∨ type = .max then (false, m)
  else if (callback m pin type).any fun f => !f (m.pinAssignments pin).bus then (false, m)
  else (true, { m with
    pinAssignments := Function.update m.pinAssignments pin ⟨type, bus, busNumber, busChannel⟩ })

def perimanClearPinBus (pin : ℕ) : Bool × Manager :=
  perimanSetPinBus isValidPin m pin .init .null (-1) (-1)

def perimanSetBusDeinit (type : BusType) (f : Option (Bus → Bool)) : Bool × Manager :=
  if type = .max then (false, m)
  else (true, { m with deinitCallbacks := Function.update m.deinitCallbacks type f })

section Lemmas

variable {isValidPin m} {pin : ℕ} {type : BusType} {bus : Bus} {busNumber busChannel : ℤ}

@[simp] theorem perimanSetPinBus_deinitCallbacks :
    (perimanSetPinBus isValidPin m pin type bus busNumber busChannel).2.deinitCallbacks =
      m.deinitCallbacks := by
  rw [perimanSetPinBus]
  split_ifs <;> rfl

@[simp] theorem perimanClearPinBus_deinitCallbacks :
    (perimanClearPinBus isValidPin m pin).2.deinitCallbacks = m.deinitCallbacks :=
  perimanSetPinBus_deinitCallbacks

/-- A pin is given away when its bus has no callback. -/
theorem perimanSetPinBus_eq (bus : Bus) (busNumber busChannel : ℤ) (hpin : isValidPin pin = true)
    (htype : type ≠ .max) (hnone : m.deinitCallbacks (m.pinAssignments pin).type = none) :
    perimanSetPinBus isValidPin m pin type bus busNumber busChannel = (true, { m with
      pinAssignments := Function.update m.pinAssignments pin ⟨type, bus, busNumber, busChannel⟩ }) := by
  have hcallback : callback m pin type = none := by
    simp only [callback, hnone, ite_self]
  rw [perimanSetPinBus, if_neg (by simp [hpin, htype]), if_neg (by simp [hcallback])]

theorem perimanClearPinBus_eq (hpin : isValidPin pin = true)
    (hnone : m.deinitCallbacks (m.pinAssignments pin).type = none) :
    perimanClearPinBus isValidPin m pin =
      (true, { m with pinAssignments := Function.update m.pinAssignments pin .free }) :=
  perimanSetPinBus_eq .null (-1) (-1) hpin nofun hnone

/-- A pin is given to the new bus, or nothing changes. -/
theorem perimanSetPinBus_cases (isValidPin : ℕ → Bool) (m : Manager) (pin : ℕ) (type : BusType)
    (bus : Bus) (busNumber busChannel : ℤ) :
    (perimanSetPinBus isValidPin m pin type bus busNumber busChannel = (false, m)) ∨
    (perimanSetPinBus isValidPin m pin type bus busNumber busChannel = (true, { m with
      pinAssignments := Function.update m.pinAssignments pin ⟨type, bus, busNumber, busChannel⟩ }) ∧
      isValidPin pin = true ∧ type ≠ .max) := by
  rw [perimanSetPinBus]
  split
  · exact .inl rfl
  split
  · exact .inl rfl
  · rename_i hvalid _
    rw [not_or, Bool.not_eq_false] at hvalid
    exact .inr ⟨rfl, hvalid⟩

end Lemmas

end RooTesting.Periman
