import RooTesting.PicoMachine
import Mathlib.Data.List.Perm.Basic

/-! # What a board operation can do

An operation that ends well attaches one device to free pins, changes the states of
selected pins, changes one PWM slice, or leaves pins, slices and attachments alone. -/
namespace RooTesting.PicoBoard
open Checks

/-- An attached device, with the pins it names. -/
inductive Claim where
  | source (source : ℕ)
  | sink (sink : ℕ)
  | io (io : ℕ)
  | uart (connection : UartConnection)
  | spi (connection : SpiConnection)
  | i2c (connection : I2cConnection)
  deriving DecidableEq

def Claim.attachment : Claim → Attachment
  | .source _ => .input
  | .sink _ => .output
  | .io _ => .io
  | .uart _ => .uart
  | .spi _ => .spi
  | .i2c _ => .i2c

def GpioDevice.claims : GpioDevice → List Claim
  | .own => []
  | .sink handle => [.sink handle]
  | .source handle => [.source handle]
  | .io handle => [.io handle]

def UartConnection.uses (pin : ℕ) (c : UartConnection) : Bool := c.tx = pin || c.rx = pin

def SpiConnection.uses (pin : ℕ) (c : SpiConnection) : Bool :=
  c.clk = pin || c.miso = pin || c.mosi = pin

def I2cConnection.uses (pin : ℕ) (c : I2cConnection) : Bool := c.sda = pin || c.scl = pin

/-- The devices that claim a pin: its fixture and the connections that name it. -/
def Board.claims (b : Board) (pin : ℕ) : List Claim :=
  (b.gpio pin).device.claims ++ (b.uartConnections.filter (·.uses pin)).map .uart ++
    (b.spiConnections.filter (·.uses pin)).map .spi ++
    (b.i2cConnections.filter (·.uses pin)).map .i2c

/-- The attachments that leave no room for a drive of the board. -/
def Attachment.exclusive : Attachment → Bool
  | .input | .uart | .spi | .i2c => true
  | .none | .output | .io => false

/-- The buses whose pins may be shared by devices. -/
def Attachment.shared : Attachment → Bool
  | .spi | .i2c => true
  | .none | .input | .output | .io | .uart => false

/-- Pins, slices and attachments with everything attached are left alone. -/
structure Steady (b b' : Board) : Prop where
  pins : b'.pins = b.pins
  configured : b'.configured = b.configured
  pwms : b'.pwms = b.pwms
  publishing : b'.publishingPwm = b.publishingPwm
  attachments : b'.attachments = b.attachments
  gpio : b'.gpio = b.gpio
  uart : b'.uartConnections = b.uartConnections
  spi : b'.spiConnections = b.spiConnections
  i2c : b'.i2cConnections = b.i2cConnections

theorem Steady.refl (b : Board) : Steady b b := ⟨rfl, rfl, rfl, rfl, rfl, rfl, rfl, rfl, rfl⟩

theorem Steady.drive {b b' : Board} (h : Steady b b') (pin : ℕ) : b'.drive pin = b.drive pin := by
  simp only [Board.drive, Board.pinDrive, h.pins, h.pwms]

theorem Steady.claims {b b' : Board} (h : Steady b b') (pin : ℕ) :
    b'.claims pin = b.claims pin := by
  simp only [Board.claims, h.gpio, h.uart, h.spi, h.i2c]

/-- A device is attached to unconfigured pins that are free, or on a bus it may share. -/
structure Attached (b b' : Board) (claim : Claim) (on : ℕ → Prop) : Prop where
  idle : b.publishingPwm = false
  pins : b'.pins = b.pins
  configured : b'.configured = b.configured
  pwms : b'.pwms = b.pwms
  publishing : b'.publishingPwm = b.publishingPwm
  free : ∀ pin, on pin → b.configured pin = false ∧ (b.attachments pin = .none ∨
    claim.attachment.shared = true ∧ b.attachments pin = claim.attachment)
  attachments_on : ∀ pin, on pin → b'.attachments pin = claim.attachment
  attachments_off : ∀ pin, ¬on pin → b'.attachments pin = b.attachments pin
  claims_on : ∀ pin, on pin → (b.attachments pin = .none → b.claims pin = []) →
    (b'.claims pin).Perm (claim :: b.claims pin)
  claims_off : ∀ pin, ¬on pin → b'.claims pin = b.claims pin
  retained : ∀ pin, ¬on pin → b'.lastSignal pin = b.lastSignal pin

/-- The states of pins change, each under the checks of its attachment. -/
structure Updated (b b' : Board) (changed : BitVec 32) : Prop where
  idle : b.publishingPwm = false
  publishing : b'.publishingPwm = false
  pwms : b'.pwms = b.pwms
  attachments : b'.attachments = b.attachments
  gpio : b'.gpio = b.gpio
  claims : ∀ pin, b'.claims pin = b.claims pin
  configured : ∀ pin, b.configured pin = true → b'.configured pin = true
  fresh : ∀ pin, b'.configured pin = false → b'.pins pin = b.pins pin
  room : ∀ pin, (b.attachments pin).exclusive = true →
    b'.drive pin = none ∨ b'.pins pin = b.pins pin
  changed : ∀ pin, b'.drive pin ≠ b.drive pin → changed.getLsbD pin = true

/-- A slice changes; pins that do not follow it keep their drives. -/
structure Sliced (b b' : Board) (slice : ℕ) : Prop where
  idle : b.publishingPwm = false
  publishing : b'.publishingPwm = true
  pins : b'.pins = b.pins
  configured : b'.configured = b.configured
  attachments : b'.attachments = b.attachments
  gpio : b'.gpio = b.gpio
  claims : ∀ pin, b'.claims pin = b.claims pin
  changed : ∀ pin, b'.drive pin ≠ b.drive pin →
    (b.pins pin).function = .pwm ∧ pwmSlice pin = slice

inductive Effect (b : Board) : Board → Option Task → Prop where
  | steady {b' : Board} (h : Steady b b') : Effect b b' none
  | attached {b' : Board} {claim : Claim} {on : ℕ → Prop} (h : Attached b b' claim on) :
    Effect b b' none
  | updated {b' : Board} {changed : BitVec 32} {adcPin : Option ℕ} (h : Updated b b' changed) :
    Effect b b' (some (.drives changed adcPin))
  | sliced {b' : Board} {slice : ℕ} (h : Sliced b b' slice) : Effect b b' (some (.slice slice))

section Spec

variable {fixture : Fixture} {b b' : Board}

theorem checkBusesIdle_ok {u : Unit} (h : b.checkBusesIdle fixture = .ok u) :
    b.publishingPwm = false :=
  (check_bind_ok.mp h).1

theorem checkAttachment_ok {pin : ℤ} {u : Unit} (h : b.checkAttachment fixture pin = .ok u) :
    b.publishingPwm = false ∧ 0 ≤ pin ∧ pin < gpioCount ∧
      b.attachments pin.toNat = .none ∧ b.configured pin.toNat = false := by
  obtain ⟨_, hidle, h⟩ := bind_ok.mp h
  obtain ⟨_, hpin, h⟩ := bind_ok.mp h
  obtain ⟨hfree, h⟩ := check_bind_ok.mp h
  exact ⟨checkBusesIdle_ok hidle, (check_ok.mp hpin).1, (check_ok.mp hpin).2, hfree, check_ok.mp h⟩

theorem connect_attached {pin : ℕ} {device : GpioDevice} {claim : Claim}
    (hclaim : device.claims = [claim]) (hidle : b.publishingPwm = false)
    (hfree : b.attachments pin = .none) (hunset : b.configured pin = false) :
    Attached b (b.connect pin device claim.attachment) claim (· = pin) where
  idle := hidle
  pins := rfl
  configured := rfl
  pwms := rfl
  publishing := rfl
  free := by
    intro p hp
    subst hp
    exact ⟨hunset, Or.inl hfree⟩
  attachments_on := by
    intro p hp
    subst hp
    exact Function.update_self ..
  attachments_off p hp := Function.update_of_ne hp ..
  claims_on := by
    intro p hp hnone
    subst hp
    have hold := hnone hfree
    simp only [Board.claims, List.append_eq_nil_iff] at hold
    simp [Board.claims, Board.connect, hclaim, hold]
  claims_off p hp := by
    simp [Board.claims, Board.connect, Function.update_of_ne hp]
  retained p hp := by
    simp [Board.lastSignal, Board.connect, Function.update_of_ne hp]

/-- A claim that comes behind the others of its kind. -/
theorem perm_joined (front old : List Claim) (claim : Claim) :
    (front ++ (old ++ [claim])).Perm (claim :: (front ++ old)) := by
  rw [← List.append_assoc]
  exact List.perm_append_singleton claim (front ++ old)

theorem attachUartPin_ok {pin role : ℤ} {message : String} {u : Unit}
    (h : b.attachUartPin fixture pin role message = .ok u) (hpin : 0 ≤ pin) :
    b.publishingPwm = false ∧ b.attachments pin.toNat = .none ∧
      b.configured pin.toNat = false := by
  unfold Board.attachUartPin at h
  rw [if_pos hpin] at h
  obtain ⟨_, hattach, -⟩ := bind_ok.mp h
  obtain ⟨hidle, -, -, hfree, hunset⟩ := checkAttachment_ok hattach
  exact ⟨hidle, hfree, hunset⟩

theorem attachUartDevice_attached {device : ℕ} {tx rx : ℤ}
    (h : b.attachUartDevice fixture device tx rx = .ok b') :
    Attached b b' (.uart ⟨device, tx, rx⟩) fun pin => tx = pin ∨ rx = pin := by
  unfold Board.attachUartDevice at h
  obtain ⟨hsome, h⟩ := check_bind_ok.mp h
  obtain ⟨-, h⟩ := check_bind_ok.mp h
  obtain ⟨-, h⟩ := check_bind_ok.mp h
  obtain ⟨_, htx, h⟩ := bind_ok.mp h
  obtain ⟨_, hrx, h⟩ := bind_ok.mp h
  obtain ⟨-, h⟩ := check_bind_ok.mp h
  obtain ⟨-, h⟩ := check_bind_ok.mp h
  obtain rfl := pure_ok.mp h
  constructor
  · rcases hsome with hpos | hpos
    · exact (attachUartPin_ok htx hpos).1
    · exact (attachUartPin_ok hrx hpos).1
  · rfl
  · rfl
  · rfl
  · rfl
  · intro pin hpin
    rcases hpin with rfl | rfl
    · obtain ⟨-, hfree, hunset⟩ := attachUartPin_ok htx (by omega)
      exact ⟨by simpa using hunset, Or.inl (by simpa using hfree)⟩
    · obtain ⟨-, hfree, hunset⟩ := attachUartPin_ok hrx (by omega)
      exact ⟨by simpa using hunset, Or.inl (by simpa using hfree)⟩
  · intro pin hpin
    rcases hpin with hpin | hpin <;> simp [Board.reserve, Claim.attachment, hpin]
  · intro pin hpin
    obtain ⟨htx, hrx⟩ := not_or.mp hpin
    simp [Board.reserve, Ne.symm htx, Ne.symm hrx]
  · intro pin hpin _
    have huses : UartConnection.uses pin ⟨device, tx, rx⟩ = true := by
      simpa [UartConnection.uses] using hpin
    simp only [Board.claims, Board.reserve, List.filter_append, List.filter_cons_of_pos huses,
      List.filter_nil, List.map_append, List.map_cons, List.map_nil]
    exact ((perm_joined _ _ _).append_right _).append_right _
  · intro pin hpin
    have huses : UartConnection.uses pin ⟨device, tx, rx⟩ = false := by
      simpa [UartConnection.uses] using hpin
    simp [Board.claims, Board.reserve, huses]
  · intro pin _
    rfl

theorem attachSpiPin_ok {pin : ℤ} {u : Unit} (h : b.attachSpiPin pin = .ok u) (hpin : 0 ≤ pin) :
    b.configured pin.toNat = false ∧
      (b.attachments pin.toNat = .none ∨ b.attachments pin.toNat = .spi) := by
  unfold Board.attachSpiPin at h
  rw [if_neg (by omega)] at h
  obtain ⟨hfree, h⟩ := check_bind_ok.mp h
  exact ⟨check_ok.mp h, hfree⟩

theorem attachSpiDevice_attached {device : ℕ} {clk miso mosi : ℤ}
    (h : b.attachSpiDevice fixture device clk miso mosi = .ok b') :
    Attached b b' (.spi ⟨device, clk, miso, mosi⟩)
      fun pin => clk = pin ∨ miso = pin ∨ mosi = pin := by
  unfold Board.attachSpiDevice at h
  obtain ⟨_, hidle, h⟩ := bind_ok.mp h
  obtain ⟨_, -, h⟩ := bind_ok.mp h
  obtain ⟨_, -, h⟩ := bind_ok.mp h
  obtain ⟨-, h⟩ := check_bind_ok.mp h
  obtain ⟨-, h⟩ := check_bind_ok.mp h
  obtain ⟨-, h⟩ := check_bind_ok.mp h
  obtain ⟨-, h⟩ := check_bind_ok.mp h
  obtain ⟨_, -, h⟩ := bind_ok.mp h
  obtain ⟨_, hclk, h⟩ := bind_ok.mp h
  obtain ⟨_, hmiso, h⟩ := bind_ok.mp h
  obtain ⟨_, hmosi, h⟩ := bind_ok.mp h
  obtain ⟨-, h⟩ := check_bind_ok.mp h
  obtain rfl := pure_ok.mp h
  constructor
  · exact checkBusesIdle_ok hidle
  · rfl
  · rfl
  · rfl
  · rfl
  · intro pin hpin
    have hone : ∀ p : ℤ, p = pin → b.attachSpiPin p = .ok () →
        b.configured pin = false ∧ (b.attachments pin = .none ∨
          Attachment.shared .spi = true ∧ b.attachments pin = .spi) := by
      intro p hp hcheck
      subst hp
      obtain ⟨hunset, hfree⟩ := attachSpiPin_ok hcheck (by omega)
      exact ⟨hunset, hfree.imp_right fun hspi => ⟨rfl, hspi⟩⟩
    rcases hpin with hpin | hpin | hpin
    · exact hone clk hpin hclk
    · exact hone miso hpin hmiso
    · exact hone mosi hpin hmosi
  · intro pin hpin
    rcases hpin with hpin | hpin | hpin <;> simp [Board.reserve, Claim.attachment, hpin]
  · intro pin hpin
    obtain ⟨hclk, hmiso, hmosi⟩ : clk ≠ pin ∧ miso ≠ pin ∧ mosi ≠ pin := by
      simpa only [not_or] using hpin
    simp [Board.reserve, Ne.symm hclk, Ne.symm hmiso, Ne.symm hmosi]
  · intro pin hpin _
    have huses : SpiConnection.uses pin ⟨device, clk, miso, mosi⟩ = true := by
      simpa [SpiConnection.uses, or_assoc] using hpin
    simp only [Board.claims, Board.reserve, List.filter_append, List.filter_cons_of_pos huses,
      List.filter_nil, List.map_append, List.map_cons, List.map_nil]
    exact (perm_joined _ _ _).append_right _
  · intro pin hpin
    have huses : SpiConnection.uses pin ⟨device, clk, miso, mosi⟩ = false := by
      simpa [SpiConnection.uses, and_assoc] using hpin
    simp [Board.claims, Board.reserve, huses]
  · intro pin _
    rfl

theorem attachI2cDevice_attached {device : ℕ} {sda scl : ℤ}
    (h : b.attachI2cDevice fixture device sda scl = .ok b') :
    Attached b b' (.i2c ⟨device, sda, scl⟩) fun pin => sda = pin ∨ scl = pin := by
  unfold Board.attachI2cDevice at h
  obtain ⟨_, hidle, h⟩ := bind_ok.mp h
  obtain ⟨_, -, h⟩ := bind_ok.mp h
  obtain ⟨_, -, h⟩ := bind_ok.mp h
  obtain ⟨-, h⟩ := check_bind_ok.mp h
  obtain ⟨-, h⟩ := check_bind_ok.mp h
  obtain ⟨-, h⟩ := check_bind_ok.mp h
  obtain ⟨-, h⟩ := check_bind_ok.mp h
  obtain ⟨_, hsda, h⟩ := bind_ok.mp h
  obtain ⟨_, hscl, h⟩ := bind_ok.mp h
  obtain ⟨_, -, h⟩ := bind_ok.mp h
  obtain rfl := pure_ok.mp h
  constructor
  · exact checkBusesIdle_ok hidle
  · rfl
  · rfl
  · rfl
  · rfl
  · intro pin hpin
    have hone : ∀ p : ℤ, p = pin → b.attachI2cPin p = .ok () →
        b.configured pin = false ∧ (b.attachments pin = .none ∨
          Attachment.shared .i2c = true ∧ b.attachments pin = .i2c) := by
      intro p hp hcheck
      subst hp
      obtain ⟨hfree, hunset⟩ := check_bind_ok.mp hcheck
      exact ⟨check_ok.mp hunset, hfree.imp_right fun hi2c => ⟨rfl, hi2c⟩⟩
    rcases hpin with hpin | hpin
    · exact hone sda hpin hsda
    · exact hone scl hpin hscl
  · intro pin hpin
    rcases hpin with hpin | hpin <;> simp [Board.reserve, Claim.attachment, hpin]
  · intro pin hpin
    obtain ⟨hsda, hscl⟩ := not_or.mp hpin
    simp [Board.reserve, Ne.symm hsda, Ne.symm hscl]
  · intro pin hpin _
    have huses : I2cConnection.uses pin ⟨device, sda, scl⟩ = true := by
      simpa [I2cConnection.uses] using hpin
    simp only [Board.claims, Board.reserve, List.filter_append, List.filter_cons_of_pos huses,
      List.filter_nil, List.map_append, List.map_cons, List.map_nil]
    exact perm_joined _ _ _
  · intro pin hpin
    have huses : I2cConnection.uses pin ⟨device, sda, scl⟩ = false := by
      simpa [I2cConnection.uses] using hpin
    simp [Board.claims, Board.reserve, huses]
  · intro pin _
    rfl

/-- The loop of `updatePins`, as far as it has come. -/
private def Prospect (b : Board) (mask : BitVec 32)
    (update : ℕ → PinState → Except String PinState) (k : ℕ)
    (prospect : (ℕ → PinState) × BitVec 32) : Prop :=
  ∀ pin, (¬(pin < k ∧ mask.getLsbD pin = true) → prospect.1 pin = b.pins pin) ∧
    (pin < k → mask.getLsbD pin = true → update pin (b.pins pin) = .ok (prospect.1 pin) ∧
      ((b.attachments pin).exclusive = true → b.pinDrive pin (prospect.1 pin) = none) ∧
      (b.pinDrive pin (prospect.1 pin) ≠ b.drive pin → prospect.2.getLsbD pin = true))

private theorem getLsbD_bit {pin p : ℕ} (hpin : pin < 32) :
    (1#32 <<< pin).getLsbD p = decide (p = pin) := by
  simp only [BitVec.getLsbD_shiftLeft, BitVec.getLsbD_one]
  by_cases h : p = pin
  · subst h
    simp [hpin]
  · by_cases hlt : p < pin
    · simp [hlt, h]
    · have hsub : p - pin ≠ 0 := by omega
      simp [hsub, h]

private theorem prospect_turn {mask : BitVec 32} {update : ℕ → PinState → Except String PinState}
    {k : ℕ} {x y : (ℕ → PinState) × BitVec 32} (hk : k < gpioCount)
    (hx : Prospect b mask update k x) (h : b.updatePin mask update x k = .ok y) :
    Prospect b mask update (k + 1) y := by
  unfold Board.updatePin at h
  by_cases hbit : mask.getLsbD k = true
  · rw [if_pos hbit] at h
    obtain ⟨state, hstate, h⟩ := bind_ok.mp h
    obtain ⟨hinput, h⟩ := check_bind_ok.mp h
    obtain ⟨huart, h⟩ := check_bind_ok.mp h
    obtain ⟨hspi, h⟩ := check_bind_ok.mp h
    obtain ⟨hi2c, h⟩ := check_bind_ok.mp h
    obtain rfl := pure_ok.mp h
    rw [(hx k).1 (by omega)] at hstate
    intro pin
    by_cases hpin : pin = k
    · subst hpin
      refine ⟨fun hnot => absurd ⟨by omega, hbit⟩ hnot, fun _ _ => ?_⟩
      simp only [Function.update_self]
      refine ⟨hstate, ?_, ?_⟩
      · intro hexclusive
        cases hkind : b.attachments pin <;> simp_all [Attachment.exclusive]
      · intro hchange
        rw [if_pos hchange, BitVec.getLsbD_or, getLsbD_bit (by unfold gpioCount at hk; omega)]
        simp
    · simp only [Function.update_of_ne hpin]
      refine ⟨fun hnot => (hx pin).1 fun hin => hnot ⟨by omega, hin.2⟩, fun hlt hmask => ?_⟩
      obtain ⟨hupdate, hroom, hchanged⟩ := (hx pin).2 (by omega) hmask
      refine ⟨hupdate, hroom, fun hchange => ?_⟩
      split
      · rw [BitVec.getLsbD_or, hchanged hchange, Bool.true_or]
      · exact hchanged hchange
  · rw [if_neg hbit] at h
    obtain rfl := pure_ok.mp h
    intro pin
    constructor
    · intro hnot
      apply (hx pin).1
      rintro ⟨hlt, hmask⟩
      exact hnot ⟨by omega, hmask⟩
    · intro hlt hmask
      have hne : pin ≠ k := fun heq => hbit (heq ▸ hmask)
      exact (hx pin).2 (by omega) hmask

theorem updatePins_updated {mask : BitVec 32} {update : ℕ → PinState → Except String PinState} :
    Yields (b.updatePins fixture mask update) fun r => Updated b r.1 r.2 := by
  rintro ⟨b', changed⟩ h
  unfold Board.updatePins at h
  obtain ⟨_, hidle, h⟩ := bind_ok.mp h
  obtain ⟨_, -, h⟩ := bind_ok.mp h
  obtain ⟨_, -, h⟩ := bind_ok.mp h
  obtain ⟨⟨next, drives⟩, hloop, h⟩ := bind_ok.mp h
  obtain ⟨rfl, rfl⟩ := Prod.mk.inj (pure_ok.mp h)
  have hend : Prospect b mask update gpioCount (next, drives) := by
    refine foldlM_range_ok hloop ?_ fun k x y hk hx hy => prospect_turn hk hx hy
    intro pin
    exact ⟨fun _ => rfl, fun hlt => absurd hlt (Nat.not_lt_zero pin)⟩
  have hdrive : ∀ pin, Board.drive { b with
      pins := next
      configured := fun pin =>
        (decide (pin < gpioCount) && mask.getLsbD pin) || b.configured pin } pin =
      b.pinDrive pin (next pin) := fun pin => rfl
  constructor
  · exact checkBusesIdle_ok hidle
  · exact checkBusesIdle_ok hidle
  · rfl
  · rfl
  · rfl
  · exact fun pin => rfl
  · intro pin hset
    simp [hset]
  · intro pin hunset
    apply (hend pin).1
    rintro ⟨hlt, hmask⟩
    simp [hlt, hmask] at hunset
  · intro pin hexclusive
    by_cases hpin : pin < gpioCount ∧ mask.getLsbD pin = true
    · left
      rw [hdrive]
      exact ((hend pin).2 hpin.1 hpin.2).2.1 hexclusive
    · exact Or.inr ((hend pin).1 hpin)
  · intro pin hchange
    rw [hdrive] at hchange
    by_cases hpin : pin < gpioCount ∧ mask.getLsbD pin = true
    · exact ((hend pin).2 hpin.1 hpin.2).2.2 hchange
    · have hsame : next pin = b.pins pin := (hend pin).1 hpin
      rw [hsame] at hchange
      exact absurd rfl hchange

theorem settled_effect {x : Except String Board} {task : Option Task}
    (hx : Yields x fun c => Effect b c none) (h : settled x = .ok (b', task)) :
    Effect b b' task := by
  cases x with
  | error message => simp [settled, Except.map] at h
  | ok c =>
    obtain ⟨rfl, rfl⟩ : c = b' ∧ none = task := by simpa [settled, Except.map] using h
    exact hx c rfl

theorem settled_steady {x : Except String Board} {task : Option Task} (hx : Yields x (Steady b))
    (h : settled x = .ok (b', task)) : Effect b b' task :=
  settled_effect (fun c hc => .steady (hx c hc)) h

theorem answered_steady {x : Except String (Board × ℕ)} {task : Option Task}
    (hx : Yields x fun r => Steady b r.1) (h : answered x = .ok (b', task)) :
    Effect b b' task := by
  cases x with
  | error message => simp [answered, Except.map] at h
  | ok r =>
    obtain ⟨rfl, rfl⟩ : r.1 = b' ∧ none = task := by simpa [answered, Except.map] using h
    exact .steady (hx r rfl)

theorem published_updated {adcPin : Option ℕ} {x : Except String (Board × BitVec 32)}
    {task : Option Task} (hx : Yields x fun r => Updated b r.1 r.2)
    (h : published adcPin x = .ok (b', task)) : Effect b b' task := by
  cases x with
  | error message => simp [published, Except.map] at h
  | ok r =>
    obtain ⟨rfl, rfl⟩ : r.1 = b' ∧ some (Task.drives r.2 adcPin) = task := by
      simpa [published, Except.map] using h
    exact .updated (hx r rfl)

theorem setPwmState_sliced {slice : ℕ} {state : PwmState}
    (h : b.setPwmState fixture slice state = .ok b') : Sliced b b' slice := by
  unfold Board.setPwmState at h
  obtain ⟨_, hidle, h⟩ := bind_ok.mp h
  obtain ⟨-, h⟩ := check_bind_ok.mp h
  obtain ⟨-, h⟩ := check_bind_ok.mp h
  obtain ⟨-, h⟩ := check_bind_ok.mp h
  obtain rfl := pure_ok.mp h
  constructor
  · exact checkBusesIdle_ok hidle
  · rfl
  · rfl
  · rfl
  · rfl
  · rfl
  · exact fun pin => rfl
  · intro pin hchange
    by_contra hnot
    apply hchange
    by_cases hpwm : (b.pins pin).function = .pwm
    · have hslice : pwmSlice pin ≠ slice := fun heq => hnot ⟨hpwm, heq⟩
      simp [Board.drive, Board.pinDrive, Function.update_of_ne hslice]
    · simp [Board.drive, Board.pinDrive, hpwm]

theorem attach_attached {pin : ℕ} {u : Unit} (h : b.checkAttachment fixture pin = .ok u)
    (device : GpioDevice) (claim : Claim) (hclaim : device.claims = [claim]) :
    Attached b (b.connect pin device claim.attachment) claim (· = pin) := by
  obtain ⟨hidle, -, -, hfree, hunset⟩ := checkAttachment_ok h
  exact connect_attached hclaim hidle (by simpa using hfree) (by simpa using hunset)

theorem attachInput_attached {pin source : ℕ} (h : b.attachInput fixture pin source = .ok b') :
    Attached b b' (.source source) (· = pin) := by
  obtain ⟨_, hcheck, h⟩ := bind_ok.mp h
  obtain rfl := pure_ok.mp h
  exact attach_attached hcheck (.source source) (.source source) rfl

theorem attachIo_attached {pin io : ℕ} (h : b.attach fixture pin io = .ok b') :
    Attached b b' (.io io) (· = pin) := by
  obtain ⟨_, hcheck, h⟩ := bind_ok.mp h
  obtain rfl := pure_ok.mp h
  exact attach_attached hcheck (.io io) (.io io) rfl

theorem attachOutput_attached {pin sink : ℕ} (h : b.attachOutput fixture pin sink = .ok b') :
    Attached b b' (.sink sink) (· = pin) := by
  obtain ⟨_, hcheck, h⟩ := bind_ok.mp h
  obtain rfl := pure_ok.mp h
  have hattach := attach_attached hcheck (.sink sink) (.sink sink) rfl
  exact ⟨hattach.idle, hattach.pins, hattach.configured, hattach.pwms, hattach.publishing,
    hattach.free, hattach.attachments_on, hattach.attachments_off, hattach.claims_on,
    hattach.claims_off, hattach.retained⟩

end Spec

/-- The serial controllers and the converter are apart from the pins. -/
theorem setUart_steady (b : Board) (index : ℕ) (state : UartState) :
    Steady b (b.setUart index state) := ⟨rfl, rfl, rfl, rfl, rfl, rfl, rfl, rfl, rfl⟩

theorem setSpi_steady (b : Board) (index : ℕ) (state : SpiState) :
    Steady b (b.setSpi index state) := ⟨rfl, rfl, rfl, rfl, rfl, rfl, rfl, rfl, rfl⟩

theorem setI2c_steady (b : Board) (index : ℕ) (state : I2cState) :
    Steady b (b.setI2c index state) := ⟨rfl, rfl, rfl, rfl, rfl, rfl, rfl, rfl, rfl⟩

section Operations
variable {fixture : Fixture} {b : Board} {pin index baudrate : ℕ} {mask value : BitVec 32}

theorem init_updated : Yields (b.init fixture mask) fun r => Updated b r.1 r.2 :=
  updatePins_updated

theorem setFunction_updated {function : GpioFunction} :
    Yields (b.setFunction fixture mask function) fun r => Updated b r.1 r.2 :=
  .bind fun _ => updatePins_updated

theorem put_updated : Yields (b.put fixture mask value) fun r => Updated b r.1 r.2 :=
  updatePins_updated

theorem toggle_updated : Yields (b.toggle fixture mask) fun r => Updated b r.1 r.2 :=
  updatePins_updated

theorem setDirection_updated :
    Yields (b.setDirection fixture mask value) fun r => Updated b r.1 r.2 :=
  updatePins_updated

theorem setPulls_updated {up down : Bool} :
    Yields (b.setPulls fixture pin up down) fun r => Updated b r.1 r.2 :=
  .bind fun _ => .bind fun _ => updatePins_updated

theorem setInputEnabled_updated {enabled : Bool} :
    Yields (b.setInputEnabled fixture pin enabled) fun r => Updated b r.1 r.2 :=
  .bind fun _ => updatePins_updated

theorem setInputOverride_updated {control : ℕ} :
    Yields (b.setInputOverride fixture pin control) fun r => Updated b r.1 r.2 :=
  .bind fun _ => .bind fun _ => updatePins_updated

theorem setOutputOverride_updated {control : ℕ} :
    Yields (b.setOutputOverride fixture pin control) fun r => Updated b r.1 r.2 :=
  .bind fun _ => .bind fun _ => .bind fun _ => updatePins_updated

theorem setOutputEnableOverride_updated {control : ℕ} :
    Yields (b.setOutputEnableOverride fixture pin control) fun r => Updated b r.1 r.2 :=
  .bind fun _ => .bind fun _ => .bind fun _ => updatePins_updated

theorem initAdcGpio_updated : Yields (b.initAdcGpio fixture pin) fun r => Updated b r.1 r.2 :=
  .bind fun _ => .bind fun _ => .bind fun _ => updatePins_updated

theorem initUart_steady : Yields (b.initUart index baudrate) fun r => Steady b r.1 :=
  .bind fun _ => .bind fun _ => .pure (setUart_steady ..)

theorem deinitUart_steady : Yields (b.deinitUart index) (Steady b) :=
  .bind fun _ => .pure (setUart_steady ..)

theorem setUartBaudrate_steady :
    Yields (b.setUartBaudrate index baudrate) fun r => Steady b r.1 :=
  .bind fun _ => .bind fun _ => .bind fun _ => .pure (setUart_steady ..)

theorem setUartTranslateCrLf_steady {enabled : Bool} :
    Yields (b.setUartTranslateCrLf index enabled) (Steady b) :=
  .bind fun _ => .bind fun _ => .pure (setUart_steady ..)

theorem initSpi_steady : Yields (b.initSpi fixture index baudrate) fun r => Steady b r.1 :=
  .bind fun _ => .bind fun _ => .pure (setSpi_steady ..)

theorem deinitSpi_steady : Yields (b.deinitSpi fixture index) (Steady b) :=
  .bind fun _ => .pure (setSpi_steady ..)

theorem setSpiBaudrate_steady :
    Yields (b.setSpiBaudrate fixture index baudrate) fun r => Steady b r.1 :=
  .bind fun _ => .bind fun _ => .bind fun _ => .pure (setSpi_steady ..)

theorem setSpiFormat_steady {dataBits cpol cpha : ℕ} {msbFirst : Bool} :
    Yields (b.setSpiFormat fixture index dataBits cpol cpha msbFirst) (Steady b) :=
  .bind fun _ => .bind fun _ => .bind fun _ => .bind fun _ => .bind fun _ => .bind fun _ =>
    .pure (setSpi_steady ..)

theorem beginSpi_steady : Yields (b.beginSpi fixture index) (Steady b) :=
  .bind fun _ => .bind fun _ => .pure (setSpi_steady ..)

theorem endSpi_steady : Yields (b.endSpi index) (Steady b) :=
  .bind fun _ => .bind fun _ => .pure (setSpi_steady ..)

theorem initI2c_steady : Yields (b.initI2c fixture index baudrate) fun r => Steady b r.1 :=
  .bind fun _ => .bind fun _ => .bind fun _ => .pure (setI2c_steady ..)

theorem deinitI2c_steady : Yields (b.deinitI2c fixture index) (Steady b) :=
  .bind fun _ => .pure (setI2c_steady ..)

theorem setI2cBaudrate_steady :
    Yields (b.setI2cBaudrate fixture index baudrate) fun r => Steady b r.1 :=
  .bind fun _ => .bind fun _ => .bind fun _ => initI2c_steady

theorem beginI2c_steady : Yields (b.beginI2c fixture index) (Steady b) :=
  .bind fun _ => .bind fun _ => .pure (setI2c_steady ..)

theorem endI2c_steady {restart : Bool} : Yields (b.endI2c index restart) (Steady b) :=
  .bind fun _ => .bind fun _ => .pure (setI2c_steady ..)

theorem initAdc_steady : Yields (b.initAdc fixture) (Steady b) :=
  .bind fun _ => .pure ⟨rfl, rfl, rfl, rfl, rfl, rfl, rfl, rfl, rfl⟩

theorem selectAdc_steady {input : ℕ} : Yields (b.selectAdc fixture input) (Steady b) :=
  .bind fun _ => .bind fun _ => .bind fun _ =>
    .pure ⟨rfl, rfl, rfl, rfl, rfl, rfl, rfl, rfl, rfl⟩

end Operations

/-- Every operation that ends well is one of the four kinds of change. -/
theorem perform_effect {fixture : Fixture} {b b' : Board} {task : Option Task} {op : Op}
    (h : op.perform fixture b = .ok (b', task)) : Effect b b' task := by
  cases op with
  | attachInput => exact settled_effect (fun _ h => .attached (attachInput_attached h)) h
  | attachOutput => exact settled_effect (fun _ h => .attached (attachOutput_attached h)) h
  | attach => exact settled_effect (fun _ h => .attached (attachIo_attached h)) h
  | attachUartDevice =>
    exact settled_effect (fun _ h => .attached (attachUartDevice_attached h)) h
  | attachSpiDevice => exact settled_effect (fun _ h => .attached (attachSpiDevice_attached h)) h
  | attachI2cDevice => exact settled_effect (fun _ h => .attached (attachI2cDevice_attached h)) h
  | init => exact published_updated init_updated h
  | setFunction => exact published_updated setFunction_updated h
  | put => exact published_updated put_updated h
  | toggle => exact published_updated toggle_updated h
  | setDirection => exact published_updated setDirection_updated h
  | setPulls => exact published_updated setPulls_updated h
  | setInputEnabled => exact published_updated setInputEnabled_updated h
  | setInputOverride => exact published_updated setInputOverride_updated h
  | setOutputOverride => exact published_updated setOutputOverride_updated h
  | setOutputEnableOverride => exact published_updated setOutputEnableOverride_updated h
  | initAdcGpio => exact published_updated initAdcGpio_updated h
  | setPwmState slice state =>
    cases hset : b.setPwmState fixture slice state with
    | error message => simp [Op.perform, hset, Except.map] at h
    | ok c =>
      obtain ⟨rfl, rfl⟩ : c = b' ∧ some (Task.slice slice) = task := by
        simpa [Op.perform, hset, Except.map] using h
      exact Effect.sliced (setPwmState_sliced hset)
  | initUart => exact answered_steady initUart_steady h
  | deinitUart => exact settled_steady deinitUart_steady h
  | setUartBaudrate => exact answered_steady setUartBaudrate_steady h
  | setUartTranslateCrLf => exact settled_steady setUartTranslateCrLf_steady h
  | initSpi => exact answered_steady initSpi_steady h
  | deinitSpi => exact settled_steady deinitSpi_steady h
  | setSpiBaudrate => exact answered_steady setSpiBaudrate_steady h
  | setSpiFormat => exact settled_steady setSpiFormat_steady h
  | beginSpi => exact settled_steady beginSpi_steady h
  | endSpi => exact settled_steady endSpi_steady h
  | initI2c => exact answered_steady initI2c_steady h
  | deinitI2c => exact settled_steady deinitI2c_steady h
  | setI2cBaudrate => exact answered_steady setI2cBaudrate_steady h
  | beginI2c => exact settled_steady beginI2c_steady h
  | endI2c => exact settled_steady endI2c_steady h
  | initAdc => exact settled_steady initAdc_steady h
  | selectAdc => exact settled_steady selectAdc_steady h

end RooTesting.PicoBoard
