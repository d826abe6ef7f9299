import RooTesting.PinAgreement

/-! # I2C masters of the IDF

A bus owns a port with two pins, and has devices. Callers hold pointers to both, which are looked
for in the registry before anything is read through them. A transfer goes to the one attached
device that has the address and hangs on the pins that carry the signals of the port. -/
namespace RooTesting.IdfI2c
open PinRouting Transition

abbrev Byte := BitVec 8
abbrev Bytes := List Byte
abbrev Handle := ℕ

inductive Err where
  | ok | invalidArg | notSupported | notFound | noMem | invalidState | invalidResponse | timeout
  | fail
  deriving DecidableEq

/-- `FakeI2cDevice::Result`, and what a controller returns when it finds no device. -/
inductive Result where
  | ok | dev | ack | timeout | bus | busy | memory | continue | noBegin | notFound
  deriving DecidableEq

/-- `ResultCode` -/
def resultCode : Result → Err
  | .ok => .ok
  | .notFound | .dev | .ack => .invalidResponse
  | .timeout | .busy => .timeout
  | .memory => .noMem
  | _ => .fail

/-- `TimeoutValue` -/
def timeoutValue (timeout : ℤ) : ℕ :=
  if timeout < 0 ∨ 65535 < timeout then 65535 else timeout.toNat

/-- `FakeI2cDevice`; the last arguments of a transfer are `sendStop` and the timeout. -/
structure FakeDevice (σ : Type) where
  address : ℕ
  write : σ → Bytes → Bool → ℕ → Result × σ
  read : σ → ℕ → Bool → ℕ → Result × Bytes × σ

structure Attached where
  device : ℕ
  sda : ℕ
  scl : ℕ
  deriving DecidableEq

/-- `i2c_master_bus_t` -/
structure Bus where
  port : ℕ
  sda : ℕ
  scl : ℕ
  devices : List Handle

/-- `i2c_master_dev_t` -/
structure Dev where
  bus : Handle
  address : ℕ

/-- `bus` and `dev` are the objects that are alive, and `buses` is the registry. -/
structure State (σ : Type) where
  world : World
  attached : List Attached
  fake : ℕ → σ
  bus : Handle → Option Bus
  dev : Handle → Option Dev
  buses : ℕ → Option Handle

structure BusConfig where
  i2cPort : ℤ
  sda : Option ℕ
  scl : Option ℕ
  transQueueDepth : ℕ
  allowPd : Bool

structure DeviceConfig where
  addressBits7 : Bool
  disableAckCheck : Bool
  deviceAddress : ℕ
  sclSpeedHz : ℕ

/-- What a call returns, with the handle that it stores and the bytes that it has read. -/
structure Answer where
  err : Err
  handle : Option Handle := none
  bytes : Bytes := []

section Calls
variable {σ : Type} (b : Board) (validOutput : ℕ → Bool) (F : ℕ → FakeDevice σ) (s : State σ)

/-- `Esp32I2c::resolveOut`: two devices are a conflict. -/
def resolveOut (port address : ℕ) : Option ℕ :=
  match s.attached.filter fun a => s.world.outMatrix a.scl == b.sclOut port &&
    s.world.outMatrix a.sda == b.sdaOut port && (F a.device).address == address with
  | [a] => some a.device
  | _ => none

/-- `Esp32I2c::write` -/
def controllerWrite (port address : ℕ) (data : Bytes) (timeout : ℕ) (sendStop : Bool) :
    Result × State σ :=
  match resolveOut b F s port address with
  | none => (.notFound, s)
  | some device =>
    let (result, state) := (F device).write (s.fake device) data sendStop timeout
    (result, { s with fake := Function.update s.fake device state })

/-- `Esp32I2c::read` -/
def controllerRead (port address size timeout : ℕ) (sendStop : Bool) :
    Result × Bytes × State σ :=
  match resolveOut b F s port address with
  | none => (.notFound, [], s)
  | some device =>
    let (result, bytes, state) := (F device).read (s.fake device) size sendStop timeout
    (result, bytes, { s with fake := Function.update s.fake device state })

def isValidPin (pin : ℕ) : Bool := b.isOutputPin pin && validOutput pin

def isValidBus (bus : Handle) : Bool := (List.range b.i2cs).any fun p => s.buses p == some bus

/-- `IsValidDevice`, which looks into the buses of the registry. -/
def isValidDevice (device : Handle) : List ℕ → Option Bool
  | [] => some false
  | p :: ports =>
    match s.buses p with
    | none => isValidDevice device ports
    | some h => (s.bus h).bind fun bus =>
      if device ∈ bus.devices then some true else isValidDevice device ports

def setBuses (port : ℕ) (h : Option Handle) : State σ :=
  { s with buses := Function.update s.buses port h }

def setBus (h : Handle) (bus : Option Bus) : State σ :=
  { s with bus := Function.update s.bus h bus }

def setDev (h : Handle) (dev : Option Dev) : State σ :=
  { s with dev := Function.update s.dev h dev }

def detach (bus : Bus) : World :=
  let w := outAssign b s.world bus.sda b.kMatrixDetachOutSig
  let w := outAssign b w bus.scl b.kMatrixDetachOutSig
  let w := inAssign b w kMatrixDetachInUndefPin (b.sdaIn bus.port)
  inAssign b w kMatrixDetachInUndefPin (b.sclIn bus.port)

/-- The port that is asked for, or the first free one. -/
def choosePort (i2cPort : ℤ) : Except Err ℕ :=
  if i2cPort = -1 then
    match (List.range b.i2cs).find? fun p => (s.buses p).isNone with
    | some port => .ok port
    | none => .error .notFound
  else if i2cPort < 0 ∨ (b.i2cs : ℤ) ≤ i2cPort then .error .invalidArg
  else if (s.buses i2cPort.toNat).isSome then .error .notFound
  else .ok i2cPort.toNat

/-- `i2c_new_master_bus`; `alloc` is the memory that it is given. -/
def newMasterBus (config : BusConfig) (alloc : Option Handle) : Answer × State σ :=
  match config.sda, config.scl with
  | some sda, some scl =>
    if isValidPin b validOutput sda = false ∨ isValidPin b validOutput scl = false ∨ sda = scl then
      (⟨.invalidArg, none, []⟩, s)
    else if config.transQueueDepth ≠ 0 ∨ config.allowPd = true then
      (⟨.notSupported, none, []⟩, s)
    else
      match choosePort b s config.i2cPort, alloc with
      | .error err, _ => (⟨err, none, []⟩, s)
      | .ok _, none => (⟨.noMem, none, []⟩, s)
      | .ok port, some h =>
        let s := setBus s h (some ⟨port, sda, scl, []⟩)
        let s := { s with world := routePins b s.world port sda scl }
        (⟨.ok, some h, []⟩, setBuses s port (some h))
  | _, _ => (⟨.invalidArg, none, []⟩, s)

/-- `i2c_master_get_bus_handle` -/
def getBusHandle (port : ℤ) : Answer × State σ :=
  if port < 0 ∨ (b.i2cs : ℤ) ≤ port then (⟨.invalidArg, none, []⟩, s)
  else
    match s.buses port.toNat with
    | some h => (⟨.ok, some h, []⟩, s)
    | none => (⟨.notFound, none, []⟩, s)

/-- `i2c_master_bus_add_device` -/
def busAddDevice (h : Handle) (config : DeviceConfig) (alloc : Option Handle) :
    Option (Answer × State σ) :=
  if config.sclSpeedHz = 0 then some (⟨.invalidArg, none, []⟩, s)
  else if config.addressBits7 = false ∨ config.disableAckCheck = true then
    some (⟨.notSupported, none, []⟩, s)
  else if 0x7f < config.deviceAddress then some (⟨.invalidArg, none, []⟩, s)
  else if isValidBus b s h = false then some (⟨.invalidArg, none, []⟩, s)
  else
    match alloc with
    | none => some (⟨.noMem, none, []⟩, s)
    | some d => (s.bus h).map fun bus =>
      let s := setDev s d (some ⟨h, config.deviceAddress⟩)
      (⟨.ok, some d, []⟩, setBus s h (some { bus with devices := d :: bus.devices }))

/-- `i2c_master_bus_rm_device` -/
def busRmDevice (d : Handle) : Option (Answer × State σ) :=
  (isValidDevice s d (List.range b.i2cs)).bind fun valid =>
    if valid = false then some (⟨.invalidArg, none, []⟩, s)
    else (s.dev d).bind fun dev => (s.bus dev.bus).map fun bus =>
      let s := setBus s dev.bus (some { bus with devices := bus.devices.filter (· ≠ d) })
      (⟨.ok, none, []⟩, setDev s d none)

/-- `i2c_del_master_bus` -/
def delMasterBus (h : Handle) : Option (Answer × State σ) :=
  if isValidBus b s h = false then some (⟨.invalidArg, none, []⟩, s)
  else (s.bus h).map fun bus =>
    if bus.devices ≠ [] then (⟨.invalidState, none, []⟩, s)
    else
      let s := { s with world := detach b s bus }
      (⟨.ok, none, []⟩, setBus (setBuses s bus.port none) h none)

/-- The checks of a transfer, and the port and the address that it goes to. -/
def withDevice (d : Handle) (transfer : ℕ → ℕ → Answer × State σ) : Option (Answer × State σ) :=
  (isValidDevice s d (List.range b.i2cs)).bind fun valid =>
    if valid = false then some (⟨.invalidArg, none, []⟩, s)
    else (s.dev d).bind fun dev => (s.bus dev.bus).map fun bus => transfer bus.port dev.address

def sizeValid (size : ℕ) : Bool := decide (size ≠ 0 ∧ size ≤ 65535)

/-- `i2c_master_transmit` -/
def transmit (d : Handle) (data : Bytes) (timeout : ℤ) : Option (Answer × State σ) :=
  if sizeValid data.length = false then some (⟨.invalidArg, none, []⟩, s)
  else withDevice b s d fun port address =>
    let (result, s) := controllerWrite b F s port address data (timeoutValue timeout) true
    (⟨resultCode result, none, []⟩, s)

/-- `i2c_master_receive` -/
def receive (d : Handle) (size : ℕ) (timeout : ℤ) : Option (Answer × State σ) :=
  if sizeValid size = false then some (⟨.invalidArg, none, []⟩, s)
  else withDevice b s d fun port address =>
    let (result, bytes, s) := controllerRead b F s port address size (timeoutValue timeout) true
    (⟨resultCode result, none, bytes⟩, s)

/-- `i2c_master_transmit_receive` -/
def transmitReceive (d : Handle) (data : Bytes) (size : ℕ) (timeout : ℤ) :
    Option (Answer × State σ) :=
  if sizeValid data.length = false ∨ sizeValid size = false then
    some (⟨.invalidArg, none, []⟩, s)
  else withDevice b s d fun port address =>
    let (result, s) := controllerWrite b F s port address data (timeoutValue timeout) false
    if resultCode result ≠ .ok then (⟨resultCode result, none, []⟩, s)
    else
      let (result, bytes, s) := controllerRead b F s port address size (timeoutValue timeout) true
      (⟨resultCode result, none, bytes⟩, s)

/-- `i2c_master_probe` -/
def probe (h : Handle) (address : ℕ) : Option (Answer × State σ) :=
  if 0x7f < address then some (⟨.invalidArg, none, []⟩, s)
  else if isValidBus b s h = false then some (⟨.invalidArg, none, []⟩, s)
  else (s.bus h).map fun bus =>
    (⟨if (resolveOut b F s bus.port address).isSome then .ok else .notFound, none, []⟩, s)

end Calls

inductive Act where
  | newMasterBus (config : BusConfig) (alloc : Option Handle)
  | getBusHandle (port : ℤ)
  | busAddDevice (h : Handle) (config : DeviceConfig) (alloc : Option Handle)
  | busRmDevice (d : Handle)
  | delMasterBus (h : Handle)
  | transmit (d : Handle) (data : Bytes) (timeout : ℤ)
  | receive (d : Handle) (size : ℕ) (timeout : ℤ)
  | transmitReceive (d : Handle) (data : Bytes) (size : ℕ) (timeout : ℤ)
  | probe (h : Handle) (address : ℕ)

/-- The mutex makes each call one step; it has no outcome if it reads through a dead pointer. -/
def perform {σ : Type} (b : Board) (validOutput : ℕ → Bool) (F : ℕ → FakeDevice σ) (s : State σ) :
    Act → Option (Answer × State σ)
  | .newMasterBus config alloc => some (newMasterBus b validOutput s config alloc)
  | .getBusHandle port => some (getBusHandle b s port)
  | .busAddDevice h config alloc => busAddDevice b s h config alloc
  | .busRmDevice d => busRmDevice b s d
  | .delMasterBus h => delMasterBus b s h
  | .transmit d data timeout => transmit b F s d data timeout
  | .receive d size timeout => receive b F s d size timeout
  | .transmitReceive d data size timeout => transmitReceive b F s d data size timeout
  | .probe h address => probe b F s h address

def step {σ : Type} (b : Board) (validOutput : ℕ → Bool) (F : ℕ → FakeDevice σ) (s : State σ)
    (a : Act) : Option (State σ) :=
  (perform b validOutput F s a).map Prod.snd

variable {σ : Type} {b : Board} {validOutput : ℕ → Bool} {F : ℕ → FakeDevice σ} {s s' : State σ}

/-- The buses that are alive are those of the registry, and the devices that are alive are those of
these buses. -/
structure Inv (b : Board) (s : State σ) : Prop where
  registered : ∀ p h, s.buses p = some h → p < b.i2cs ∧ ∃ bus, s.bus h = some bus ∧ bus.port = p
  alive : ∀ h bus, s.bus h = some bus → s.buses bus.port = some h
  owner : ∀ d dev, s.dev d = some dev → ∃ bus, s.bus dev.bus = some bus ∧ d ∈ bus.devices
  owned : ∀ h bus d, s.bus h = some bus → d ∈ bus.devices → ∃ dev, s.dev d = some dev ∧ dev.bus = h

/-- Memory that is given is not in use. -/
def FreshAlloc (s : State σ) : Act → Prop
  | .newMasterBus _ (some h) => s.bus h = none
  | .busAddDevice _ _ (some d) => s.dev d = none
  | _ => True

theorem isValidBus_eq (hs : Inv b s) (h : Handle) : isValidBus b s h = (s.bus h).isSome := by
  rw [Bool.eq_iff_iff, isValidBus, List.any_eq_true]
  simp only [List.mem_range, beq_iff_eq]
  constructor
  · rintro ⟨p, -, hp⟩
    obtain ⟨-, bus, hbus, -⟩ := hs.registered p h hp
    rw [hbus]
    rfl
  · intro hsome
    obtain ⟨bus, hbus⟩ := Option.isSome_iff_exists.mp hsome
    have hport := hs.alive h bus hbus
    exact ⟨bus.port, (hs.registered _ _ hport).1, hport⟩

/-- Looking through the registry reads only what is alive. -/
theorem isValidDevice_cases (hs : Inv b s) (d : Handle) (ports : List ℕ) :
    ∃ valid, isValidDevice s d ports = some valid ∧ (valid = true ↔
      ∃ p ∈ ports, ∃ h bus, s.buses p = some h ∧ s.bus h = some bus ∧ d ∈ bus.devices) := by
  induction ports with
  | nil => exact ⟨false, rfl, by simp⟩
  | cons p ports ih =>
    obtain ⟨valid, hvalid, hiff⟩ := ih
    rw [isValidDevice]
    cases hp : s.buses p with
    | none =>
      refine ⟨valid, hvalid, hiff.trans ⟨?_, ?_⟩⟩
      · rintro ⟨q, hq, hrest⟩
        exact ⟨q, List.mem_cons_of_mem _ hq, hrest⟩
      · rintro ⟨q, hq, h, bus, hbuses, hrest⟩
        rcases List.mem_cons.mp hq with rfl | hq
        · rw [hp] at hbuses
          cases hbuses
        · exact ⟨q, hq, h, bus, hbuses, hrest⟩
    | some h =>
      obtain ⟨-, bus, hbus, -⟩ := hs.registered p h hp
      simp only [hbus, Option.bind_some]
      by_cases hd : d ∈ bus.devices
      · rw [if_pos hd]
        exact ⟨true, rfl, fun _ => ⟨p, List.mem_cons_self, h, bus, hp, hbus, hd⟩, fun _ => rfl⟩
      · rw [if_neg hd]
        refine ⟨valid, hvalid, hiff.trans ⟨?_, ?_⟩⟩
        · rintro ⟨q, hq, hrest⟩
          exact ⟨q, List.mem_cons_of_mem _ hq, hrest⟩
        · rintro ⟨q, hq, h', bus', hbuses, hbus', hd'⟩
          rcases List.mem_cons.mp hq with rfl | hq
          · obtain rfl := Option.some.inj (hp.symm.trans hbuses)
            obtain rfl := Option.some.inj (hbus.symm.trans hbus')
            exact absurd hd' hd
          · exact ⟨q, hq, h', bus', hbuses, hbus', hd'⟩

theorem isValidDevice_eq (hs : Inv b s) (d : Handle) :
    isValidDevice s d (List.range b.i2cs) = some (s.dev d).isSome := by
  obtain ⟨valid, hvalid, hiff⟩ := isValidDevice_cases hs d (List.range b.i2cs)
  rw [hvalid]
  refine congrArg some (Bool.eq_iff_iff.mpr (hiff.trans ⟨?_, fun hsome => ?_⟩))
  · rintro ⟨p, -, h, bus, -, hbus, hd⟩
    obtain ⟨dev, hdev, -⟩ := hs.owned h bus d hbus hd
    rw [hdev]
    rfl
  · obtain ⟨dev, hdev⟩ := Option.isSome_iff_exists.mp hsome
    obtain ⟨bus, hbus, hd⟩ := hs.owner d dev hdev
    have hport := hs.alive _ _ hbus
    exact ⟨bus.port, List.mem_range.mpr (hs.registered _ _ hport).1, _, _, hport, hbus, hd⟩

theorem withDevice_of_none (hs : Inv b s) {d : Handle} (hd : s.dev d = none)
    (transfer : ℕ → ℕ → Answer × State σ) :
    withDevice b s d transfer = some (⟨.invalidArg, none, []⟩, s) := by
  rw [withDevice, isValidDevice_eq hs, hd]
  rfl

theorem withDevice_of_some (hs : Inv b s) {d : Handle} {dev : Dev} (hd : s.dev d = some dev)
    (transfer : ℕ → ℕ → Answer × State σ) :
    ∃ bus, s.bus dev.bus = some bus ∧
      withDevice b s d transfer = some (transfer bus.port dev.address) := by
  obtain ⟨bus, hbus, -⟩ := hs.owner d dev hd
  refine ⟨bus, hbus, ?_⟩
  rw [withDevice, isValidDevice_eq hs, hd]
  simp only [Option.isSome_some, Option.bind_some, hbus, Option.map_some]
  rfl

/-- The registry and its objects stay. -/
structure Kept (s s' : State σ) : Prop where
  world : s'.world = s.world
  attached : s'.attached = s.attached
  bus : s'.bus = s.bus
  dev : s'.dev = s.dev
  buses : s'.buses = s.buses

theorem Kept.refl (s : State σ) : Kept s s := ⟨rfl, rfl, rfl, rfl, rfl⟩

theorem Kept.trans {t : State σ} (h : Kept s s') (h' : Kept s' t) : Kept s t :=
  ⟨h'.world.trans h.world, h'.attached.trans h.attached, h'.bus.trans h.bus, h'.dev.trans h.dev,
    h'.buses.trans h.buses⟩

theorem Kept.inv (h : Kept s s') (hs : Inv b s) : Inv b s' := by
  refine ⟨?_, ?_, ?_, ?_⟩
  · rw [h.buses, h.bus]
    exact hs.registered
  · rw [h.buses, h.bus]
    exact hs.alive
  · rw [h.dev, h.bus]
    exact hs.owner
  · rw [h.dev, h.bus]
    exact hs.owned

theorem controllerWrite_kept (port address : ℕ) (data : Bytes) (timeout : ℕ) (sendStop : Bool) :
    Kept s (controllerWrite b F s port address data timeout sendStop).2 := by
  unfold controllerWrite
  split
  · exact Kept.refl s
  · exact ⟨rfl, rfl, rfl, rfl, rfl⟩

theorem controllerRead_kept (port address size timeout : ℕ) (sendStop : Bool) :
    Kept s (controllerRead b F s port address size timeout sendStop).2.2 := by
  unfold controllerRead
  split
  · exact Kept.refl s
  · exact ⟨rfl, rfl, rfl, rfl, rfl⟩

theorem withDevice_kept (hs : Inv b s) (d : Handle) {transfer : ℕ → ℕ → Answer × State σ}
    (h : ∀ port address, Kept s (transfer port address).2) :
    ∃ r, withDevice b s d transfer = some r ∧ Kept s r.2 := by
  cases hd : s.dev d with
  | none => exact ⟨_, withDevice_of_none hs hd transfer, Kept.refl s⟩
  | some dev =>
    obtain ⟨bus, -, hwith⟩ := withDevice_of_some hs hd transfer
    exact ⟨_, hwith, h _ _⟩

/-- A new bus at a free port, with the two signals on its pins. -/
structure Created (b : Board) (s s' : State σ) (config : BusConfig) (h : Handle) : Prop where
  made : ∃ bus, bus.devices = [] ∧ config.sda = some bus.sda ∧ config.scl = some bus.scl ∧
    b.isOutputPin bus.sda = true ∧ b.isOutputPin bus.scl = true ∧ bus.sda ≠ bus.scl ∧
    bus.port < b.i2cs ∧ s.buses bus.port = none ∧
    s'.bus = Function.update s.bus h (some bus) ∧
    s'.buses = Function.update s.buses bus.port (some h) ∧
    s'.world = routePins b s.world bus.port bus.sda bus.scl
  attached : s'.attached = s.attached
  dev : s'.dev = s.dev

theorem choosePort_ok {i2cPort : ℤ} {port : ℕ} (h : choosePort b s i2cPort = .ok port) :
    port < b.i2cs ∧ s.buses port = none := by
  unfold choosePort at h
  by_cases hauto : i2cPort = -1
  · rw [if_pos hauto] at h
    split at h
    · next found hfound =>
      cases h
      exact ⟨List.mem_range.mp (List.mem_of_find?_eq_some hfound),
        Option.isNone_iff_eq_none.mp (by simpa using List.find?_some hfound)⟩
    · cases h
  · rw [if_neg hauto] at h
    split_ifs at h with hrange hused
    cases h
    exact ⟨by omega, by simpa using hused⟩

theorem newMasterBus_cases (config : BusConfig) (alloc : Option Handle) :
    (newMasterBus b validOutput s config alloc).2 = s ∨
      ∃ h, alloc = some h ∧ Created b s (newMasterBus b validOutput s config alloc).2 config h := by
  unfold newMasterBus
  split
  · next sda scl hsda hscl =>
    split_ifs with hpins hsupported
    · exact Or.inl rfl
    · exact Or.inl rfl
    · obtain ⟨hsdaValid, hpins⟩ := not_or.mp hpins
      obtain ⟨hsclValid, hne⟩ := not_or.mp hpins
      split
      · exact Or.inl rfl
      · exact Or.inl rfl
      · next port h hport =>
        obtain ⟨hlt, hfree⟩ := choosePort_ok hport
        rw [isValidPin, Bool.not_eq_false, Bool.and_eq_true] at hsdaValid hsclValid
        exact Or.inr ⟨h, rfl, ⟨⟨port, sda, scl, []⟩, rfl, hsda, hscl, hsdaValid.1, hsclValid.1, hne,
          hlt, hfree, rfl, rfl, rfl⟩, rfl, rfl⟩
  · exact Or.inl rfl

theorem Created.inv {config : BusConfig} {h : Handle} (hc : Created b s s' config h)
    (hs : Inv b s) (hfresh : s.bus h = none) : Inv b s' := by
  obtain ⟨bus, hdevices, -, -, -, -, -, hlt, hfree, hbus, hbuses, -⟩ := hc.made
  have hother : ∀ {h' bus'}, s.bus h' = some bus' → s'.bus h' = some bus' := by
    intro h' bus' hlive
    have hne : h' ≠ h := by
      rintro rfl
      rw [hfresh] at hlive
      cases hlive
    rw [hbus, Function.update_of_ne hne, hlive]
  have hself : s'.bus h = some bus := by rw [hbus, Function.update_self]
  refine ⟨fun p h' hp => ?_, fun h' bus' hlive => ?_, fun d dev hd => ?_,
    fun h' bus' d hlive hd => ?_⟩
  · rw [hbuses, Function.update_apply] at hp
    split_ifs at hp with hport
    · obtain rfl := Option.some.inj hp
      exact ⟨hport ▸ hlt, bus, hself, hport.symm⟩
    · obtain ⟨hp', bus', hlive, hport'⟩ := hs.registered p h' hp
      exact ⟨hp', bus', hother hlive, hport'⟩
  · rw [hbus, Function.update_apply] at hlive
    split_ifs at hlive with heq
    · obtain rfl := Option.some.inj hlive
      rw [hbuses, Function.update_self, heq]
    · have hport := hs.alive h' bus' hlive
      have hne : bus'.port ≠ bus.port := by
        intro heq'
        rw [heq', hfree] at hport
        cases hport
      rw [hbuses, Function.update_of_ne hne, hport]
  · rw [hc.dev] at hd
    obtain ⟨bus', hlive, hmem⟩ := hs.owner d dev hd
    exact ⟨bus', hother hlive, hmem⟩
  · rw [hbus, Function.update_apply] at hlive
    split_ifs at hlive with heq
    · obtain rfl := Option.some.inj hlive
      rw [hdevices] at hd
      exact (List.not_mem_nil hd).elim
    · rw [hc.dev]
      exact hs.owned h' bus' d hlive hd

/-- The devices of one bus change, and its other fields stay. -/
theorem Inv.relist (hs : Inv b s) {h : Handle} {bus : Bus} (hlive : s.bus h = some bus)
    {devices : List Handle} (dev : Handle → Option Dev)
    (howner : ∀ d x, dev d = some x → if x.bus = h then d ∈ devices else s.dev d = some x)
    (howned : ∀ d ∈ devices, ∃ x, dev d = some x ∧ x.bus = h)
    (hother : ∀ d x, s.dev d = some x → x.bus ≠ h → dev d = some x) :
    Inv b { s with
      bus := Function.update s.bus h (some { bus with devices := devices })
      dev := dev } := by
  refine ⟨fun p h' hp => ?_, fun h' bus' hlive' => ?_, fun d x hd => ?_,
    fun h' bus' d hlive' hd => ?_⟩
  · obtain ⟨hlt, bus', hlive', hport⟩ := hs.registered p h' hp
    refine ⟨hlt, ?_⟩
    by_cases heq : h' = h
    · subst heq
      obtain rfl := Option.some.inj (hlive.symm.trans hlive')
      exact ⟨_, Function.update_self .., hport⟩
    · exact ⟨bus', (Function.update_of_ne heq ..).trans hlive', hport⟩
  · change Function.update s.bus h _ h' = some bus' at hlive'
    rw [Function.update_apply] at hlive'
    split_ifs at hlive' with heq
    · obtain rfl := Option.some.inj hlive'
      exact heq ▸ hs.alive h bus hlive
    · exact hs.alive h' bus' hlive'
  · have hcase := howner d x hd
    split_ifs at hcase with heq
    · exact ⟨_, by rw [heq]; exact Function.update_self .., hcase⟩
    · obtain ⟨bus', hlive', hmem⟩ := hs.owner d x hcase
      exact ⟨bus', (Function.update_of_ne heq ..).trans hlive', hmem⟩
  · change Function.update s.bus h _ h' = some bus' at hlive'
    rw [Function.update_apply] at hlive'
    split_ifs at hlive' with heq
    · obtain rfl := Option.some.inj hlive'
      obtain ⟨x, hx, hbus⟩ := howned d hd
      exact ⟨x, hx, hbus.trans heq.symm⟩
    · obtain ⟨x, hx, hbus⟩ := hs.owned h' bus' d hlive' hd
      exact ⟨x, hother d x hx (hbus.symm ▸ heq), hbus⟩

/-- What a call can do to the registry. -/
inductive Changed (b : Board) (s : State σ) : Act → State σ → Prop
  | kept {a : Act} {s' : State σ} (h : Kept s s') : Changed b s a s'
  | created {config : BusConfig} {h : Handle} {s' : State σ} (hc : Created b s s' config h) :
      Changed b s (.newMasterBus config (some h)) s'
  | added {h d : Handle} {config : DeviceConfig} {bus : Bus} (hlive : s.bus h = some bus) :
      Changed b s (.busAddDevice h config (some d))
        (setBus (setDev s d (some ⟨h, config.deviceAddress⟩)) h
          (some { bus with devices := d :: bus.devices }))
  | removed {d : Handle} {dev : Dev} {bus : Bus} (hdev : s.dev d = some dev)
      (hlive : s.bus dev.bus = some bus) :
      Changed b s (.busRmDevice d)
        (setDev (setBus s dev.bus (some { bus with devices := bus.devices.filter (· ≠ d) })) d none)
  | deleted {h : Handle} {bus : Bus} (hlive : s.bus h = some bus) (hnil : bus.devices = []) :
      Changed b s (.delMasterBus h)
        (setBus (setBuses { s with world := detach b s bus } bus.port none) h none)

/-- No call reads through a dead pointer. -/
theorem perform_changed (hs : Inv b s) (a : Act) :
    ∃ r, perform b validOutput F s a = some r ∧ Changed b s a r.2 := by
  have hself : ∀ {a : Act}, Changed b s a s := Changed.kept (Kept.refl s)
  have hvalid : ∀ {h}, ¬ isValidBus b s h = false → ∃ bus, s.bus h = some bus := by
    intro h hbus
    rw [isValidBus_eq hs] at hbus
    exact Option.isSome_iff_exists.mp (eq_true_of_ne_false hbus)
  have htransfer : ∀ {a : Act} (d : Handle) {transfer : ℕ → ℕ → Answer × State σ},
      (∀ port address, Kept s (transfer port address).2) →
      ∃ r, withDevice b s d transfer = some r ∧ Changed b s a r.2 := by
    intro a d transfer h
    obtain ⟨r, hr, hkept⟩ := withDevice_kept hs d h
    exact ⟨r, hr, .kept hkept⟩
  cases a with
  | newMasterBus config alloc =>
    refine ⟨_, rfl, ?_⟩
    rcases newMasterBus_cases config alloc with heq | ⟨h, rfl, hcreated⟩
    · rw [heq]
      exact hself
    · exact .created hcreated
  | getBusHandle port =>
    refine ⟨_, rfl, ?_⟩
    unfold getBusHandle
    split_ifs
    · exact hself
    · split <;> exact hself
  | busAddDevice h config alloc =>
    simp only [perform, busAddDevice]
    split_ifs with _ _ _ hbus
    · exact ⟨_, rfl, hself⟩
    · exact ⟨_, rfl, hself⟩
    · exact ⟨_, rfl, hself⟩
    · exact ⟨_, rfl, hself⟩
    · obtain ⟨bus, hlive⟩ := hvalid hbus
      cases alloc with
      | none => exact ⟨_, rfl, hself⟩
      | some d =>
        simp only [hlive, Option.map_some]
        exact ⟨_, rfl, .added hlive⟩
  | busRmDevice d =>
    simp only [perform, busRmDevice]
    rw [isValidDevice_eq hs, Option.bind_some]
    cases hd : s.dev d with
    | none => exact ⟨_, rfl, hself⟩
    | some dev =>
      obtain ⟨bus, hlive, -⟩ := hs.owner d dev hd
      simp only [Option.isSome_some, Option.bind_some, hlive, Option.map_some]
      exact ⟨_, rfl, .removed hd hlive⟩
  | delMasterBus h =>
    simp only [perform, delMasterBus]
    split_ifs with hbus
    · exact ⟨_, rfl, hself⟩
    · obtain ⟨bus, hlive⟩ := hvalid hbus
      simp only [hlive, Option.map_some]
      refine ⟨_, rfl, ?_⟩
      split_ifs with hnil
      · exact hself
      · exact .deleted hlive (not_not.mp hnil)
  | transmit d data timeout =>
    simp only [perform, transmit]
    split_ifs
    · exact ⟨_, rfl, hself⟩
    · exact htransfer d fun port address => controllerWrite_kept port address data _ true
  | receive d size timeout =>
    simp only [perform, receive]
    split_ifs
    · exact ⟨_, rfl, hself⟩
    · exact htransfer d fun port address => controllerRead_kept port address size _ true
  | transmitReceive d data size timeout =>
    simp only [perform, transmitReceive]
    split_ifs
    · exact ⟨_, rfl, hself⟩
    · refine htransfer d fun port address => ?_
      have hwrite := controllerWrite_kept (b := b) (F := F) (s := s) port address data
        (timeoutValue timeout) false
      split_ifs
      · exact hwrite
      · exact hwrite.trans (controllerRead_kept port address size _ true)
  | probe h address =>
    simp only [perform, probe]
    split_ifs with _ hbus
    · exact ⟨_, rfl, hself⟩
    · exact ⟨_, rfl, hself⟩
    · obtain ⟨bus, hlive⟩ := hvalid hbus
      simp only [hlive, Option.map_some]
      exact ⟨_, rfl, hself⟩

theorem step_changed (hs : Inv b s) {a : Act} (h : step b validOutput F s a = some s') :
    Changed b s a s' := by
  obtain ⟨r, hr, hchanged⟩ : ∃ r, perform b validOutput F s a = some r ∧ Changed b s a r.2 :=
    perform_changed hs a
  rw [step, hr] at h
  exact Option.some.inj h ▸ hchanged

theorem step_inv : PreservesWhen (step b validOutput F) FreshAlloc (Inv b) := by
  intro s a s' hfresh hstep hs
  cases step_changed hs hstep with
  | kept hkept => exact hkept.inv hs
  | created hc => exact hc.inv hs hfresh
  | @added h d config bus hlive =>
    refine hs.relist hlive (Function.update s.dev d (some ⟨h, config.deviceAddress⟩))
      (fun u x hx => ?_) (fun u hu => ?_) fun u x hx hne => ?_
    · rw [Function.update_apply] at hx
      split_ifs at hx with hu
      · obtain rfl := Option.some.inj hx
        rw [if_pos rfl, hu]
        exact List.mem_cons_self
      · split_ifs with hbus
        · obtain ⟨bus', hlive', hmem⟩ := hs.owner u x hx
          rw [hbus, hlive] at hlive'
          obtain rfl := Option.some.inj hlive'
          exact List.mem_cons_of_mem _ hmem
        · exact hx
    · rw [Function.update_apply]
      split_ifs with heq
      · exact ⟨_, rfl, rfl⟩
      · exact hs.owned h bus u hlive ((List.mem_cons.mp hu).resolve_left heq)
    · have hne' : u ≠ d := by
        rintro rfl
        change s.dev u = none at hfresh
        rw [hfresh] at hx
        cases hx
      rw [Function.update_of_ne hne', hx]
  | @removed d dev bus hdev hlive =>
    refine hs.relist hlive (Function.update s.dev d none) (fun u x hx => ?_)
      (fun u hu => ?_) fun u x hx hne => ?_
    · rw [Function.update_apply] at hx
      split_ifs at hx with hu
      split_ifs with hbus
      · obtain ⟨bus', hlive', hmem⟩ := hs.owner u x hx
        rw [hbus, hlive] at hlive'
        obtain rfl := Option.some.inj hlive'
        exact List.mem_filter.mpr ⟨hmem, by simpa using hu⟩
      · exact hx
    · obtain ⟨hmem, hne⟩ := List.mem_filter.mp hu
      rw [Function.update_of_ne (by simpa using hne)]
      exact hs.owned _ bus u hlive hmem
    · have hne' : u ≠ d := by
        rintro rfl
        obtain rfl := Option.some.inj (hdev.symm.trans hx)
        exact hne rfl
      rw [Function.update_of_ne hne', hx]
  | @deleted h bus hlive hnil =>
    have hport := hs.alive h bus hlive
    have hothers : ∀ {h' bus'}, Function.update s.bus h none h' = some bus' →
        h' ≠ h ∧ s.bus h' = some bus' := by
      intro h' bus' hlive'
      rw [Function.update_apply] at hlive'
      split_ifs at hlive' with heq
      exact ⟨heq, hlive'⟩
    refine ⟨fun p h' hp => ?_, fun h' bus' hlive' => ?_, fun d dev hd => ?_,
      fun h' bus' d hlive' hd => hs.owned h' bus' d (hothers hlive').2 hd⟩
    · change Function.update s.buses bus.port none p = some h' at hp
      rw [Function.update_apply] at hp
      split_ifs at hp with hne
      obtain ⟨hlt, bus', hlive', hport'⟩ := hs.registered p h' hp
      have hne' : h' ≠ h := by
        rintro rfl
        obtain rfl := Option.some.inj (hlive.symm.trans hlive')
        exact hne hport'.symm
      exact ⟨hlt, bus', (Function.update_of_ne hne' ..).trans hlive', hport'⟩
    · obtain ⟨hne, hlive'⟩ := hothers hlive'
      have hport' := hs.alive h' bus' hlive'
      have hne' : bus'.port ≠ bus.port := by
        intro heq
        rw [heq, hport] at hport'
        exact hne (Option.some.inj hport').symm
      exact (Function.update_of_ne hne' ..).trans hport'
    · obtain ⟨bus', hlive', hmem⟩ := hs.owner d dev hd
      have hne : dev.bus ≠ h := by
        intro heq
        rw [heq, hlive] at hlive'
        obtain rfl := Option.some.inj hlive'
        rw [hnil] at hmem
        exact List.not_mem_nil hmem
      exact ⟨bus', (Function.update_of_ne hne ..).trans hlive', hmem⟩

/-- A device stays until it is removed, and a bus until it is deleted. -/
theorem dev_kept (hs : Inv b s) {a : Act} (hfresh : FreshAlloc s a) {d : Handle} {dev : Dev}
    (hd : s.dev d = some dev) (ha : a ≠ .busRmDevice d)
    (hstep : step b validOutput F s a = some s') : s'.dev d = some dev := by
  cases step_changed hs hstep with
  | kept hkept => rw [hkept.dev, hd]
  | created hc => rw [hc.dev, hd]
  | @added h d' config bus hlive =>
    have hne : d ≠ d' := by
      rintro rfl
      change s.dev d = none at hfresh
      rw [hfresh] at hd
      cases hd
    exact (Function.update_of_ne hne ..).trans hd
  | @removed d' dev' bus hdev hlive =>
    have hne : d ≠ d' := by
      rintro rfl
      exact ha rfl
    exact (Function.update_of_ne hne ..).trans hd
  | deleted => exact hd

theorem run_dev {acts : List Act} (hs : Inv b s) {d : Handle} {dev : Dev}
    (hd : s.dev d = some dev) (hacts : ∀ a ∈ acts, a ≠ .busRmDevice d)
    (hfresh : Meets (step b validOutput F) FreshAlloc s acts)
    (hr : run (step b validOutput F) s acts = some s') : s'.dev d = some dev := by
  have hkeeps : PreservesWhen (step b validOutput F)
      (fun s a => FreshAlloc s a ∧ a ≠ .busRmDevice d)
      fun s => Inv b s ∧ s.dev d = some dev := fun s a s' hok hstep h =>
    ⟨step_inv hok.1 hstep h.1, dev_kept h.1 hok.1 h.2 hok.2 hstep⟩
  exact (hkeeps.run (hfresh.and (Meets.of_forall hacts)) hr ⟨hs, hd⟩).2

/-- The pin of the bus at a port. -/
def busPin (s : State σ) (pin : Bus → ℕ) (p : ℕ) : Option ℕ :=
  (s.buses p).bind fun h => (s.bus h).map pin

theorem busPin_of_live (hs : Inv b s) {h : Handle} {bus : Bus} (hlive : s.bus h = some bus)
    (pin : Bus → ℕ) : busPin s pin bus.port = some (pin bus) := by
  rw [busPin, hs.alive h bus hlive, Option.bind_some, hlive, Option.map_some]

theorem live_of_busPin {pin : Bus → ℕ} {p x : ℕ} (h : busPin s pin p = some x) :
    ∃ handle bus, s.buses p = some handle ∧ s.bus handle = some bus ∧ pin bus = x := by
  obtain ⟨handle, hhandle, hmap⟩ := Option.bind_eq_some_iff.mp h
  obtain ⟨bus, hbus, hpin⟩ := Option.map_eq_some_iff.mp hmap
  exact ⟨handle, bus, hhandle, hbus, hpin⟩

/-- The signals of each port are on the pins of its bus, and nowhere else. -/
structure Routed (b : Board) (s : State σ) : Prop where
  output : ∀ h bus, s.bus h = some bus →
    b.isOutputPin bus.sda = true ∧ b.isOutputPin bus.scl = true
  sda : ∀ p < b.i2cs, ∀ pin, s.world.outMatrix pin = b.sdaOut p ↔ busPin s Bus.sda p = some pin
  scl : ∀ p < b.i2cs, ∀ pin, s.world.outMatrix pin = b.sclOut p ↔ busPin s Bus.scl p = some pin

/-- No bus has the pins of a new one. -/
def PinsFree (s : State σ) : Act → Prop
  | .newMasterBus config _ => ∀ h bus, s.bus h = some bus →
    (config.sda ≠ some bus.sda ∧ config.sda ≠ some bus.scl) ∧
      config.scl ≠ some bus.sda ∧ config.scl ≠ some bus.scl
  | _ => True

theorem hasRole_sda {p : ℕ} (hp : p < b.i2cs) : b.hasRole (.sda p) = true := decide_eq_true hp

theorem hasRole_scl {p : ℕ} (hp : p < b.i2cs) : b.hasRole (.scl p) = true := decide_eq_true hp

theorem sdaOut_injective {p q : ℕ} (hp : p < b.i2cs) (hq : q < b.i2cs)
    (h : b.sdaOut p = b.sdaOut q) : p = q :=
  Role.sda.inj (b.out_injective _ _ _ (hasRole_sda hp) (hasRole_sda hq) rfl (congrArg some h.symm))

theorem sclOut_injective {p q : ℕ} (hp : p < b.i2cs) (hq : q < b.i2cs)
    (h : b.sclOut p = b.sclOut q) : p = q :=
  Role.scl.inj (b.out_injective _ _ _ (hasRole_scl hp) (hasRole_scl hq) rfl (congrArg some h.symm))

theorem sdaOut_ne_sclOut {p q : ℕ} (hp : p < b.i2cs) (hq : q < b.i2cs) :
    b.sdaOut p ≠ b.sclOut q := fun h =>
  Role.noConfusion
    (b.out_injective _ _ _ (hasRole_sda hp) (hasRole_scl hq) rfl (congrArg some h.symm))

theorem outMatrix_inAssign (w : World) (gpio signal : ℕ) :
    (inAssign b w gpio signal).outMatrix = w.outMatrix := by
  unfold inAssign
  split_ifs <;> rfl

theorem outMatrix_outAssign (w : World) {gpio : ℕ} (h : b.isOutputPin gpio = true) (signal : ℕ) :
    (outAssign b w gpio signal).outMatrix = Function.update w.outMatrix gpio signal := by
  rw [outAssign, if_neg (by simp [h])]

/-- A signal is put on the pin `x` of a port that had none, and another one on the pin `y`. -/
theorem routed_created {M : ℕ → ℕ} {own : ℕ → ℕ} {pins : ℕ → Option ℕ} {n p x y other : ℕ}
    (hM : ∀ q < n, ∀ pin, M pin = own q ↔ pins q = some pin) (hnone : pins p = none)
    (hx : ∀ q, pins q ≠ some x) (hy : ∀ q, pins q ≠ some y) (hxy : x ≠ y)
    (hinjective : ∀ q < n, own p = own q → p = q) (hother : ∀ q < n, own q ≠ other) {q : ℕ}
    (hq : q < n) (pin : ℕ) :
    Function.update (Function.update M x (own p)) y other pin = own q ↔
      Function.update pins p (some x) q = some pin := by
  rw [Function.update_apply, Function.update_apply, Function.update_apply]
  by_cases hpiny : pin = y
  · rw [if_pos hpiny]
    refine iff_of_false (hother q hq).symm ?_
    rw [hpiny]
    split_ifs with hqp
    · exact fun h => hxy (Option.some.inj h)
    · exact hy q
  rw [if_neg hpiny]
  by_cases hpinx : pin = x
  · rw [if_pos hpinx, hpinx]
    by_cases hqp : q = p
    · rw [if_pos hqp, hqp]
      exact iff_of_true rfl rfl
    · rw [if_neg hqp]
      exact iff_of_false (fun h => hqp (hinjective q hq h).symm) (hx q)
  · rw [if_neg hpinx, hM q hq]
    by_cases hqp : q = p
    · rw [if_pos hqp, hqp, hnone]
      exact iff_of_false (Option.some_ne_none pin).symm fun h => hpinx (Option.some.inj h).symm
    · rw [if_neg hqp]

/-- The pins of a port are detached. -/
theorem routed_deleted {M : ℕ → ℕ} {own : ℕ → ℕ} {pins : ℕ → Option ℕ} {n p x y z detached : ℕ}
    (hM : ∀ q < n, ∀ pin, M pin = own q ↔ pins q = some pin) (hp : pins p = some z)
    (hz : z = x ∨ z = y) (hothers : ∀ q < n, q ≠ p → pins q ≠ some x ∧ pins q ≠ some y)
    (hdetached : ∀ q < n, own q ≠ detached) {q : ℕ} (hq : q < n) (pin : ℕ) :
    Function.update (Function.update M x detached) y detached pin = own q ↔
      Function.update pins p none q = some pin := by
  rw [Function.update_apply, Function.update_apply, Function.update_apply]
  by_cases hpin : pin = x ∨ pin = y
  · have hvalue : (if pin = y then detached else if pin = x then detached else M pin) =
        detached := by
      rcases hpin with h | h <;> simp [h]
    rw [hvalue]
    refine iff_of_false (hdetached q hq).symm ?_
    by_cases hqp : q = p
    · rw [if_pos hqp]
      exact (Option.some_ne_none pin).symm
    · rw [if_neg hqp]
      obtain ⟨hx, hy⟩ := hothers q hq hqp
      rcases hpin with rfl | rfl
      · exact hx
      · exact hy
  · obtain ⟨hx, hy⟩ := not_or.mp hpin
    rw [if_neg hy, if_neg hx, hM q hq]
    by_cases hqp : q = p
    · rw [if_pos hqp, hqp, hp]
      refine iff_of_false (fun h => ?_) (Option.some_ne_none pin).symm
      obtain rfl := Option.some.inj h
      exact hpin hz
    · rw [if_neg hqp]

theorem busPin_created {h : Handle} {bus : Bus} (hs : Inv b s)
    (hfresh : s.bus h = none) (hbus : s'.bus = Function.update s.bus h (some bus))
    (hbuses : s'.buses = Function.update s.buses bus.port (some h)) (pin : Bus → ℕ) :
    busPin s' pin = Function.update (busPin s pin) bus.port (some (pin bus)) := by
  funext q
  rw [busPin, hbus, hbuses]
  by_cases hq : q = bus.port
  · rw [hq, Function.update_self, Function.update_self, Option.bind_some, Function.update_self,
      Option.map_some]
  · rw [Function.update_of_ne hq, Function.update_of_ne hq, busPin]
    cases hport : s.buses q with
    | none => rfl
    | some h' =>
      obtain ⟨-, bus', hlive, -⟩ := hs.registered q h' hport
      have hne : h' ≠ h := by
        rintro rfl
        rw [hfresh] at hlive
        cases hlive
      rw [Option.bind_some, Option.bind_some, Function.update_of_ne hne]

theorem busPin_relisted {h : Handle} {bus : Bus} (hlive : s.bus h = some bus)
    (devices : List Handle) {pin : Bus → ℕ}
    (hpin : pin { bus with devices := devices } = pin bus) :
    busPin (setBus s h (some { bus with devices := devices })) pin = busPin s pin := by
  funext q
  change ((s.buses q).bind fun h' => (Function.update s.bus h _ h').map pin) = _
  rw [busPin]
  cases s.buses q with
  | none => rfl
  | some h' =>
    rw [Option.bind_some, Option.bind_some]
    by_cases heq : h' = h
    · rw [heq, Function.update_self, hlive, Option.map_some, Option.map_some, hpin]
    · rw [Function.update_of_ne heq]

theorem busPin_deleted (hs : Inv b s) {h : Handle} {bus : Bus} (hlive : s.bus h = some bus)
    (w : World) (pin : Bus → ℕ) :
    busPin (setBus (setBuses { s with world := w } bus.port none) h none) pin =
      Function.update (busPin s pin) bus.port none := by
  funext q
  change ((Function.update s.buses bus.port none q).bind fun h' =>
    (Function.update s.bus h none h').map pin) = _
  by_cases hq : q = bus.port
  · rw [hq, Function.update_self, Function.update_self]
    rfl
  · rw [Function.update_of_ne hq, Function.update_of_ne hq, busPin]
    cases hport : s.buses q with
    | none => rfl
    | some h' =>
      obtain ⟨-, bus', hlive', hport'⟩ := hs.registered q h' hport
      have hne : h' ≠ h := by
        rintro rfl
        obtain rfl := Option.some.inj (hlive.symm.trans hlive')
        exact hq hport'.symm
      rw [Option.bind_some, Option.bind_some, Function.update_of_ne hne]

/-- Another world of objects with the same pins. -/
theorem Routed.congr (h : Routed b s) (hworld : s'.world = s.world)
    (hsda : busPin s' Bus.sda = busPin s Bus.sda) (hscl : busPin s' Bus.scl = busPin s Bus.scl)
    (houtput : ∀ h bus, s'.bus h = some bus →
      b.isOutputPin bus.sda = true ∧ b.isOutputPin bus.scl = true) : Routed b s' := by
  refine ⟨houtput, fun p hp pin => ?_, fun p hp pin => ?_⟩
  · rw [hworld, hsda]
    exact h.sda p hp pin
  · rw [hworld, hscl]
    exact h.scl p hp pin

theorem Routed.relisted (h : Routed b s) {handle : Handle} {bus : Bus}
    (hlive : s.bus handle = some bus) (devices : List Handle) :
    Routed b (setBus s handle (some { bus with devices := devices })) := by
  refine h.congr rfl (busPin_relisted hlive devices rfl) (busPin_relisted hlive devices rfl)
    fun h' bus' hlive' => ?_
  change Function.update s.bus handle _ h' = some bus' at hlive'
  rw [Function.update_apply] at hlive'
  split_ifs at hlive'
  · obtain rfl := Option.some.inj hlive'
    exact h.output handle bus hlive
  · exact h.output h' bus' hlive'

theorem Created.routed {config : BusConfig} {h : Handle} (hc : Created b s s' config h)
    (hs : Inv b s) (hroute : Routed b s) (hfresh : s.bus h = none)
    (hfree : PinsFree s (.newMasterBus config (some h))) : Routed b s' := by
  obtain ⟨bus, -, hsda, hscl, hsdaOut, hsclOut, hne, hlt, hnone, hbus, hbuses, hworld⟩ := hc.made
  have hport : ∀ pin : Bus → ℕ, busPin s pin bus.port = none := fun pin => by
    rw [busPin, hnone]
    rfl
  have hM : s'.world.outMatrix = Function.update (Function.update s.world.outMatrix bus.sda
      (b.sdaOut bus.port)) bus.scl (b.sclOut bus.port) := by
    rw [hworld, routePins]
    simp only [outMatrix_inAssign, outMatrix_outAssign, hsdaOut, hsclOut]
  have hapart : ∀ q, (busPin s Bus.sda q ≠ some bus.sda ∧ busPin s Bus.sda q ≠ some bus.scl) ∧
      busPin s Bus.scl q ≠ some bus.sda ∧ busPin s Bus.scl q ≠ some bus.scl := by
    have hpin : ∀ {pin : Bus → ℕ} {q x}, busPin s pin q = some x →
        ∃ h' bus', s.bus h' = some bus' ∧ pin bus' = x := fun hq => by
      obtain ⟨h', bus', -, hlive, hx⟩ := live_of_busPin hq
      exact ⟨h', bus', hlive, hx⟩
    refine fun q => ⟨⟨fun hq => ?_, fun hq => ?_⟩, fun hq => ?_, fun hq => ?_⟩ <;>
      obtain ⟨h', bus', hlive, hx⟩ := hpin hq <;>
      obtain ⟨⟨h₁, h₂⟩, h₃, h₄⟩ := hfree h' bus' hlive
    · exact h₁ (by rw [hsda, hx])
    · exact h₃ (by rw [hscl, hx])
    · exact h₂ (by rw [hsda, hx])
    · exact h₄ (by rw [hscl, hx])
  refine ⟨fun h' bus' hlive => ?_, fun q hq pin => ?_, fun q hq pin => ?_⟩
  · rw [hbus, Function.update_apply] at hlive
    split_ifs at hlive
    · obtain rfl := Option.some.inj hlive
      exact ⟨hsdaOut, hsclOut⟩
    · exact hroute.output h' bus' hlive
  · rw [hM, busPin_created hs hfresh hbus hbuses]
    exact routed_created hroute.sda (hport _) (fun q => (hapart q).1.1)
      (fun q => (hapart q).1.2) hne (fun q hq h => sdaOut_injective hlt hq h)
      (fun q hq => sdaOut_ne_sclOut hq hlt) hq pin
  · rw [hM, Function.update_comm hne, busPin_created hs hfresh hbus hbuses]
    exact routed_created hroute.scl (hport _) (fun q => (hapart q).2.2)
      (fun q => (hapart q).2.1) hne.symm (fun q hq h => sclOut_injective hlt hq h)
      (fun q hq => (sdaOut_ne_sclOut hlt hq).symm) hq pin

theorem routed_delete (hs : Inv b s) (hroute : Routed b s) {h : Handle} {bus : Bus}
    (hlive : s.bus h = some bus) :
    Routed b (setBus (setBuses { s with world := detach b s bus } bus.port none) h none) := by
  obtain ⟨hsdaOut, hsclOut⟩ := hroute.output h bus hlive
  have hlt : bus.port < b.i2cs := (hs.registered _ _ (hs.alive h bus hlive)).1
  have hM : (detach b s bus).outMatrix = Function.update (Function.update s.world.outMatrix bus.sda
      b.kMatrixDetachOutSig) bus.scl b.kMatrixDetachOutSig := by
    rw [detach]
    simp only [outMatrix_inAssign, outMatrix_outAssign, hsdaOut, hsclOut]
  have hsda : busPin s Bus.sda bus.port = some bus.sda := busPin_of_live hs hlive Bus.sda
  have hscl : busPin s Bus.scl bus.port = some bus.scl := busPin_of_live hs hlive Bus.scl
  have hcarried : s.world.outMatrix bus.sda = b.sdaOut bus.port ∧
      s.world.outMatrix bus.scl = b.sclOut bus.port :=
    ⟨(hroute.sda _ hlt _).mpr hsda, (hroute.scl _ hlt _).mpr hscl⟩
  refine ⟨fun h' bus' hlive' => ?_, fun q hq pin => ?_, fun q hq pin => ?_⟩
  · change Function.update s.bus h none h' = some bus' at hlive'
    rw [Function.update_apply] at hlive'
    split_ifs at hlive'
    exact hroute.output h' bus' hlive'
  · rw [busPin_deleted hs hlive]
    change (detach b s bus).outMatrix pin = _ ↔ _
    rw [hM]
    refine routed_deleted hroute.sda hsda (Or.inl rfl) (fun q hq hne => ⟨fun hpin => ?_,
      fun hpin => ?_⟩) (fun q hq => fun h => b.out_ne_detach _ (hasRole_sda hq)
        (congrArg some h)) hq pin
    · exact hne (sdaOut_injective hq hlt (((hroute.sda q hq _).mpr hpin).symm.trans hcarried.1))
    · exact sdaOut_ne_sclOut hq hlt (((hroute.sda q hq _).mpr hpin).symm.trans hcarried.2)
  · rw [busPin_deleted hs hlive]
    change (detach b s bus).outMatrix pin = _ ↔ _
    rw [hM]
    refine routed_deleted hroute.scl hscl (Or.inr rfl) (fun q hq hne => ⟨fun hpin => ?_,
      fun hpin => ?_⟩) (fun q hq => fun h => b.out_ne_detach _ (hasRole_scl hq)
        (congrArg some h)) hq pin
    · exact sdaOut_ne_sclOut hlt hq (hcarried.1.symm.trans ((hroute.scl q hq _).mpr hpin))
    · exact hne (sclOut_injective hq hlt (((hroute.scl q hq _).mpr hpin).symm.trans hcarried.2))

theorem step_routed : PreservesWhen (step b validOutput F)
    (fun s a => FreshAlloc s a ∧ PinsFree s a) fun s => Inv b s ∧ Routed b s := by
  rintro s a s' ⟨hfresh, hfree⟩ hstep ⟨hs, hroute⟩
  refine ⟨step_inv hfresh hstep hs, ?_⟩
  cases step_changed hs hstep with
  | kept hkept =>
    refine hroute.congr hkept.world ?_ ?_ ?_
    · funext q
      rw [busPin, busPin, hkept.buses, hkept.bus]
    · funext q
      rw [busPin, busPin, hkept.buses, hkept.bus]
    · rw [hkept.bus]
      exact hroute.output
  | created hc => exact hc.routed hs hroute hfresh hfree
  | @added h d config bus hlive =>
    have hdev : Routed b (setDev s d (some ⟨h, config.deviceAddress⟩)) :=
      hroute.congr rfl rfl rfl hroute.output
    exact hdev.relisted hlive _
  | @removed d dev bus hdev hlive =>
    have hbus := hroute.relisted hlive (bus.devices.filter (· ≠ d))
    exact hbus.congr rfl rfl rfl hbus.output
  | deleted hlive => exact routed_delete hs hroute hlive

/-- The device that has the address and hangs on the pins of the bus, if there is one and no
other. -/
def selected (F : ℕ → FakeDevice σ) (s : State σ) (bus : Bus) (address : ℕ) : Option ℕ :=
  match s.attached.filter fun a =>
    a.scl == bus.scl && a.sda == bus.sda && (F a.device).address == address with
  | [a] => some a.device
  | _ => none

theorem resolveOut_eq (hs : Inv b s) (hroute : Routed b s) {h : Handle} {bus : Bus}
    (hlive : s.bus h = some bus) (address : ℕ) :
    resolveOut b F s bus.port address = selected F s bus address := by
  have hlt : bus.port < b.i2cs := (hs.registered _ _ (hs.alive h bus hlive)).1
  have hscl : ∀ pin, (s.world.outMatrix pin == b.sclOut bus.port) = (pin == bus.scl) := by
    intro pin
    rw [Bool.eq_iff_iff, beq_iff_eq, beq_iff_eq, hroute.scl _ hlt,
      busPin_of_live hs hlive Bus.scl, Option.some.injEq, eq_comm]
  have hsda : ∀ pin, (s.world.outMatrix pin == b.sdaOut bus.port) = (pin == bus.sda) := by
    intro pin
    rw [Bool.eq_iff_iff, beq_iff_eq, beq_iff_eq, hroute.sda _ hlt,
      busPin_of_live hs hlive Bus.sda, Option.some.injEq, eq_comm]
  simp only [resolveOut, selected, hscl, hsda]

/-- No bus yet, and no pin with the signal of a port. -/
structure Started (b : Board) (s : State σ) : Prop where
  bus : ∀ h, s.bus h = none
  dev : ∀ d, s.dev d = none
  buses : ∀ p, s.buses p = none
  outMatrix : ∀ p < b.i2cs, ∀ pin,
    s.world.outMatrix pin ≠ b.sdaOut p ∧ s.world.outMatrix pin ≠ b.sclOut p

theorem Started.inv (h : Started b s) : Inv b s ∧ Routed b s := by
  have hpin : ∀ (pin : Bus → ℕ) p, busPin s pin p = none := fun pin p => by
    rw [busPin, h.buses]
    rfl
  refine ⟨⟨fun p handle hp => ?_, fun handle bus hlive => ?_, fun d dev hd => ?_,
    fun handle bus d hlive => ?_⟩, fun handle bus hlive => ?_, fun p hp pin => ?_,
    fun p hp pin => ?_⟩
  · rw [h.buses] at hp
    cases hp
  · rw [h.bus] at hlive
    cases hlive
  · rw [h.dev] at hd
    cases hd
  · rw [h.bus] at hlive
    cases hlive
  · rw [h.bus] at hlive
    cases hlive
  · rw [hpin]
    exact iff_of_false (h.outMatrix p hp pin).1 (Option.some_ne_none pin).symm
  · rw [hpin]
    exact iff_of_false (h.outMatrix p hp pin).2 (Option.some_ne_none pin).symm

theorem probe_eq (hs : Inv b s) (hroute : Routed b s) {h : Handle} {bus : Bus}
    (hlive : s.bus h = some bus) {address : ℕ} (haddress : address ≤ 0x7f) :
    probe b F s h address =
      some (⟨if (selected F s bus address).isSome then .ok else .notFound, none, []⟩, s) := by
  have hvalid : isValidBus b s h = true := by
    rw [isValidBus_eq hs, hlive]
    rfl
  rw [probe, if_neg (by omega), if_neg (by rw [hvalid]; decide), hlive, Option.map_some,
    resolveOut_eq hs hroute hlive]

/-- In every run: no call reads through a dead pointer, and the checks accept the handles that are
alive and no others. A device stays, with its bus, until it is removed. Where no new bus takes a pin
of another, each transfer and probe of a bus goes to the device with the address on the pins of the
bus, if that is the only one there. -/
theorem transfers_routed {acts : List Act} {s₀ : State σ} (h₀ : Started b s₀)
    (hfresh : Meets (step b validOutput F) FreshAlloc s₀ acts)
    (hr : run (step b validOutput F) s₀ acts = some s) :
    (∀ a, ∃ r, perform b validOutput F s a = some r) ∧
    (∀ h, isValidBus b s h = (s.bus h).isSome) ∧
    (∀ d, s.dev d = none → ∀ transfer,
      withDevice b s d transfer = some (⟨.invalidArg, none, []⟩, s)) ∧
    (∀ d dev, s.dev d = some dev → ∀ more z, (∀ a ∈ more, a ≠ .busRmDevice d) →
      Meets (step b validOutput F) FreshAlloc s more →
      run (step b validOutput F) s more = some z → z.dev d = some dev) ∧
    (∀ d dev, s.dev d = some dev → ∃ bus, s.bus dev.bus = some bus ∧
      s.buses bus.port = some dev.bus ∧
      ∀ transfer, withDevice b s d transfer = some (transfer bus.port dev.address)) ∧
    (Meets (step b validOutput F) PinsFree s₀ acts → ∀ h bus, s.bus h = some bus → ∀ address,
      resolveOut b F s bus.port address = selected F s bus address ∧
      (address ≤ 0x7f → probe b F s h address =
        some (⟨if (selected F s bus address).isSome then .ok else .notFound, none, []⟩, s))) := by
  obtain ⟨hinv₀, hroute₀⟩ := h₀.inv
  have hs : Inv b s := step_inv.run hfresh hr hinv₀
  refine ⟨fun a => ?_, isValidBus_eq hs, fun d hd transfer => withDevice_of_none hs hd transfer,
    fun d dev hd more z hmore hmeets hrun => run_dev hs hd hmore hmeets hrun, fun d dev hd => ?_,
    fun hfree h bus hlive address => ?_⟩
  · obtain ⟨r, hperform, -⟩ := perform_changed hs a
    exact ⟨r, hperform⟩
  · obtain ⟨bus, hlive, -⟩ := hs.owner d dev hd
    refine ⟨bus, hlive, hs.alive _ _ hlive, fun transfer => ?_⟩
    obtain ⟨bus', hlive', hwith⟩ := withDevice_of_some hs hd transfer
    obtain rfl := Option.some.inj (hlive.symm.trans hlive')
    exact hwith
  · have hroute := (step_routed.run (hfresh.and hfree) hr ⟨hinv₀, hroute₀⟩).2
    exact ⟨resolveOut_eq hs hroute hlive address, probe_eq hs hroute hlive⟩

/-- A device that keeps what is written to it. -/
def memory (_ : ℕ) : FakeDevice Bytes where
  address := 0x68
  write := fun _ data _ _ => (.ok, data)
  read := fun kept size _ _ => (.ok, kept.take size, kept)

/-- Two devices of one address, on two pairs of pins. -/
def wired : State Bytes where
  world := boot esp32
  attached := [⟨0, 21, 22⟩, ⟨1, 25, 26⟩]
  fake := fun _ => []
  bus := fun _ => none
  dev := fun _ => none
  buses := fun _ => none

theorem wired_started : Started esp32 wired := by
  refine ⟨fun _ => rfl, fun _ => rfl, fun _ => rfl, fun p hp pin => ?_⟩
  have hcarried : wired.world.outMatrix pin = 256 ∨ wired.world.outMatrix pin = 14 := by
    rw [wired, boot, outMatrix_outAssign _ (by decide), Function.update_apply]
    split_ifs
    · exact Or.inr rfl
    · exact Or.inl rfl
  have hport : p = 0 ∨ p = 1 := by
    change p < 2 at hp
    omega
  rcases hport with rfl | rfl <;> rcases hcarried with h | h <;> rw [h] <;> decide

/-- The second bus outlives the first. -/
def twoBuses : List Act :=
  [.newMasterBus ⟨-1, some 21, some 22, 0, false⟩ (some 1),
    .newMasterBus ⟨-1, some 25, some 26, 0, false⟩ (some 2),
    .busAddDevice 1 ⟨true, false, 0x68, 100000⟩ (some 3),
    .busAddDevice 2 ⟨true, false, 0x68, 100000⟩ (some 4), .transmit 3 [7] 10, .busRmDevice 3,
    .delMasterBus 1, .transmit 4 [9] (-1)]

/-- The handles of the buses are 1 and 2, and the new one is free and has pins of its own. -/
def keepsApart (s : State Bytes) : Act → Bool
  | .newMasterBus config (some h) => (h == 1 || h == 2) && (s.bus h).isNone &&
    [1, 2].all fun h' => (s.bus h').all fun bus =>
      (config.sda != some bus.sda && config.sda != some bus.scl) &&
        (config.scl != some bus.sda && config.scl != some bus.scl)
  | .busAddDevice _ _ (some d) => (s.dev d).isNone
  | .newMasterBus _ none => false
  | _ => true

theorem twoBuses_apart : Meets (step esp32 (fun _ => true) memory)
    (fun s a => FreshAlloc s a ∧ PinsFree s a) wired twoBuses := by
  have hcheck : check (step esp32 (fun _ => true) memory) keepsApart wired twoBuses = true := by
    decide +kernel
  refine Meets.of_check
    (I := fun s => Inv esp32 s ∧ ∀ h bus, s.bus h = some bus → h = 1 ∨ h = 2) ?_ ?_
    ⟨wired_started.inv.1, fun h bus hlive => by cases hlive⟩ hcheck
  · rintro s a s' ⟨hs, hhandles⟩ htest hstep
    have hfresh : FreshAlloc s a := by
      cases a with
      | newMasterBus config alloc =>
        cases alloc with
        | none => trivial
        | some h =>
          simp only [keepsApart, Bool.and_eq_true] at htest
          exact Option.isNone_iff_eq_none.mp htest.1.2
      | busAddDevice h config alloc =>
        cases alloc with
        | none => trivial
        | some d => exact Option.isNone_iff_eq_none.mp htest
      | _ => trivial
    refine ⟨step_inv hfresh hstep hs, fun h bus hlive => ?_⟩
    cases step_changed hs hstep with
    | kept hkept => exact hhandles h bus (hkept.bus ▸ hlive)
    | @created config h' _ hc =>
      obtain ⟨bus', -, -, -, -, -, -, -, -, hbus, -⟩ := hc.made
      rw [hbus, Function.update_apply] at hlive
      split_ifs at hlive with heq
      · simp only [keepsApart, Bool.and_eq_true, Bool.or_eq_true, beq_iff_eq] at htest
        exact heq ▸ htest.1.1
      · exact hhandles h bus hlive
    | @added h' d config bus' hlive' =>
      change Function.update s.bus h' _ h = some bus at hlive
      rw [Function.update_apply] at hlive
      split_ifs at hlive with heq
      · exact heq ▸ hhandles h' bus' hlive'
      · exact hhandles h bus hlive
    | @removed d dev bus' _ hlive' =>
      change Function.update s.bus dev.bus _ h = some bus at hlive
      rw [Function.update_apply] at hlive
      split_ifs at hlive with heq
      · exact heq ▸ hhandles dev.bus bus' hlive'
      · exact hhandles h bus hlive
    | @deleted h' bus' hlive' _ =>
      change Function.update s.bus h' none h = some bus at hlive
      rw [Function.update_apply] at hlive
      split_ifs at hlive
      exact hhandles h bus hlive
  · rintro s a ⟨hs, hhandles⟩ htest
    cases a with
    | newMasterBus config alloc =>
      cases alloc with
      | none => cases htest
      | some h =>
        simp only [keepsApart, Bool.and_eq_true, List.all_eq_true] at htest
        refine ⟨Option.isNone_iff_eq_none.mp htest.1.2, fun h' bus hlive => ?_⟩
        have hmem : h' ∈ [1, 2] := by simpa using hhandles h' bus hlive
        have hbus := htest.2 h' hmem
        rw [hlive] at hbus
        simpa using hbus
    | busAddDevice h config alloc =>
      cases alloc with
      | none => exact ⟨trivial, trivial⟩
      | some d => exact ⟨Option.isNone_iff_eq_none.mp htest, trivial⟩
    | _ => exact ⟨trivial, trivial⟩

/-- Each transfer has gone to the device on the pins of its bus, and a probe finds no device at an
address that none has. -/
theorem transfers_routed_twoBuses :
    ∃ s, run (step esp32 (fun _ => true) memory) wired twoBuses = some s ∧
      (s.fake 0 = [7] ∧ s.fake 1 = [9]) ∧ isValidBus esp32 s 1 = false ∧
      probe esp32 memory s 2 0x68 = some (⟨.ok, none, []⟩, s) ∧
      probe esp32 memory s 2 0x69 = some (⟨.notFound, none, []⟩, s) := by
  have hrun : run (step esp32 (fun _ => true) memory) wired twoBuses = some ((run (step esp32
      (fun _ => true) memory) wired twoBuses).get (by decide +kernel)) := (Option.some_get _).symm
  have hfresh := Meets.imp (fun _ _ h => h.1) twoBuses_apart
  have hfree := Meets.imp (fun _ _ h => h.2) twoBuses_apart
  obtain ⟨-, hvalid, -, -, -, hroutes⟩ := transfers_routed wired_started hfresh hrun
  generalize hs : (run (step esp32 (fun _ => true) memory) wired twoBuses).get
    (by decide +kernel) = s at hrun hvalid hroutes
  obtain ⟨bus, hlive⟩ : ∃ bus, s.bus 2 = some bus := by
    rw [← hs]
    exact ⟨_, rfl⟩
  have hprobe := fun address => (hroutes hfree 2 bus hlive address).2
  have hthere : (s.bus 2).all (fun bus => (selected memory s bus 0x68).isSome &&
      (selected memory s bus 0x69).isNone) = true := by
    rw [← hs]
    decide +kernel
  rw [hlive, Option.all_some, Bool.and_eq_true, Option.isNone_iff_eq_none] at hthere
  refine ⟨s, hrun, ?_, ?_, ?_, ?_⟩
  · rw [← hs]
    decide +kernel
  · rw [hvalid, ← hs]
    decide +kernel
  · rw [hprobe 0x68 (by decide), hthere.1]
    rfl
  · rw [hprobe 0x69 (by decide), hthere.2]
    rfl

end RooTesting.IdfI2c
