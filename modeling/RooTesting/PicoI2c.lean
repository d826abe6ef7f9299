import RooTesting.PicoBoard
import Mathlib.Tactic.Cases

/-! # I2C transfers of the RP2040

A transfer without STOP holds the bus for the next one. The SDK's transfers and the address probes
of Wire put an address on the bus; what the last of them on a controller came to is kept beside the
board, whose `restart_on_next` should say the same. -/
namespace RooTesting.PicoI2c
open Checks PicoBoard Transition

inductive Status
  | generic
  | timeout
  | invalidArg
  | insufficientResources
  | invalidState
  | resourceInUse
  deriving DecidableEq

def Status.code : Status → ℤ
  | generic => -1
  | timeout => -2
  | invalidArg => -5
  | insufficientResources => -9
  | invalidState => -12
  | resourceInUse => -21

/-- `FakeI2cDevice::Result`. -/
inductive DeviceResult
  | ok
  | dev
  | ack
  | timeout
  | bus
  | busy
  | memory
  | continued
  | noBegin
  deriving DecidableEq

/-- `Result`. -/
def sdkResult (result : DeviceResult) (len : ℕ) : ℤ :=
  match result with
  | .ok => len
  | .timeout => Status.timeout.code
  | .busy => Status.resourceInUse.code
  | .memory => Status.insufficientResources.code
  | _ => Status.generic.code

/-- The pins of the controller that are found so far, SDA and SCL. -/
def claimPin (b : Board) (index : ℕ) (selected : Option ℕ × Option ℕ) (pin : ℕ) :
    Except Status (Option ℕ × Option ℕ) :=
  if (b.pins pin).function ≠ .i2c ∨ i2cIndex pin ≠ index then pure selected
  else if (if pin % 2 = 0 then selected.1 else selected.2).isSome then throw .invalidState
  else if (b.pins pin).inputEnabled = false ∨ (b.pins pin).inputOverride ≠ .normal then
    throw .invalidState
  else pure (if pin % 2 = 0 then (some pin, selected.2) else (selected.1, some pin))

/-- The devices that acknowledge an address on the pins. -/
def acknowledging (fixture : Fixture) (b : Board) (sda scl address : ℕ) : List ℕ :=
  (b.i2cConnections.filter fun connection => connection.sda = (sda : ℤ) ∧
    connection.scl = (scl : ℤ) ∧ fixture.address connection.device = address).map
      I2cConnection.device

def prepareI2c (fixture : Fixture) (b : Board) (index address : ℕ) : Except Status ℕ := do
  check ((b.i2cs index).enabled = true) Status.invalidState
  check (if fixture.freertos = true then (b.i2cs index).busy = false
    else ((b.i2cs 0).busy = false ∧ (b.i2cs 1).busy = false) ∧
      (b.spis 0).busy = false ∧ (b.spis 1).busy = false) Status.resourceInUse
  let selected ← (List.range gpioCount).foldlM (claimPin b index) (none, none)
  match selected with
  | (some sda, some scl) =>
    match acknowledging fixture b sda scl address with
    | [] => throw .generic
    | [device] => pure device
    | _ => throw .resourceInUse
  | _ => throw .invalidState

/-- The arguments of a transfer; a null pointer is no buffer. -/
structure Request where
  receive : Bool
  index : ℕ
  address : ℕ
  len : ℕ
  buffer : Bool
  nostop : Bool
  timeoutUs : ℕ
  deriving DecidableEq

def Request.Valid (r : Request) : Prop :=
  8 ≤ r.address ∧ r.address ≤ 0x77 ∧ r.len ≠ 0 ∧ r.len ≤ 65535 ∧ r.buffer = true

instance Request.decidableValid (r : Request) : Decidable r.Valid :=
  inferInstanceAs (Decidable (_ ∧ _))

/-- `Transfer`: the result of the device and the bytes it would send are given; the bytes of the
caller's buffer come back. -/
def transfer (fixture : Fixture) (b : Board) (r : Request) (outcome : DeviceResult)
    (staged dst : List UInt8) : Except String (Board × ℤ × List UInt8) := do
  let state ← b.i2cState r.index
  if ¬ r.Valid then return (b, Status.invalidArg.code, dst)
  else if state.enabled = false then return (b, Status.invalidState.code, dst)
  else if r.timeoutUs = 0 then return (b, Status.timeout.code, dst)
  else
    match prepareI2c fixture b r.index r.address with
    | .error status => return (b, status.code, dst)
    | .ok _ =>
      let begun ← b.beginI2c fixture r.index
      let ended ← begun.endI2c r.index (outcome = .ok && r.nostop)
      return (ended, sdkResult outcome r.len,
        if r.receive = true ∧ outcome = .ok then staged else dst)

/-- The empty transmission of Wire, which always ends with STOP. -/
def probe (fixture : Fixture) (b : Board) (index address : ℕ) : Except String (Board × ℕ) :=
  match prepareI2c fixture b index address with
  | .error status =>
    if status = .generic then do
      let begun ← b.beginI2c fixture index
      let ended ← begun.endI2c index false
      return (ended, 2)
    else return (b, 2)
  | .ok _ => do
    let begun ← b.beginI2c fixture index
    let ended ← begun.endI2c index false
    return (ended, 0)

/-- `busIdle`. -/
def busIdle (b : Board) (index : ℕ) : Bool :=
  !(b.i2cs index).busy && !(b.i2cs index).restartOnNext

/-- A call on a controller, or any change of the rest of the board. -/
inductive Call
  | transfer (r : Request) (outcome : DeviceResult) (staged dst : List UInt8)
  | probe (index address : ℕ)
  | initI2c (index baudrate : ℕ)
  | deinitI2c (index : ℕ)
  | setI2cBaudrate (index baudrate : ℕ)
  | rewire (rest : Board)

/-- The board after a call that passes its checks. -/
def Call.board (fixture : Fixture) (b : Board) : Call → Except String Board
  | .transfer r outcome staged dst => (PicoI2c.transfer fixture b r outcome staged dst).map (·.1)
  | .probe index address => (PicoI2c.probe fixture b index address).map (·.1)
  | .initI2c index baudrate => (b.initI2c fixture index baudrate).map (·.1)
  | .deinitI2c index => b.deinitI2c fixture index
  | .setI2cBaudrate index baudrate => (b.setI2cBaudrate fixture index baudrate).map (·.1)
  | .rewire rest => .ok { rest with i2cs := b.i2cs }

/-- A call that puts an address on the bus of a controller: with success, or with no device there
that would acknowledge it. -/
inductive OnBus | acknowledged | unacknowledged | kept
  deriving DecidableEq

def onBus (fixture : Fixture) (b : Board) (index address : ℕ) : OnBus :=
  match prepareI2c fixture b index address with
  | .ok _ => .acknowledged
  | .error .generic => .unacknowledged
  | .error _ => .kept

/-- The SDK turns a request away before it looks for a device. -/
def Request.Rejected (b : Board) (r : Request) : Prop :=
  ¬ r.Valid ∨ (b.i2cs r.index).enabled = false ∨ r.timeoutUs = 0

instance Request.decidableRejected (b : Board) (r : Request) : Decidable (r.Rejected b) :=
  inferInstanceAs (Decidable (_ ∨ _ ∨ _))

/-- Whether the last transfer or probe on the bus of each controller, since its initialisation,
succeeded with no STOP. -/
def heldAfter (fixture : Fixture) (b : Board) (held : ℕ → Bool) : Call → ℕ → Bool
  | .transfer r outcome _ _ =>
    if r.Rejected b then held
    else
      match onBus fixture b r.index r.address with
      | .acknowledged => Function.update held r.index (outcome = .ok && r.nostop)
      | .unacknowledged => Function.update held r.index false
      | .kept => held
  | .probe index address =>
    if onBus fixture b index address = .kept then held else Function.update held index false
  | .initI2c index _ => Function.update held index false
  | .deinitI2c index => Function.update held index false
  | .setI2cBaudrate index _ => Function.update held index false
  | .rewire _ => held

structure State where
  board : Board
  held : ℕ → Bool

def step (fixture : Fixture) (s : State) (call : Call) : Option State :=
  match call.board fixture s.board with
  | .ok b => some ⟨b, heldAfter fixture s.board s.held call⟩
  | .error _ => none

def start : State := ⟨PicoBoard.initial, fun _ => false⟩

/-- No controller is busy. -/
def Idle (s : State) : Prop := ∀ index, (s.board.i2cs index).busy = false

/-- The board holds the bus of each controller as its last transfer left it. -/
def Agrees (s : State) : Prop := ∀ index, (s.board.i2cs index).restartOnNext = s.held index

/-- No transfer of the SDK meets silence on a bus that is held. -/
def Heard (fixture : Fixture) (s : State) : Call → Prop
  | .transfer r _ _ _ => ¬ r.Rejected s.board →
      onBus fixture s.board r.index r.address = .unacknowledged →
        (s.board.i2cs r.index).restartOnNext = false
  | _ => True

instance decidableHeard (fixture : Fixture) (s : State) :
    (call : Call) → Decidable (Heard fixture s call)
  | .transfer _ _ _ _ => inferInstanceAs (Decidable (_ → _ → _))
  | .probe _ _ => .isTrue trivial
  | .initI2c _ _ => .isTrue trivial
  | .deinitI2c _ => .isTrue trivial
  | .setI2cBaudrate _ _ => .isTrue trivial
  | .rewire _ => .isTrue trivial

section Calls
variable {fixture : Fixture} {b b' : Board} {index : ℕ}

theorem i2cState_ok {state : I2cState} (h : b.i2cState index = .ok state) :
    state = b.i2cs index := by
  rw [Board.i2cState] at h
  obtain ⟨-, h⟩ := check_bind_ok.1 h
  exact (pure_ok.1 h).symm

theorem idleI2c_ok {state : I2cState} (h : b.idleI2c fixture index = .ok state) :
    state = b.i2cs index := by
  rw [Board.idleI2c, bind_ok] at h
  obtain ⟨-, -, h⟩ := h
  rw [bind_ok] at h
  obtain ⟨read, hread, h⟩ := h
  obtain ⟨-, h⟩ := check_bind_ok.1 h
  rw [← pure_ok.1 h, i2cState_ok hread]

/-- The start and the end of a transfer leave nothing but the hold of its bus. -/
theorem exchange_ok {begun : Board} {restart : Bool} (hbegin : b.beginI2c fixture index = .ok begun)
    (hend : begun.endI2c index restart = .ok b') :
    b'.i2cs = Function.update b.i2cs index
      { b.i2cs index with
        busy := false
        restartOnNext := restart } := by
  rw [Board.beginI2c, bind_ok] at hbegin
  obtain ⟨state, hidle, hbegin⟩ := hbegin
  obtain ⟨-, hbegin⟩ := check_bind_ok.1 hbegin
  obtain rfl := pure_ok.1 hbegin
  rw [Board.endI2c, bind_ok] at hend
  obtain ⟨state', hstate', hend⟩ := hend
  obtain ⟨-, hend⟩ := check_bind_ok.1 hend
  obtain rfl := pure_ok.1 hend
  obtain rfl := i2cState_ok hstate'
  simp [Board.setI2c, idleI2c_ok hidle]

theorem transfer_cases {r : Request} {outcome : DeviceResult} {staged dst dst' : List UInt8}
    {result : ℤ} (h : transfer fixture b r outcome staged dst = .ok (b', result, dst')) :
    (b' = b ∧ dst' = dst ∧ result < 0 ∧
      (r.Rejected b ∨ onBus fixture b r.index r.address ≠ .acknowledged)) ∨
    (¬ r.Rejected b ∧ onBus fixture b r.index r.address = .acknowledged ∧
      b'.i2cs = Function.update b.i2cs r.index
        { b.i2cs r.index with
          busy := false
          restartOnNext := outcome = .ok && r.nostop } ∧
      result = sdkResult outcome r.len ∧
      dst' = if r.receive = true ∧ outcome = .ok then staged else dst) := by
  rw [transfer, bind_ok] at h
  obtain ⟨state, hstate, h⟩ := h
  obtain rfl := i2cState_ok hstate
  have hreject : ∀ {status : Status}, r.Rejected b ∨
      onBus fixture b r.index r.address ≠ .acknowledged →
      (pure (b, status.code, dst) : Except String (Board × ℤ × List UInt8)) =
        .ok (b', result, dst') →
      b' = b ∧ dst' = dst ∧ result < 0 ∧
        (r.Rejected b ∨ onBus fixture b r.index r.address ≠ .acknowledged) := by
    intro status hwhy hpure
    obtain ⟨rfl, rfl, rfl⟩ : b = b' ∧ status.code = result ∧ dst = dst' := by
      simpa using pure_ok.1 hpure
    refine ⟨rfl, rfl, ?_, hwhy⟩
    cases status <;> decide
  split at h
  · rename_i hinvalid
    exact .inl (hreject (.inl (.inl hinvalid)) h)
  split at h
  · rename_i hdisabled
    exact .inl (hreject (.inl (.inr (.inl hdisabled))) h)
  split at h
  · rename_i hzero
    exact .inl (hreject (.inl (.inr (.inr hzero))) h)
  rename_i hvalid henabled htimeout
  split at h
  · rename_i status hprepare
    refine .inl (hreject (.inr ?_) h)
    rw [onBus, hprepare]
    cases status <;> simp
  · rename_i device hprepare
    right
    rw [bind_ok] at h
    obtain ⟨begun, hbegin, h⟩ := h
    rw [bind_ok] at h
    obtain ⟨ended, hend, h⟩ := h
    obtain ⟨rfl, rfl, rfl⟩ : ended = b' ∧ sdkResult outcome r.len = result ∧
        (if r.receive = true ∧ outcome = .ok then staged else dst) = dst' := by
      simpa using pure_ok.1 h
    refine ⟨?_, ?_, exchange_ok hbegin hend, rfl, rfl⟩
    · rintro (hinvalid | hdisabled | hzero)
      · exact hvalid hinvalid
      · exact henabled hdisabled
      · exact htimeout hzero
    · rw [onBus, hprepare]

theorem probe_cases {address answer : ℕ} (h : probe fixture b index address = .ok (b', answer)) :
    (b' = b ∧ onBus fixture b index address = .kept) ∨
    (onBus fixture b index address ≠ .kept ∧
      b'.i2cs = Function.update b.i2cs index
        { b.i2cs index with
          busy := false
          restartOnNext := false }) := by
  have hexchange : ∀ {n : ℕ}, (do
        let begun ← b.beginI2c fixture index
        let ended ← begun.endI2c index false
        return (ended, n) : Except String (Board × ℕ)) = .ok (b', answer) →
      b'.i2cs = Function.update b.i2cs index
        { b.i2cs index with
          busy := false
          restartOnNext := false } := by
    intro n hdo
    rw [bind_ok] at hdo
    obtain ⟨begun, hbegin, hdo⟩ := hdo
    rw [bind_ok] at hdo
    obtain ⟨ended, hend, hdo⟩ := hdo
    obtain ⟨rfl, -⟩ : ended = b' ∧ n = answer := by simpa using pure_ok.1 hdo
    exact exchange_ok hbegin hend
  rw [probe] at h
  split at h
  · rename_i status hprepare
    split at h
    · rename_i hgeneric
      subst hgeneric
      exact .inr ⟨by simp [onBus, hprepare], hexchange h⟩
    · rename_i hother
      obtain ⟨rfl, -⟩ : b = b' ∧ 2 = answer := by simpa using pure_ok.1 h
      refine .inl ⟨rfl, ?_⟩
      rw [onBus, hprepare]
      cases status <;> first | rfl | exact absurd rfl hother
  · rename_i device hprepare
    exact .inr ⟨by simp [onBus, hprepare], hexchange h⟩

theorem initI2c_ok {baudrate actual : ℕ} (h : b.initI2c fixture index baudrate = .ok (b', actual)) :
    b'.i2cs = Function.update b.i2cs index ⟨true, false, false, actual⟩ := by
  rw [Board.initI2c, bind_ok] at h
  obtain ⟨state, -, h⟩ := h
  obtain ⟨-, h⟩ := check_bind_ok.1 h
  obtain ⟨-, h⟩ := check_bind_ok.1 h
  obtain ⟨rfl, rfl⟩ := Prod.mk.inj (pure_ok.1 h)
  rfl

theorem deinitI2c_ok (h : b.deinitI2c fixture index = .ok b') :
    b'.i2cs = Function.update b.i2cs index {} := by
  rw [Board.deinitI2c, bind_ok] at h
  obtain ⟨state, -, h⟩ := h
  obtain rfl := pure_ok.1 h
  rfl

theorem setI2cBaudrate_ok {baudrate actual : ℕ}
    (h : b.setI2cBaudrate fixture index baudrate = .ok (b', actual)) :
    b'.i2cs = Function.update b.i2cs index ⟨true, false, false, actual⟩ := by
  rw [Board.setI2cBaudrate, bind_ok] at h
  obtain ⟨state, -, h⟩ := h
  obtain ⟨-, h⟩ := check_bind_ok.1 h
  obtain ⟨-, h⟩ := check_bind_ok.1 h
  exact initI2c_ok h

end Calls

section Runs
variable {fixture : Fixture} {s s' : State} {call : Call}

theorem map_fst_ok {α β : Type} {x : Except String (α × β)} {a : α}
    (h : x.map (·.1) = .ok a) : ∃ b, x = .ok (a, b) := by
  cases x with
  | error message => cases h
  | ok pair =>
    cases h
    exact ⟨pair.2, rfl⟩

/-- A step leaves the controllers and the holds alone, or meets silence, or sets one controller and
its hold together. -/
theorem step_cases (h : step fixture s call = some s') :
    (s'.board.i2cs = s.board.i2cs ∧ s'.held = s.held ∧ Heard fixture s call) ∨
    (∃ index, s'.board.i2cs = s.board.i2cs ∧ s'.held = Function.update s.held index false ∧
      (Heard fixture s call ↔ (s.board.i2cs index).restartOnNext = false)) ∨
    (∃ index state, s'.board.i2cs = Function.update s.board.i2cs index state ∧
      state.busy = false ∧ s'.held = Function.update s.held index state.restartOnNext ∧
      Heard fixture s call) := by
  rw [step] at h
  split at h
  · rename_i b hboard
    cases h
    cases call with
    | transfer r outcome staged dst =>
      obtain ⟨⟨result, dst'⟩, htransfer⟩ := map_fst_ok hboard
      by_cases hrejected : r.Rejected s.board
      · left
        obtain ⟨rfl, -⟩ | ⟨haccepted, -⟩ := transfer_cases htransfer
        · refine ⟨rfl, ?_, fun haccepted => absurd hrejected haccepted⟩
          rw [heldAfter, if_pos hrejected]
        · exact absurd hrejected haccepted
      · cases hbus : onBus fixture s.board r.index r.address with
        | acknowledged =>
          right; right
          obtain ⟨-, -, -, hwhy⟩ | ⟨-, -, hi2cs, -⟩ := transfer_cases htransfer
          · exact absurd hbus (hwhy.resolve_left hrejected)
          · refine ⟨r.index, _, hi2cs, rfl, ?_, fun _ hsilent => ?_⟩
            · rw [heldAfter, if_neg hrejected]
              simp only [hbus]
            · rw [hbus] at hsilent
              cases hsilent
        | unacknowledged =>
          right; left
          obtain ⟨rfl, -⟩ | ⟨-, hacknowledged, -⟩ := transfer_cases htransfer
          · refine ⟨r.index, rfl, ?_, fun hheard => hheard hrejected hbus, fun hfree _ _ => hfree⟩
            rw [heldAfter, if_neg hrejected]
            simp only [hbus]
          · rw [hbus] at hacknowledged
            cases hacknowledged
        | kept =>
          left
          obtain ⟨rfl, -⟩ | ⟨-, hacknowledged, -⟩ := transfer_cases htransfer
          · refine ⟨rfl, ?_, fun _ hsilent => ?_⟩
            · rw [heldAfter, if_neg hrejected]
              simp only [hbus]
            · rw [hbus] at hsilent
              cases hsilent
          · rw [hbus] at hacknowledged
            cases hacknowledged
    | probe index address =>
      obtain ⟨answer, hprobe⟩ := map_fst_ok hboard
      obtain ⟨rfl, hkept⟩ | ⟨hbus, hi2cs⟩ := probe_cases hprobe
      · refine .inl ⟨rfl, ?_, trivial⟩
        rw [heldAfter, if_pos hkept]
      · refine .inr (.inr ⟨index, _, hi2cs, rfl, ?_, trivial⟩)
        rw [heldAfter, if_neg hbus]
    | initI2c index baudrate =>
      obtain ⟨actual, hinit⟩ := map_fst_ok hboard
      exact .inr (.inr ⟨index, _, initI2c_ok hinit, rfl, rfl, trivial⟩)
    | deinitI2c index => exact .inr (.inr ⟨index, _, deinitI2c_ok hboard, rfl, rfl, trivial⟩)
    | setI2cBaudrate index baudrate =>
      obtain ⟨actual, hset⟩ := map_fst_ok hboard
      exact .inr (.inr ⟨index, _, setI2cBaudrate_ok hset, rfl, rfl, trivial⟩)
    | rewire rest =>
      cases hboard
      exact .inl ⟨rfl, rfl, trivial⟩
  · cases h

theorem step_idle : Preserves (step fixture) Idle := by
  intro s call s' hstep hidle index
  obtain ⟨hi2cs, -⟩ | ⟨-, hi2cs, -⟩ | ⟨i, state, hi2cs, hbusy, -⟩ := step_cases hstep
  · rw [hi2cs]
    exact hidle index
  · rw [hi2cs]
    exact hidle index
  · rw [hi2cs]
    by_cases heq : index = i
    · subst heq
      rw [Function.update_self]
      exact hbusy
    · rw [Function.update_of_ne heq]
      exact hidle index

theorem step_agrees_iff (hagrees : Agrees s) (hstep : step fixture s call = some s') :
    Agrees s' ↔ Heard fixture s call := by
  obtain ⟨hi2cs, hheld, hheard⟩ | ⟨i, hi2cs, hheld, hheard⟩ |
    ⟨i, state, hi2cs, -, hheld, hheard⟩ := step_cases hstep
  · refine iff_of_true ?_ hheard
    intro index
    rw [hi2cs, hheld]
    exact hagrees index
  · rw [hheard]
    constructor
    · intro hagrees'
      have hfree := hagrees' i
      rwa [hi2cs, hheld, Function.update_self] at hfree
    · intro hfree index
      rw [hi2cs, hheld]
      by_cases heq : index = i
      · subst heq
        rw [Function.update_self]
        exact hfree
      · rw [Function.update_of_ne heq]
        exact hagrees index
  · refine iff_of_true ?_ hheard
    intro index
    rw [hi2cs, hheld]
    by_cases heq : index = i
    · subst heq
      rw [Function.update_self, Function.update_self]
    · rw [Function.update_of_ne heq, Function.update_of_ne heq]
      exact hagrees index

theorem busIdle_eq (hidle : Idle s) (hagrees : Agrees s) (index : ℕ) :
    busIdle s.board index = !s.held index := by
  rw [busIdle, hidle index, hagrees index]
  rfl

/-- What a transfer may do to the board and to the caller's buffer. -/
structure Contained (fixture : Fixture) (b : Board) (r : Request) (outcome : DeviceResult)
    (staged dst : List UInt8) : Prop where
  rejected : ∀ b' result dst', transfer fixture b r outcome staged dst = .ok (b', result, dst') →
    r.Rejected b → b' = b ∧ dst' = dst ∧ result < 0
  received : ∀ b' result dst', transfer fixture b r outcome staged dst = .ok (b', result, dst') →
    dst' ≠ dst → r.receive = true ∧ outcome = .ok ∧ result = r.len ∧ dst' = staged

theorem transfer_contained (b : Board) (r : Request) (outcome : DeviceResult)
    (staged dst : List UInt8) : Contained fixture b r outcome staged dst := by
  constructor
  · intro b' result dst' htransfer hrejected
    obtain ⟨hb, hdst, hresult, -⟩ | ⟨haccepted, -⟩ := transfer_cases htransfer
    · exact ⟨hb, hdst, hresult⟩
    · exact absurd hrejected haccepted
  · intro b' result dst' htransfer hchanged
    obtain ⟨-, hdst, -⟩ | ⟨-, -, -, hresult, hdst⟩ := transfer_cases htransfer
    · exact absurd hdst hchanged
    · split at hdst
      · rename_i hreceived
        refine ⟨hreceived.1, hreceived.2, ?_, hdst⟩
        rw [hresult, hreceived.2]
        rfl
      · exact absurd hdst hchanged

/-- After every call of a run no controller is busy, and rejected calls and failed receives change
nothing. Every bus is held as the last transfer or probe on it left it when and only when no
transfer of the SDK meets silence on a held bus. -/
theorem bus_hold_iff {calls : List Call} {z : State}
    (hrun : run (step fixture) start calls = some z) :
    ((∀ n s, run (step fixture) start (calls.take n) = some s → Agrees s) ↔
      Meets (step fixture) (Heard fixture) start calls) ∧
    (∀ n s, run (step fixture) start (calls.take n) = some s →
      Idle s ∧ (Agrees s → ∀ index, busIdle s.board index = !s.held index)) ∧
    ∀ b r outcome staged dst, Contained fixture b r outcome staged dst := by
  have hstart : Idle start := fun _ => rfl
  refine ⟨?_, ?_, transfer_contained⟩
  · exact always_iff_meets step_idle (fun _ _ _ _ _ hagrees hstep => step_agrees_iff hagrees hstep)
      hrun hstart fun _ => rfl
  · intro n s hs
    have hidle := step_idle.run hs hstart
    exact ⟨hidle, busIdle_eq hidle⟩

/-- A device with address 0x20 on the first two pins. -/
def wired : Board :=
  { PicoBoard.initial with
    pins := fun pin => if pin ≤ 1 then { function := .i2c } else {}
    i2cConnections := [⟨0, 0, 1⟩] }

def wiredFixture : Fixture := ⟨false, fun _ => 0x20, fun _ => 0⟩

def writeTo (address : ℕ) (nostop : Bool) : Call :=
  .transfer ⟨false, 0, address, 1, true, nostop, 1000⟩ .ok [] []

/-- A register read: the register number without STOP, and then its value. -/
def registerRead : List Call :=
  [.rewire wired, .initI2c 0 100000, writeTo 0x20 true,
    .transfer ⟨true, 0, 0x20, 1, true, false, 1000⟩ .ok [7] [0]]

theorem registerRead_held :
    (run (step wiredFixture) start registerRead).isSome = true ∧
    ∀ n s, run (step wiredFixture) start (registerRead.take n) = some s → Agrees s := by
  have hsome : (run (step wiredFixture) start registerRead).isSome = true := by decide +kernel
  have hcheck : check (step wiredFixture) (fun s call => decide (Heard wiredFixture s call)) start
      registerRead = true := by decide +kernel
  have hheard : Meets (step wiredFixture) (Heard wiredFixture) start registerRead :=
    .of_check (I := fun _ => True) (fun _ _ _ _ _ _ => trivial)
      (fun _ _ _ htest => of_decide_eq_true htest) trivial hcheck
  obtain ⟨z, hz⟩ := Option.isSome_iff_exists.1 hsome
  exact ⟨hsome, (bus_hold_iff hz).1.2 hheard⟩

/-- A write to nobody leaves the hold of the write before it. -/
theorem silent_write_keeps_hold :
    (run (step wiredFixture) start
        [.rewire wired, .initI2c 0 100000, writeTo 0x20 true, writeTo 0x21 false]).map
      (fun s => (busIdle s.board 0, s.held 0)) = some (false, false) := by
  decide +kernel

end Runs

end RooTesting.PicoI2c
