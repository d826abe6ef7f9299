import RooTesting.PicoUart
import RooTesting.RingBuffers
import RooTesting.Transition

/-! # Serial input on the RP2040

The object moves bytes from its device to a queue of its own before it answers. The device and the
board are anything that other code makes of them between the calls. -/
namespace RooTesting.PicoSerial
open Checks PicoBoard PicoUart RingBuffers Transition

/-- The input of a `FakeUartDevice`; also the question whether there is some may change it. -/
structure InputDevice (σ : Type) where
  availableForRead : σ → ℕ × σ
  read : σ → ℕ → List Byte × σ
  read_le : ∀ s n, (read s n).1.length ≤ n

/-- The input of a device that has its bytes in a list. -/
def listDevice : InputDevice (List Byte) where
  availableForRead := fun s => (s.length, s)
  read := fun s n => (s.take n, s.drop n)
  read_le := fun _ _ => List.length_take_le _ _

def serial8N1 : ℕ := 0x0413

/-- `SerialUART`, and what it has taken from its device and given to its callers since it was begun.
A pin that is not defined is `none`; `inverted` and `flowControl` stand for the options that are
refused. -/
structure State (σ : Type) where
  board : Board
  devices : Endpoint → σ
  uart : ℕ
  tx : Option ℕ
  rx : Option ℕ
  flowControl : Bool
  running : Bool := false
  polling : Bool := false
  fifoSize : ℕ := 32
  baud : ℕ := 0
  actualBaud : ℕ := 0
  queue : RingBuffer Byte
  taken : List Byte := []
  given : List Byte := []

/-- `ValidPin` -/
def validPin (uart : ℕ) (pin : Option ℕ) (tx : Bool) : Bool :=
  match pin with
  | none => true
  | some pin =>
    decide (pin < 30 ∧ pin % 4 = (if tx then 0 else 1)) &&
      [0, 1, 1, 0, 0, 1, 1, 0].getD (pin / 4) 0 == uart

section Calls
variable {σ : Type} (D : Endpoint → InputDevice σ) (fixture : Fixture) (s : State σ)

def setRX (pin : Option ℕ) : Bool × State σ :=
  if s.running ∨ validPin s.uart pin false = false then (false, s) else (true, { s with rx := pin })

def setTX (pin : Option ℕ) : Bool × State σ :=
  if s.running ∨ validPin s.uart pin true = false then (false, s) else (true, { s with tx := pin })

def setFIFOSize (size : ℕ) : Bool × State σ :=
  if s.running ∨ size < 2 ∨ 65536 < size then (false, s) else (true, { s with fifoSize := size })

def setPollingMode (mode : Bool) : Bool × State σ :=
  if s.running ∨ mode = false then (false, s) else (true, { s with polling := true })

/-- `gpio_set_function` of a pin, if there is one. -/
def setFunction? (board : Board) (pin : Option ℕ) (function : GpioFunction) :
    Except String Board :=
  match pin with
  | none => .ok board
  | some pin => do
    let (board, _) ← board.setFunction fixture (1#32 <<< pin) function
    return board

def serialEnd : Except String (State σ) :=
  if s.running = false then .ok s
  else do
    let board ← s.board.deinitUart s.uart
    let board ← setFunction? fixture board s.tx .null
    let board ← setFunction? fixture board s.rx .null
    return { s with
      board := board
      running := false }

def start (baud : ℕ) : Except String (State σ) := do
  let (board, actual) ← s.board.initUart s.uart baud
  let board ← setFunction? fixture board s.tx .uart
  let board ← setFunction? fixture board s.rx .uart
  return { s with
    board := board
    actualBaud := actual
    baud := baud
    queue := RingBuffer.new s.queue.cells s.fifoSize
    polling := true
    running := true
    taken := []
    given := [] }

/-- The cells of a new queue hold what they hold. -/
def serialBegin (baud config : ℕ) : Except String (State σ) := do
  check (config = serial8N1) "Unimplemented: Arduino-Pico UART format"
  check (s.flowControl = false) "Unimplemented: Arduino-Pico UART inversion/flow control"
  check (validPin s.uart s.tx true = true ∧ validPin s.uart s.rx false = true)
    "Check failed: ValidPin(_uart, _tx, true) && ValidPin(_uart, _rx, false)"
  let s ← serialEnd fixture s
  start fixture s baud

def State.setDevice (endpoint : Endpoint) (device : σ) : State σ :=
  { s with devices := Function.update s.devices endpoint device }

def queueFull : String := "Check failed: _queue->write(byte)"

/-- The loop of `_pumpFIFO`, which ends when the queue is full, since a turn fills a cell. -/
def pumpLoop (endpoint : Endpoint) : ℕ → State σ → Except String (State σ)
  | 0, s => .ok s
  | turns + 1, s =>
    if s.queue.available < s.fifoSize - 1 then
      let (ready, device) := (D endpoint).availableForRead (s.devices endpoint)
      let s := s.setDevice endpoint device
      if ready = 0 then .ok s
      else
        match (D endpoint).read device 1 with
        | ([byte], device) =>
          match s.queue.write byte with
          | none => .error queueFull
          | some queue =>
            pumpLoop endpoint turns { s.setDevice endpoint device with
              queue := queue
              taken := s.taken ++ [byte] }
        | (_, device) => .ok (s.setDevice endpoint device)
    else .ok s

/-- `_pumpFIFO` -/
def pumpFIFO : Except String (State σ) :=
  if s.running = false ∨ s.rx = none then .ok s
  else do
    let endpoint ← uartDevice s.board s.uart false
    pumpLoop D endpoint s.fifoSize s

def available : Except String (ℕ × State σ) := do
  let s ← pumpFIFO D s
  return (if s.running then s.queue.available else 0, s)

def read : Except String (ℤ × State σ) := do
  let s ← pumpFIFO D s
  if s.running then
    match s.queue.read with
    | none => return (-1, s)
    | some (byte, queue) =>
      return (byte.toNat, { s with
        queue := queue
        given := s.given ++ [byte] })
  else return (-1, s)

def peek : Except String (ℤ × State σ) := do
  let s ← pumpFIFO D s
  if s.running then
    match s.queue.peek with
    | none => return (-1, s)
    | some byte => return (byte.toNat, s)
  else return (-1, s)

end Calls

/-- A call, or other code that changes a device or the board. -/
inductive Act (σ : Type) where
  | setRX (pin : Option ℕ)
  | setTX (pin : Option ℕ)
  | setFIFOSize (size : ℕ)
  | setPollingMode (mode : Bool)
  | serialBegin (baud config : ℕ)
  | serialEnd
  | available
  | read
  | peek
  | device (endpoint : Endpoint) (device : σ)
  | board (board : Board)

/-- A failed check ends the program. -/
def step {σ : Type} (D : Endpoint → InputDevice σ) (fixture : Fixture) (s : State σ) :
    Act σ → Option (State σ)
  | .setRX pin => some (setRX s pin).2
  | .setTX pin => some (setTX s pin).2
  | .setFIFOSize size => some (setFIFOSize s size).2
  | .setPollingMode mode => some (setPollingMode s mode).2
  | .serialBegin baud config => (serialBegin fixture s baud config).toOption
  | .serialEnd => (serialEnd fixture s).toOption
  | .available => ((available D s).map Prod.snd).toOption
  | .read => ((read D s).map Prod.snd).toOption
  | .peek => ((peek D s).map Prod.snd).toOption
  | .device endpoint device => some (s.setDevice endpoint device)
  | .board board => some { s with board := board }

variable {σ : Type} {D : Endpoint → InputDevice σ} {fixture : Fixture} {s s' : State σ}

/-- The queue holds what has been taken and not yet given. -/
structure Queued (s : State σ) : Prop where
  valid : s.queue.Valid
  size : s.queue.size = s.fifoSize
  taken : s.taken = s.given ++ s.queue.contents

structure Inv (s : State σ) : Prop where
  fifoSize : 2 ≤ s.fifoSize
  queued : s.running = true → Queued s

/-- Some bytes have been moved to the queue. -/
structure Pumped (s s' : State σ) (bytes : List Byte) : Prop where
  running : s'.running = s.running
  fifoSize : s'.fifoSize = s.fifoSize
  given : s'.given = s.given
  taken : s'.taken = s.taken ++ bytes
  contents : s'.queue.contents = s.queue.contents ++ bytes
  queued : Queued s'

theorem Pumped.refl (h : Queued s) : Pumped s s [] :=
  ⟨rfl, rfl, rfl, (List.append_nil _).symm, (List.append_nil _).symm, h⟩

/-- What a device is, is nothing to the queue. -/
theorem Pumped.setDevice {bytes : List Byte} (h : Pumped s s' bytes) (endpoint : Endpoint)
    (device : σ) : Pumped s (s'.setDevice endpoint device) bytes :=
  ⟨h.running, h.fifoSize, h.given, h.taken, h.contents, ⟨h.queued.valid, h.queued.size,
    h.queued.taken⟩⟩

/-- One byte that the queue takes. -/
theorem Pumped.write {bytes : List Byte} {byte : Byte} {queue : RingBuffer Byte}
    (h : Pumped s s' bytes) (hq : s'.queue.write byte = some queue) :
    Pumped s { s' with
      queue := queue
      taken := s'.taken ++ [byte] } (bytes ++ [byte]) := by
  obtain ⟨hvalid, hsize, hcontents⟩ := RingBuffer.write_spec h.queued.valid hq
  refine ⟨h.running, h.fifoSize, h.given, ?_, ?_, hvalid, hsize.trans h.queued.size, ?_⟩
  · rw [← List.append_assoc, ← h.taken]
  · rw [← List.append_assoc, ← h.contents]
    exact hcontents
  · rw [h.queued.taken, List.append_assoc]
    exact congrArg (s'.given ++ ·) hcontents.symm

/-- The last answer of the device was that there is nothing. -/
def Nothing (device : InputDevice σ) (state : σ) : Prop :=
  ∃ before, (device.availableForRead before).1 = 0 ∧ state = (device.availableForRead before).2 ∨
    (device.read before 1).1 = [] ∧ state = (device.read before 1).2

/-- The loop does not fail, and ends with a full queue or an empty device. -/
theorem pumpLoop_spec {endpoint : Endpoint} {turns : ℕ} {s₀ : State σ} {bytes : List Byte}
    (h : Pumped s₀ s bytes) (hturns : s.fifoSize ≤ s.queue.available + turns + 1) :
    ∃ s' more, pumpLoop D endpoint turns s = .ok s' ∧ Pumped s₀ s' more ∧
      (s'.queue.available = s'.fifoSize - 1 ∨
        Nothing (D endpoint) (s'.devices endpoint)) := by
  have hlt : s.queue.available < s.queue.size := RingBuffer.available_lt h.queued.valid
  have hsize := h.queued.size
  induction turns generalizing s bytes with
  | zero => exact ⟨s, bytes, rfl, h, Or.inl (by omega)⟩
  | succ turns ih =>
    rw [pumpLoop]
    split_ifs with hroom
    swap
    · exact ⟨s, bytes, rfl, h, Or.inl (by omega)⟩
    dsimp only
    split_ifs with hready
    · refine ⟨_, bytes, rfl, h.setDevice _ _, Or.inr ⟨s.devices endpoint, Or.inl ⟨hready, ?_⟩⟩⟩
      simp [State.setDevice]
    · split
      next byte device hread =>
        have hpolled := h.setDevice endpoint ((D endpoint).availableForRead (s.devices endpoint)).2
        cases hq : (s.setDevice endpoint
            ((D endpoint).availableForRead (s.devices endpoint)).2).queue.write byte with
        | none =>
          have hfull := (RingBuffer.write_eq_none hpolled.queued.valid).mp hq
          have hsame : s.queue.size ≤ s.queue.available + 1 := hfull
          omega
        | some queue =>
          dsimp only
          have hwritten := (hpolled.setDevice endpoint device).write hq
          have hcount : queue.available = s.queue.available + 1 := by
            have hspec := (RingBuffer.write_spec hpolled.queued.valid hq).2.2
            have hlength := congrArg List.length hspec
            simp only [RingBuffer.length_contents, List.length_append, List.length_singleton] at hlength
            exact hlength
          apply ih hwritten
          · simp only [State.setDevice, hcount]
            omega
          · exact RingBuffer.available_lt hwritten.queued.valid
          · exact hwritten.queued.size
      next bytes' device hne hread =>
        refine ⟨_, bytes, rfl, (h.setDevice _ _).setDevice _ _, Or.inr
          ⟨((D endpoint).availableForRead (s.devices endpoint)).2, Or.inr ⟨?_, ?_⟩⟩⟩
        · have hle := (D endpoint).read_le ((D endpoint).availableForRead (s.devices endpoint)).2 1
          rw [hread] at hle ⊢
          cases bytes' with
          | nil => rfl
          | cons byte rest =>
            cases rest with
            | nil => exact absurd rfl (hne byte)
            | cons _ _ => simp at hle
        · rw [hread]
          simp [State.setDevice]

/-- A pump fails only where the board has no route. -/
theorem pumpFIFO_spec (h : Queued s) :
    (∃ message, pumpFIFO D s = .error message ∧
      uartDevice s.board s.uart false = .error message) ∨
    ∃ s' bytes, pumpFIFO D s = .ok s' ∧ Pumped s s' bytes := by
  rw [pumpFIFO]
  split_ifs with hnone
  · exact Or.inr ⟨s, [], rfl, Pumped.refl h⟩
  · cases hroute : uartDevice s.board s.uart false with
    | error message => exact Or.inl ⟨message, rfl, rfl⟩
    | ok endpoint =>
      have hturns : s.fifoSize ≤ s.queue.available + s.fifoSize + 1 := by omega
      obtain ⟨s', bytes, hpump, hpumped, -⟩ := pumpLoop_spec (Pumped.refl h) hturns
      exact Or.inr ⟨s', bytes, hpump, hpumped⟩

theorem Pumped.inv {bytes : List Byte} (h : Pumped s s' bytes) (hs : Inv s) : Inv s' :=
  ⟨h.fifoSize ▸ hs.fifoSize, fun _ => h.queued⟩

/-- What a call leaves: some bytes have come, and the first `n` have been given away. -/
structure Served (s s' : State σ) (n : ℕ) : Prop where
  inv : Inv s'
  running : s'.running = true
  contents : ∃ bytes, s'.taken = s.taken ++ bytes ∧
    s'.queue.contents = (s.queue.contents ++ bytes).drop n

theorem Pumped.served {bytes : List Byte} (h : Pumped s s' bytes) (hs : Inv s)
    (hrunning : s.running = true) : Served s s' 0 :=
  ⟨h.inv hs, h.running.trans hrunning, bytes, h.taken, h.contents⟩

theorem available_spec (hs : Inv s) (hrunning : s.running = true) :
    (∃ message, available D s = .error message ∧
      uartDevice s.board s.uart false = .error message) ∨
    ∃ s', available D s = .ok (s'.queue.contents.length, s') ∧ Served s s' 0 ∧
      s'.given = s.given := by
  rcases pumpFIFO_spec (D := D) (hs.queued hrunning) with
    ⟨message, hpump, hroute⟩ | ⟨s', bytes, hpump, hpumped⟩
  · exact Or.inl ⟨message, by rw [available, hpump]; rfl, hroute⟩
  · refine Or.inr ⟨s', ?_, hpumped.served hs hrunning, hpumped.given⟩
    rw [available, hpump, RingBuffer.length_contents]
    simp [bind, Except.bind, pure, Except.pure, hpumped.running, hrunning]

theorem peek_spec (hs : Inv s) (hrunning : s.running = true) :
    (∃ message, peek D s = .error message ∧
      uartDevice s.board s.uart false = .error message) ∨
    ∃ v s', peek D s = .ok (v, s') ∧ Served s s' 0 ∧ s'.given = s.given ∧
      v = (s'.queue.contents.head?.map fun byte => (byte.toNat : ℤ)).getD (-1) := by
  rcases pumpFIFO_spec (D := D) (hs.queued hrunning) with
    ⟨message, hpump, hroute⟩ | ⟨s', bytes, hpump, hpumped⟩
  · exact Or.inl ⟨message, by rw [peek, hpump]; rfl, hroute⟩
  · refine Or.inr ⟨_, s', ?_, hpumped.served hs hrunning, hpumped.given, rfl⟩
    rw [peek, hpump, ← RingBuffer.peek_eq_head hpumped.queued.valid]
    simp only [bind, Except.bind, hpumped.running, hrunning, if_true]
    cases s'.queue.peek <;> rfl

theorem read_spec (hs : Inv s) (hrunning : s.running = true) :
    (∃ message, read D s = .error message ∧
      uartDevice s.board s.uart false = .error message) ∨
    ∃ v s', read D s = .ok (v, s') ∧ Served s s' 1 ∧ ∃ bytes, s'.taken = s.taken ++ bytes ∧
      (v = -1 ∧ s'.given = s.given ∧ s.queue.contents ++ bytes = [] ∨
        ∃ byte : Byte, v = byte.toNat ∧ s'.given = s.given ++ [byte] ∧
          s.queue.contents ++ bytes = byte :: s'.queue.contents) := by
  rcases pumpFIFO_spec (D := D) (hs.queued hrunning) with
    ⟨message, hpump, hroute⟩ | ⟨t, bytes, hpump, hpumped⟩
  · exact Or.inl ⟨message, by rw [read, hpump]; rfl, hroute⟩
  have ht : t.running = true := hpumped.running.trans hrunning
  cases hread : t.queue.read with
  | none =>
    have hempty := (RingBuffer.read_eq_none hpumped.queued.valid).mp hread
    refine Or.inr ⟨-1, t, ?_, ⟨hpumped.inv hs, ht, bytes, hpumped.taken, ?_⟩, bytes,
      hpumped.taken, Or.inl ⟨rfl, hpumped.given, hpumped.contents.symm.trans hempty⟩⟩
    · rw [read, hpump]
      simp only [bind, Except.bind, ht, if_true, hread]
      rfl
    · rw [← hpumped.contents, hempty]
      rfl
  | some p =>
    obtain ⟨byte, queue⟩ := p
    obtain ⟨hvalid, hsize, hcontents⟩ := RingBuffer.read_spec hpumped.queued.valid hread
    let u : State σ := { t with
      queue := queue
      given := t.given ++ [byte] }
    have hqueued : Queued u := by
      refine ⟨hvalid, hsize.trans hpumped.queued.size, ?_⟩
      have htaken := hpumped.queued.taken
      rw [hcontents] at htaken
      exact htaken.trans (by simp [u])
    have hall : s.queue.contents ++ bytes = byte :: queue.contents :=
      hpumped.contents.symm.trans hcontents
    refine Or.inr ⟨byte.toNat, u, ?_, ⟨⟨?_, fun _ => hqueued⟩, ht, bytes, hpumped.taken, ?_⟩,
      bytes, hpumped.taken, Or.inr ⟨byte, rfl, ?_, hall⟩⟩
    · have hcall : read D s = if t.running then .ok ((byte.toNat : ℤ), u) else .ok (-1, t) := by
        rw [read, hpump]
        simp only [bind, Except.bind, hread]
        rfl
      rw [hcall, if_pos ht]
    · exact (hpumped.inv hs).fifoSize
    · rw [hall]
      rfl
    · exact congrArg (· ++ [byte]) hpumped.given

/-- Neither a session nor its end. -/
def Act.Within : Act σ → Prop
  | .serialBegin _ _ | .serialEnd => False
  | _ => True

def Act.reads : Act σ → ℕ
  | .read => 1
  | _ => 0

theorem Served.refl (hs : Inv s) (hrunning : s.running = true) : Served s s 0 :=
  ⟨hs, hrunning, [], (List.append_nil _).symm, (List.append_nil _).symm⟩

/-- Within a session every step serves. -/
theorem step_served {a : Act σ} (hs : Inv s) (hrunning : s.running = true) (ha : a.Within)
    (h : step D fixture s a = some s') : Served s s' a.reads := by
  cases a with
  | setRX pin =>
    obtain rfl := Option.some.inj h
    rw [setRX, if_pos (Or.inl hrunning)]
    exact Served.refl hs hrunning
  | setTX pin =>
    obtain rfl := Option.some.inj h
    rw [setTX, if_pos (Or.inl hrunning)]
    exact Served.refl hs hrunning
  | setFIFOSize size =>
    obtain rfl := Option.some.inj h
    rw [setFIFOSize, if_pos (Or.inl hrunning)]
    exact Served.refl hs hrunning
  | setPollingMode mode =>
    obtain rfl := Option.some.inj h
    rw [setPollingMode, if_pos (Or.inl hrunning)]
    exact Served.refl hs hrunning
  | serialBegin baud config => exact ha.elim
  | serialEnd => exact ha.elim
  | available =>
    rw [step] at h
    rcases available_spec (D := D) hs hrunning with ⟨message, hcall, -⟩ | ⟨t, hcall, hserved, -⟩
    · rw [hcall] at h
      cases h
    · rw [hcall] at h
      cases h
      exact hserved
  | read =>
    rw [step] at h
    rcases read_spec (D := D) hs hrunning with ⟨message, hcall, -⟩ | ⟨v, t, hcall, hserved, -⟩
    · rw [hcall] at h
      cases h
    · rw [hcall] at h
      cases h
      exact hserved
  | peek =>
    rw [step] at h
    rcases peek_spec (D := D) hs hrunning with ⟨message, hcall, -⟩ | ⟨v, t, hcall, hserved, -⟩
    · rw [hcall] at h
      cases h
    · rw [hcall] at h
      cases h
      exact hserved
  | device endpoint device =>
    obtain rfl := Option.some.inj h
    exact ⟨⟨hs.fifoSize, fun hr => ⟨(hs.queued hr).valid, (hs.queued hr).size,
      (hs.queued hr).taken⟩⟩, hrunning, [], (List.append_nil _).symm, (List.append_nil _).symm⟩
  | board board =>
    obtain rfl := Option.some.inj h
    exact ⟨⟨hs.fifoSize, fun hr => ⟨(hs.queued hr).valid, (hs.queued hr).size,
      (hs.queued hr).taken⟩⟩, hrunning, [], (List.append_nil _).symm, (List.append_nil _).symm⟩

theorem serialEnd_inv (hs : Inv s) (h : serialEnd fixture s = .ok s') :
    Inv s' ∧ s'.running = false := by
  unfold serialEnd at h
  split_ifs at h with hrunning
  · cases h
    exact ⟨hs, hrunning⟩
  · obtain ⟨board, -, h⟩ := bind_ok.mp h
    obtain ⟨board, -, h⟩ := bind_ok.mp h
    obtain ⟨board, -, h⟩ := bind_ok.mp h
    obtain rfl := pure_ok.mp h
    exact ⟨⟨hs.fifoSize, fun hr => Bool.noConfusion hr⟩, rfl⟩

theorem start_inv {baud : ℕ} (hs : Inv s) (h : start fixture s baud = .ok s') : Inv s' := by
  obtain ⟨⟨board, actual⟩, -, h⟩ := bind_ok.mp h
  obtain ⟨board, -, h⟩ := bind_ok.mp h
  obtain ⟨board, -, h⟩ := bind_ok.mp h
  obtain rfl := pure_ok.mp h
  refine ⟨hs.fifoSize, fun _ => ⟨RingBuffer.valid_new _ ?_, rfl, ?_⟩⟩
  · exact Nat.lt_of_lt_of_le Nat.two_pos hs.fifoSize
  · exact (RingBuffer.contents_new _ _).symm

theorem serialBegin_inv {baud config : ℕ} (hs : Inv s)
    (h : serialBegin fixture s baud config = .ok s') : Inv s' := by
  obtain ⟨-, h⟩ := check_bind_ok.mp h
  obtain ⟨-, h⟩ := check_bind_ok.mp h
  obtain ⟨-, h⟩ := check_bind_ok.mp h
  obtain ⟨t, ht, h⟩ := bind_ok.mp h
  exact start_inv (serialEnd_inv hs ht).1 h

/-- Outside a session nothing is moved. -/
theorem pumpFIFO_idle (h : s.running = false) : pumpFIFO D s = .ok s := by
  rw [pumpFIFO, if_pos (Or.inl h)]

theorem serialBegin_of_step {baud config : ℕ}
    (h : step D fixture s (.serialBegin baud config) = some s') :
    serialBegin fixture s baud config = .ok s' := by
  rw [step] at h
  cases hcall : serialBegin fixture s baud config with
  | error message =>
    rw [hcall] at h
    cases h
  | ok t =>
    rw [hcall] at h
    exact congrArg _ (Option.some.inj h)

theorem serialEnd_of_step (h : step D fixture s .serialEnd = some s') :
    serialEnd fixture s = .ok s' := by
  rw [step] at h
  cases hcall : serialEnd fixture s with
  | error message =>
    rw [hcall] at h
    cases h
  | ok t =>
    rw [hcall] at h
    exact congrArg _ (Option.some.inj h)

theorem calls_idle (h : s.running = false) :
    available D s = .ok (0, s) ∧ read D s = .ok (-1, s) ∧ peek D s = .ok (-1, s) := by
  rw [available, read, peek, pumpFIFO_idle h]
  simp [bind, Except.bind, pure, Except.pure, h]

theorem step_inv : Preserves (step D fixture) Inv := by
  intro s a s' h hs
  have hwithin : s.running = true → a.Within → Inv s' := fun hrunning ha =>
    (step_served hs hrunning ha h).inv
  cases hrunning : s.running with
  | true =>
    cases a with
    | serialBegin baud config =>
      exact serialBegin_inv hs (serialBegin_of_step h)
    | serialEnd =>
      exact (serialEnd_inv hs (serialEnd_of_step h)).1
    | _ => exact hwithin hrunning trivial
  | false =>
    obtain ⟨havailable, hread, hpeek⟩ := calls_idle (D := D) hrunning
    have hidle : ∀ {t : State σ}, t.running = false → 2 ≤ t.fifoSize → Inv t := fun hr hsize =>
      ⟨hsize, fun h => Bool.noConfusion (hr.symm.trans h)⟩
    cases a with
    | setRX pin =>
      obtain rfl := Option.some.inj h
      unfold setRX
      split_ifs
      · exact hs
      · exact hidle hrunning hs.fifoSize
    | setTX pin =>
      obtain rfl := Option.some.inj h
      unfold setTX
      split_ifs
      · exact hs
      · exact hidle hrunning hs.fifoSize
    | setFIFOSize size =>
      obtain rfl := Option.some.inj h
      unfold setFIFOSize
      split_ifs with hrefused
      · exact hs
      · exact hidle hrunning (by simp only; omega)
    | setPollingMode mode =>
      obtain rfl := Option.some.inj h
      unfold setPollingMode
      split_ifs
      · exact hs
      · exact hidle hrunning hs.fifoSize
    | serialBegin baud config =>
      exact serialBegin_inv hs (serialBegin_of_step h)
    | serialEnd =>
      rw [step, serialEnd, if_pos hrunning] at h
      cases h
      exact hs
    | available =>
      rw [step, havailable] at h
      cases h
      exact hs
    | read =>
      rw [step, hread] at h
      cases h
      exact hs
    | peek =>
      rw [step, hpeek] at h
      cases h
      exact hs
    | device endpoint device =>
      obtain rfl := Option.some.inj h
      exact hidle hrunning hs.fifoSize
    | board board =>
      obtain rfl := Option.some.inj h
      exact hidle hrunning hs.fifoSize

/-- A byte at the head of the queue stays there until it is read. -/
theorem run_head {more : List (Act σ)} {byte : Byte} (hs : Inv s) (hrunning : s.running = true)
    (hhead : s.queue.contents.head? = some byte) (hmore : ∀ a ∈ more, a.Within ∧ a.reads = 0)
    (hr : run (step D fixture) s more = some s') :
    Inv s' ∧ s'.running = true ∧ s'.queue.contents.head? = some byte := by
  induction more generalizing s with
  | nil =>
    cases hr
    exact ⟨hs, hrunning, hhead⟩
  | cons a more ih =>
    obtain ⟨t, ht, hr⟩ := run_cons_eq_some.mp hr
    obtain ⟨hwithin, hreads⟩ := hmore a List.mem_cons_self
    obtain ⟨hinv, hstill, bytes, -, hcontents⟩ := step_served hs hrunning hwithin ht
    refine ih hinv hstill ?_ (fun b hb => hmore b (List.mem_cons_of_mem _ hb)) hr
    rw [hcontents, hreads, List.drop_zero, List.head?_append, hhead]
    rfl

/-- As many bytes as the queue holds can be read. -/
theorem run_length {more : List (Act σ)} (hs : Inv s) (hrunning : s.running = true)
    (hmore : ∀ a ∈ more, a.Within) (hr : run (step D fixture) s more = some s') :
    Inv s' ∧ s'.running = true ∧
      s.queue.contents.length ≤ s'.queue.contents.length + (more.map Act.reads).sum := by
  induction more generalizing s with
  | nil =>
    cases hr
    exact ⟨hs, hrunning, Nat.le_add_right _ _⟩
  | cons a more ih =>
    obtain ⟨t, ht, hr⟩ := run_cons_eq_some.mp hr
    obtain ⟨hinv, hstill, bytes, -, hcontents⟩ :=
      step_served hs hrunning (hmore a List.mem_cons_self) ht
    obtain ⟨hinv', hend, hle⟩ :=
      ih hinv hstill (fun b hb => hmore b (List.mem_cons_of_mem _ hb)) hr
    refine ⟨hinv', hend, ?_⟩
    have hlength := congrArg List.length hcontents
    rw [List.length_drop, List.length_append] at hlength
    rw [List.map_cons, List.sum_cons]
    omega

/-- The object before its first session. -/
structure Fresh (s : State σ) : Prop where
  running : s.running = false
  fifoSize : s.fifoSize = 32

/-- What a read gives. -/
theorem read_value {v : ℤ} (hs : Inv s) (hrunning : s.running = true)
    (h : read D s = .ok (v, s')) :
    ∃ bytes, s'.taken = s.taken ++ bytes ∧
      (v = -1 ∧ s'.given = s.given ∧ s.queue.contents ++ bytes = [] ∨
        ∃ byte : Byte, v = byte.toNat ∧ s'.given = s.given ++ [byte] ∧
          s.queue.contents ++ bytes = byte :: s'.queue.contents) := by
  rcases read_spec (D := D) hs hrunning with ⟨message, hcall, -⟩ | ⟨w, t, hcall, -, hvalue⟩
  · rw [hcall] at h
    cases h
  · rw [hcall] at h
    cases h
    exact hvalue

/-- In every run, whatever other code makes of the devices and the board between the calls: the
bytes taken from the device in a session are those given to the callers and those in the queue, in
order, and the queue never overflows; a call fails only for want of a route; a read gives the
oldest byte, and none only when there is none; what a peek shows is what the next read gives; and
as many reads give a byte as were said to be available. -/
theorem input_kept {acts : List (Act σ)} {s₀ : State σ} (h₀ : Fresh s₀)
    (hr : run (step D fixture) s₀ acts = some s) (hrunning : s.running = true) :
    (s.taken = s.given ++ s.queue.contents ∧ s.queue.contents.length < s.fifoSize) ∧
    (∀ message, available D s = .error message ∨ peek D s = .error message ∨
      read D s = .error message → uartDevice s.board s.uart false = .error message) ∧
    (∀ v z, read D s = .ok (v, z) → ∃ bytes, z.taken = s.taken ++ bytes ∧
      (v = -1 ∧ z.given = s.given ∧ s.queue.contents ++ bytes = [] ∨
        ∃ byte : Byte, v = byte.toNat ∧ z.given = s.given ++ [byte] ∧
          s.queue.contents ++ bytes = byte :: z.queue.contents)) ∧
    (∀ v t, peek D s = .ok (v, t) → v ≠ -1 → ∀ more u, (∀ a ∈ more, a.Within ∧ a.reads = 0) →
      run (step D fixture) t more = some u → ∀ w z, read D u = .ok (w, z) → w = v) ∧
    ∀ n t, available D s = .ok (n, t) → ∀ more u, (∀ a ∈ more, a.Within) →
      (more.map Act.reads).sum < n → run (step D fixture) t more = some u →
        ∀ w z, read D u = .ok (w, z) → w ≠ -1 := by
  have hs : Inv s := step_inv.run hr
    ⟨h₀.fifoSize ▸ by decide, fun h => Bool.noConfusion (h₀.running.symm.trans h)⟩
  have hqueued := hs.queued hrunning
  refine ⟨⟨hqueued.taken, ?_⟩, ?_, fun v z => read_value hs hrunning, ?_, ?_⟩
  · rw [RingBuffer.length_contents, ← hqueued.size]
    exact RingBuffer.available_lt hqueued.valid
  · rintro message (h | h | h)
    · rcases available_spec (D := D) hs hrunning with ⟨m, hcall, hroute⟩ | ⟨t, hcall, -⟩ <;>
        rw [hcall] at h <;> cases h
      exact hroute
    · rcases peek_spec (D := D) hs hrunning with ⟨m, hcall, hroute⟩ | ⟨v, t, hcall, -⟩ <;>
        rw [hcall] at h <;> cases h
      exact hroute
    · rcases read_spec (D := D) hs hrunning with ⟨m, hcall, hroute⟩ | ⟨v, t, hcall, -⟩ <;>
        rw [hcall] at h <;> cases h
      exact hroute
  · intro v t hpeek hv more u hmore hrun w z hread
    rcases peek_spec (D := D) hs hrunning with ⟨m, hcall, -⟩ | ⟨v', t', hcall, hserved, -, hv'⟩ <;>
      rw [hcall] at hpeek <;> cases hpeek
    cases hhead : t.queue.contents.head? with
    | none =>
      rw [hhead] at hv'
      exact absurd hv' hv
    | some byte =>
      rw [hhead] at hv'
      obtain ⟨hinv, hstill, hhead'⟩ := run_head hserved.inv hserved.running hhead hmore hrun
      obtain ⟨rest, hrest⟩ := List.head?_eq_some_iff.mp hhead'
      obtain ⟨bytes, -, ⟨-, -, hempty⟩ | ⟨byte', rfl, -, hall⟩⟩ := read_value hinv hstill hread
      · rw [hrest] at hempty
        cases hempty
      · rw [hrest, List.cons_append] at hall
        rw [(List.cons.inj hall).1] at hv'
        exact hv'.symm
  · intro n t havailable more u hmore hreads hrun w z hread
    rcases available_spec (D := D) hs hrunning with ⟨m, hcall, -⟩ | ⟨t', hcall, hserved, -⟩ <;>
      rw [hcall] at havailable <;> cases havailable
    obtain ⟨hinv, hstill, hle⟩ := run_length hserved.inv hserved.running hmore hrun
    obtain ⟨bytes, -, ⟨-, -, hempty⟩ | ⟨byte, rfl, -⟩⟩ := read_value hinv hstill hread
    · have hnone := (List.append_eq_nil_iff.mp hempty).1
      rw [hnone, List.length_nil] at hle
      omega
    · omega

/-- The first controller, which reads the console through its default pin. -/
def consoleSerial : State (List Byte) where
  board := PicoBoard.initial
  devices := fun _ => []
  uart := 0
  tx := none
  rx := some 1
  flowControl := false
  queue := RingBuffer.new (fun _ => 0) 1

/-- A queue that holds one byte, and two bytes on the console. -/
def cramped : List (Act (List Byte)) :=
  [.setFIFOSize 2, .serialBegin 115200 serial8N1, .device .console [5, 6], .peek, .read]

/-- The second byte is left with the console. -/
theorem input_kept_cramped :
    ∃ s, run (step (fun _ => listDevice) ⟨false, fun _ => 0, fun _ => 0⟩) consoleSerial cramped =
      some s ∧ s.given = [5] ∧ s.devices .console = [6] ∧
      s.taken = s.given ++ s.queue.contents ∧ s.queue.contents.length < s.fifoSize := by
  have hrun : run (step (fun _ => listDevice) ⟨false, fun _ => 0, fun _ => 0⟩) consoleSerial
      cramped = some ((run (step (fun _ => listDevice) ⟨false, fun _ => 0, fun _ => 0⟩)
        consoleSerial cramped).get rfl) :=
    (Option.some_get _).symm
  obtain ⟨htaken, hlt⟩ := (input_kept ⟨rfl, rfl⟩ hrun rfl).1
  exact ⟨_, hrun, rfl, rfl, htaken, hlt⟩

end RooTesting.PicoSerial
