import RooTesting.PicoBoard
import Mathlib.Data.List.GetD
import Mathlib.Data.List.Infix
import Mathlib.Data.List.TakeWhile
import Mathlib.Logic.Function.Iterate

/-! # Blocking output on the UARTs of the RP2040

A device accepts as many bytes of a write as it likes, also none, and what is left is written again.
Text is written one byte at a time, and a line feed that no carriage return precedes can get one. -/
namespace RooTesting.PicoUart
open Checks PicoBoard

abbrev Byte := BitVec 8

/-- What a route leads to: the console of the host, or an attached device by its handle. -/
inductive Endpoint
  | console
  | attached (device : ℕ)
  deriving DecidableEq

/-- `FakeUartDevice`, apart from its input. -/
structure UartDevice (σ : Type) where
  write : σ → List Byte → ℕ × σ

/-- What has been written is the devices written to, the bytes offered and how many they took. -/
structure World (σ : Type) where
  board : Board
  devices : Endpoint → σ
  writes : List (Endpoint × List Byte × ℕ)
  waits : ℕ

inductive Status
  | ended
  | waiting
  | failed (message : String)
  deriving DecidableEq

/-- A call that has not ended within some number of writes is still waiting. -/
structure Result (σ : Type) where
  status : Status
  world : World σ

def cr : Byte := 13

def lf : Byte := 10

section Routes
variable (b : Board)

def attachedTo (transmit : Bool) (pin : ℕ) (device : Option Endpoint)
    (connection : UartConnection) : Option Endpoint :=
  if (pin : ℤ) = (if transmit then connection.tx else connection.rx) then
    some (.attached connection.device)
  else device

/-- One turn of the loop over the pins. -/
def routePin (index : ℕ) (transmit : Bool) (route : Option Endpoint × ℕ) (pin : ℕ) :
    Except String (Option Endpoint × ℕ) :=
  let role := if transmit then 0 else 1
  if (b.pins pin).function ≠ .uart ∨ uartIndex pin ≠ index ∨ pin % 4 ≠ role then return route
  else do
    check (transmit = true ∨ ((b.pins pin).inputEnabled = true ∧
      (b.pins pin).inputOverride = .normal)) "Unsupported Pico UART RX pad configuration"
    let device := b.uartConnections.foldl (attachedTo transmit pin) route.1
    if pin = role ∧ b.attachments pin = .none then return (some .console, route.2 + 1)
    else return (device, route.2 + 1)

def uartDevice (index : ℕ) (transmit : Bool) : Except String Endpoint := do
  let state ← b.uartState index
  check (state.enabled = true) "Pico UART is disabled"
  let (device, active) ← (List.range gpioCount).foldlM (routePin b index transmit) (none, 0)
  check (active = 1) "Pico UART needs exactly one active pin route"
  match device with
  | some endpoint => return endpoint
  | none => throw "Pico UART route has no attached device"

/-- `EnabledIndex`. -/
def enabledIndex (uart : ℕ) : Except String Unit := do
  check (uart < 2) "Invalid Pico UART instance"
  let state ← b.uartState uart
  check (state.enabled = true) "Pico UART is disabled"

end Routes

section Calls
variable {σ : Type}

def orFail {α : Type} (w : World σ) (x : Except String α) (next : α → Result σ) : Result σ :=
  match x with
  | .ok a => next a
  | .error message => ⟨.failed message, w⟩

def Result.andThen (r : Result σ) (next : World σ → Result σ) : Result σ :=
  match r.status with
  | .ended => next r.world
  | _ => r

variable (D : Endpoint → UartDevice σ)

/-- A device is offered some bytes. -/
def offer (endpoint : Endpoint) (chunk : List Byte) (w : World σ) : World σ :=
  let (sent, state) := (D endpoint).write (w.devices endpoint) chunk
  { w with
    devices := Function.update w.devices endpoint state
    writes := w.writes ++ [(endpoint, chunk, sent)] }

/-- The loop of `uart_write_blocking`, with no more writes than there is fuel. -/
def writeLoop (endpoint : Endpoint) : ℕ → List Byte → World σ → Result σ
  | _, [], w => ⟨.ended, w⟩
  | 0, _, w => ⟨.waiting, w⟩
  | fuel + 1, src, w =>
      let chunk := src.take 65535
      let sent := ((D endpoint).write (w.devices endpoint) chunk).1
      let w := offer D endpoint chunk w
      if chunk.length < sent then ⟨.failed "Invalid Pico UART device write count", w⟩
      else if sent = 0 then writeLoop endpoint fuel src { w with waits := w.waits + 1 }
      else writeLoop endpoint fuel (src.drop sent) w

def uartWriteBlocking (fuel uart : ℕ) (src : Option (List Byte)) (len : ℕ) (w : World σ) :
    Result σ :=
  orFail w (enabledIndex w.board uart) fun _ =>
    if len = 0 then ⟨.ended, w⟩
    else
      orFail w (check (src.isSome = true) "Invalid Pico UART write buffer") fun _ =>
        orFail w (uartDevice w.board uart true) fun endpoint =>
          writeLoop D endpoint fuel ((src.getD []).take len) w

def uartPutcRaw (fuel uart : ℕ) (c : Byte) (w : World σ) : Result σ :=
  uartWriteBlocking D fuel uart (some [c]) 1 w

def uartPutc (fuel uart : ℕ) (c : Byte) (w : World σ) : Result σ :=
  orFail w (enabledIndex w.board uart) fun _ =>
    orFail w (w.board.uartState uart) fun state =>
      if c = lf ∧ state.translateCrLf = true then
        (uartPutcRaw D fuel uart cr w).andThen (uartPutcRaw D fuel uart c)
      else uartPutcRaw D fuel uart c w

/-- The loop of `uart_puts` over what lies from the pointer on. -/
def putsLoop (fuel uart : ℕ) : Bool → List Byte → World σ → Result σ
  | _, [], w => ⟨.ended, w⟩
  | lastWasCr, c :: s, w =>
      if c = 0 then ⟨.ended, w⟩
      else
        (if lastWasCr then uartPutcRaw D fuel uart c w else uartPutc D fuel uart c w).andThen
          (putsLoop fuel uart (c = cr) s)

def uartPuts (fuel uart : ℕ) (s : Option (List Byte)) (w : World σ) : Result σ :=
  orFail w (enabledIndex w.board uart) fun _ =>
    orFail w (check (s.isSome = true) "Invalid Pico UART string") fun _ =>
      putsLoop D fuel uart false (s.getD []) w

end Calls

/-- The bytes that were taken. -/
def taken (writes : List (Endpoint × List Byte × ℕ)) : List Byte :=
  writes.flatMap fun write => write.2.1.take write.2.2

/-- The byte at a place of a string, with what comes before it. -/
def converted (translate : Bool) (s : List Byte) (i : ℕ) : List Byte :=
  if translate = true ∧ s.getD i 0 = lf ∧ ¬ (0 < i ∧ s.getD (i - 1) 0 = cr) then [cr, s.getD i 0]
  else [s.getD i 0]

/-- A string as it has to go out. -/
def translated (translate : Bool) (s : List Byte) : List Byte :=
  (List.range s.length).flatMap (converted translate s)

section Devices
variable {σ : Type} (device : UartDevice σ)

def UartDevice.Within : Prop := ∀ s bytes, (device.write s bytes).1 ≤ bytes.length

/-- A device that is offered the same bytes again and again takes some in the end. -/
def UartDevice.Live : Prop :=
  ∀ s bytes, bytes ≠ [] →
    ∃ n, 0 < (device.write ((fun s => (device.write s bytes).2)^[n] s) bytes).1

end Devices

/-- However many writes it has made, a call has made a device take some beginning of a text, in
pieces of at most 65535 bytes, and nothing else; when it ends, all of it. -/
structure Delivered {σ : Type} (D : Endpoint → UartDevice σ) (endpoint : Endpoint) (w : World σ)
    (text : List Byte) (run : ℕ → Result σ) : Prop where
  board : ∀ fuel, (run fuel).world.board = w.board
  sends : ∀ fuel, ∃ writes, (run fuel).world.writes = w.writes ++ writes ∧
    (∀ write ∈ writes, write.1 = endpoint ∧ write.2.1 ≠ [] ∧ write.2.1.length ≤ 65535) ∧
    taken writes <+: text ∧ ((run fuel).status = .ended → taken writes = text)
  safe : ∀ fuel message, (run fuel).status ≠ .failed message
  steady : ∀ fuel more, (run fuel).status = .ended → run (fuel + more) = run fuel
  returns : (D endpoint).Live → ∃ fuel, (run fuel).status = .ended

section Delivery
variable {σ : Type} {D : Endpoint → UartDevice σ} {endpoint : Endpoint} {w : World σ}

theorem taken_append (writes writes' : List (Endpoint × List Byte × ℕ)) :
    taken (writes ++ writes') = taken writes ++ taken writes' :=
  List.flatMap_append

variable (D endpoint w) in
theorem delivered_nothing : Delivered D endpoint w [] fun _ => ⟨.ended, w⟩ where
  board _ := rfl
  sends _ := by
    refine ⟨[], (List.append_nil _).symm, ?_, List.prefix_rfl, fun _ => rfl⟩
    intro write hwrite
    cases hwrite
  safe _ _ h := by cases h
  steady _ _ _ := rfl
  returns _ := ⟨0, rfl⟩

theorem andThen_ended {r : Result σ} (hstatus : r.status = .ended) (next : World σ → Result σ) :
    r.andThen next = next r.world := by
  rw [Result.andThen, hstatus]

theorem andThen_other {r : Result σ} (hstatus : r.status ≠ .ended) (next : World σ → Result σ) :
    r.andThen next = r := by
  rw [Result.andThen]
  split
  · contradiction
  · rfl

/-- One call after the other, both on the same board. -/
theorem Delivered.andThen {first second : List Byte} {run : ℕ → Result σ}
    {next : ℕ → World σ → Result σ} (h : Delivered D endpoint w first run)
    (hnext : ∀ w', w'.board = w.board → Delivered D endpoint w' second fun fuel => next fuel w') :
    Delivered D endpoint w (first ++ second) fun fuel => (run fuel).andThen (next fuel) := by
  have hthen := fun fuel => hnext (run fuel).world (h.board fuel)
  constructor
  · intro fuel
    by_cases hstatus : (run fuel).status = .ended
    · rw [andThen_ended hstatus, (hthen fuel).board fuel, h.board fuel]
    · rw [andThen_other hstatus, h.board fuel]
  · intro fuel
    obtain ⟨writes, hwrites, hoffers, hpast, hall⟩ := h.sends fuel
    by_cases hstatus : (run fuel).status = .ended
    · obtain ⟨writes', hwrites', hoffers', hpast', hall'⟩ := (hthen fuel).sends fuel
      rw [andThen_ended hstatus]
      refine ⟨writes ++ writes', ?_, ?_, ?_, ?_⟩
      · rw [hwrites', hwrites, List.append_assoc]
      · exact List.forall_mem_append.2 ⟨hoffers, hoffers'⟩
      · rw [taken_append, hall hstatus]
        exact (List.prefix_append_right_inj first).2 hpast'
      · intro hstatus'
        rw [taken_append, hall hstatus, hall' hstatus']
    · rw [andThen_other hstatus]
      exact ⟨writes, hwrites, hoffers, hpast.trans (List.prefix_append first second),
        fun hcontra => absurd hcontra hstatus⟩
  · intro fuel message
    by_cases hstatus : (run fuel).status = .ended
    · rw [andThen_ended hstatus]
      exact (hthen fuel).safe fuel message
    · rw [andThen_other hstatus]
      exact h.safe fuel message
  · intro fuel more hboth
    by_cases hstatus : (run fuel).status = .ended
    · have hsame := h.steady fuel more hstatus
      have hstatus' : (run (fuel + more)).status = .ended := by
        rw [hsame, hstatus]
      rw [andThen_ended hstatus] at hboth
      rw [andThen_ended hstatus, andThen_ended hstatus', hsame]
      exact (hthen fuel).steady fuel more hboth
    · rw [andThen_other hstatus] at hboth
      exact absurd hboth hstatus
  · intro hlive
    obtain ⟨fuel, hstatus⟩ := h.returns hlive
    obtain ⟨fuel', hstatus'⟩ := (hthen fuel).returns hlive
    have hfirst := h.steady fuel fuel' hstatus
    have hsecond := (hthen fuel).steady fuel' fuel hstatus'
    refine ⟨fuel + fuel', ?_⟩
    rw [andThen_ended (by rw [hfirst, hstatus]), hfirst, Nat.add_comm]
    exact (congrArg Result.status hsecond).trans hstatus'

end Delivery

section Loop
variable {σ : Type} {D : Endpoint → UartDevice σ} {endpoint : Endpoint}

theorem writeLoop_nil (fuel : ℕ) (w : World σ) :
    writeLoop D endpoint fuel [] w = ⟨.ended, w⟩ := by
  cases fuel <;> rfl

/-- What a write leaves to be done, in which state. -/
theorem writeLoop_succ (hwithin : (D endpoint).Within) {src : List Byte} (hsome : src ≠ [])
    (w : World σ) :
    ∃ sent w', sent = ((D endpoint).write (w.devices endpoint) (src.take 65535)).1 ∧
      sent ≤ (src.take 65535).length ∧ w'.board = w.board ∧
      w'.devices endpoint = ((D endpoint).write (w.devices endpoint) (src.take 65535)).2 ∧
      w'.writes = w.writes ++ [(endpoint, src.take 65535, sent)] ∧
      ∀ fuel, writeLoop D endpoint (fuel + 1) src w =
        writeLoop D endpoint fuel (src.drop sent) w' := by
  obtain ⟨c, rest, rfl⟩ := List.exists_cons_of_ne_nil hsome
  have hle := hwithin (w.devices endpoint) ((c :: rest).take 65535)
  obtain ⟨sent, hsent⟩ : ∃ sent,
      sent = ((D endpoint).write (w.devices endpoint) ((c :: rest).take 65535)).1 := ⟨_, rfl⟩
  obtain ⟨w', hw'⟩ : ∃ w', w' = offer D endpoint ((c :: rest).take 65535) w := ⟨_, rfl⟩
  have hstate : w'.devices endpoint =
      ((D endpoint).write (w.devices endpoint) ((c :: rest).take 65535)).2 := by
    rw [hw']
    exact Function.update_self ..
  have hwrites : w'.writes = w.writes ++ [(endpoint, (c :: rest).take 65535, sent)] := by
    rw [hw', hsent]
    rfl
  have hboard : w'.board = w.board := by
    rw [hw']
    rfl
  have hloop : ∀ fuel, writeLoop D endpoint (fuel + 1) (c :: rest) w =
      if sent = 0 then writeLoop D endpoint fuel (c :: rest) { w' with waits := w'.waits + 1 }
      else writeLoop D endpoint fuel ((c :: rest).drop sent) w' := by
    intro fuel
    rw [writeLoop, if_neg (Nat.not_lt.2 hle), ← hsent, ← hw']
    exact List.cons_ne_nil c rest
  rw [← hsent] at hle
  by_cases hnone : sent = 0
  · refine ⟨sent, { w' with waits := w'.waits + 1 }, hsent, hle, hboard, hstate, hwrites, ?_⟩
    intro fuel
    rw [hloop fuel, if_pos hnone, hnone, List.drop_zero]
  · refine ⟨sent, w', hsent, hle, hboard, hstate, hwrites, ?_⟩
    intro fuel
    rw [hloop fuel, if_neg hnone]

/-- A piece of at most 65535 bytes at the head of what is left. -/
theorem prefix_piece {src : List Byte} {sent : ℕ} (hle : sent ≤ (src.take 65535).length) :
    (src.take 65535).take sent = src.take sent := by
  rw [List.length_take] at hle
  rw [List.take_take, Nat.min_eq_left (by omega)]

theorem writeLoop_sends (hwithin : (D endpoint).Within) (fuel : ℕ) (src : List Byte)
    (w : World σ) :
    (writeLoop D endpoint fuel src w).world.board = w.board ∧
    (∃ writes, (writeLoop D endpoint fuel src w).world.writes = w.writes ++ writes ∧
      (∀ write ∈ writes, write.1 = endpoint ∧ write.2.1 ≠ [] ∧ write.2.1.length ≤ 65535) ∧
      taken writes <+: src ∧
      ((writeLoop D endpoint fuel src w).status = .ended → taken writes = src)) ∧
    ∀ message, (writeLoop D endpoint fuel src w).status ≠ .failed message := by
  induction fuel generalizing src w with
  | zero =>
    have hnone : ∀ write ∈ ([] : List (Endpoint × List Byte × ℕ)), write.1 = endpoint ∧
        write.2.1 ≠ [] ∧ write.2.1.length ≤ 65535 := by
      intro write hwrite
      cases hwrite
    cases src with
    | nil => exact ⟨rfl, ⟨[], (List.append_nil _).symm, hnone, List.prefix_rfl, fun _ => rfl⟩,
        fun _ h => by cases h⟩
    | cons c src => exact ⟨rfl, ⟨[], (List.append_nil _).symm, hnone, List.nil_prefix,
        fun h => by cases h⟩, fun _ h => by cases h⟩
  | succ fuel ih =>
    rcases eq_or_ne src [] with rfl | hsome
    · have h := delivered_nothing D endpoint w
      rw [writeLoop_nil]
      exact ⟨h.board 0, h.sends 0, h.safe 0⟩
    · obtain ⟨sent, w', -, hle, hboard, -, hwrites, hloop⟩ :=
        writeLoop_succ hwithin hsome w
      obtain ⟨hboard', ⟨writes, hwrites', hoffers, hpast, hall⟩, hsafe⟩ := ih (src.drop sent) w'
      rw [hloop fuel]
      refine ⟨hboard'.trans hboard,
        ⟨(endpoint, src.take 65535, sent) :: writes, ?_, ?_, ?_, ?_⟩, hsafe⟩
      · rw [hwrites', hwrites, List.append_assoc]
        rfl
      · intro write hwrite
        rcases List.mem_cons.1 hwrite with rfl | hin
        · refine ⟨rfl, ?_, List.length_take_le 65535 src⟩
          intro hnone
          exact hsome ((List.take_eq_nil_iff.1 hnone).resolve_left (by omega))
        · exact hoffers write hin
      · change (src.take 65535).take sent ++ taken writes <+: src
        rw [prefix_piece hle]
        have happend := (List.prefix_append_right_inj (src.take sent)).2 hpast
        rwa [List.take_append_drop] at happend
      · intro hended
        change (src.take 65535).take sent ++ taken writes = src
        rw [prefix_piece hle, hall hended, List.take_append_drop]

theorem writeLoop_steady (hwithin : (D endpoint).Within) (fuel more : ℕ) (src : List Byte)
    (w : World σ) (hended : (writeLoop D endpoint fuel src w).status = .ended) :
    writeLoop D endpoint (fuel + more) src w = writeLoop D endpoint fuel src w := by
  induction fuel generalizing src w with
  | zero =>
    cases src with
    | nil => rw [writeLoop_nil, writeLoop_nil]
    | cons c src => cases hended
  | succ fuel ih =>
    rcases eq_or_ne src [] with rfl | hsome
    · rw [writeLoop_nil, writeLoop_nil]
    · obtain ⟨sent, w', -, -, -, -, -, hloop⟩ := writeLoop_succ hwithin hsome w
      rw [hloop fuel] at hended
      rw [Nat.add_right_comm, hloop, hloop]
      exact ih (src.drop sent) w' hended

/-- A device that takes bytes now and then takes all of them. -/
theorem writeLoop_returns (hwithin : (D endpoint).Within) (hlive : (D endpoint).Live)
    (src : List Byte) (w : World σ) :
    ∃ fuel, (writeLoop D endpoint fuel src w).status = .ended := by
  induction hlength : src.length using Nat.strong_induction_on generalizing src w with
  | _ length ih =>
    rcases eq_or_ne src [] with rfl | hsome
    · refine ⟨0, ?_⟩
      rw [writeLoop_nil]
    · have hpiece : src.take 65535 ≠ [] := by
        intro hnone
        exact hsome ((List.take_eq_nil_iff.1 hnone).resolve_left (by omega))
      -- on the number of times that the device refuses the piece from here on
      obtain ⟨n, hn⟩ := hlive (w.devices endpoint) (src.take 65535) hpiece
      induction n generalizing w with
      | zero =>
        obtain ⟨sent, w', hsent, hle, -, -, -, hloop⟩ := writeLoop_succ hwithin hsome w
        have hpos : 0 < sent := by
          rw [hsent]
          exact hn
        rw [List.length_take] at hle
        obtain ⟨fuel, hended⟩ := ih (src.drop sent).length
          (by rw [List.length_drop]; omega) (src.drop sent) w' rfl
        exact ⟨fuel + 1, (congrArg Result.status (hloop fuel)).trans hended⟩
      | succ n ihn =>
        obtain ⟨sent, w', hsent, hle, -, hstate, -, hloop⟩ := writeLoop_succ hwithin hsome w
        obtain ⟨fuel, hended⟩ : ∃ fuel,
            (writeLoop D endpoint fuel (src.drop sent) w').status = .ended := by
          rcases Nat.eq_zero_or_pos sent with rfl | hpos
          · rw [List.drop_zero]
            apply ihn w'
            rw [hstate]
            exact hn
          · rw [List.length_take] at hle
            exact ih (src.drop sent).length (by rw [List.length_drop]; omega) (src.drop sent) w' rfl
        exact ⟨fuel + 1, (congrArg Result.status (hloop fuel)).trans hended⟩

end Loop

section Calls
variable {σ : Type} {D : Endpoint → UartDevice σ} {endpoint : Endpoint} {uart : ℕ} {w : World σ}

theorem enabledIndex_of_device {b : Board} {transmit : Bool}
    (h : uartDevice b uart transmit = .ok endpoint) :
    enabledIndex b uart = .ok () ∧ b.uartState uart = .ok (b.uarts uart) := by
  unfold uartDevice at h
  obtain ⟨state, hstate, h⟩ := bind_ok.mp h
  obtain ⟨henabled, -⟩ := check_bind_ok.mp h
  have hvalid := hstate
  unfold Board.uartState at hvalid
  obtain ⟨hindex, hvalid⟩ := check_bind_ok.mp hvalid
  obtain rfl := pure_ok.mp hvalid
  refine ⟨?_, hstate⟩
  rw [enabledIndex, check_bind_ok]
  refine ⟨hindex, ?_⟩
  rw [hstate]
  exact check_ok.2 henabled

variable (hroute : uartDevice w.board uart true = .ok endpoint) (hwithin : (D endpoint).Within)
include hroute hwithin

theorem uartWriteBlocking_delivered (src : List Byte) :
    Delivered D endpoint w src fun fuel =>
      uartWriteBlocking D fuel uart (some src) src.length w := by
  have hrun : ∀ fuel, uartWriteBlocking D fuel uart (some src) src.length w =
      writeLoop D endpoint fuel src w := by
    intro fuel
    rw [uartWriteBlocking, (enabledIndex_of_device hroute).1]
    change (if src.length = 0 then _ else orFail w (check (true = true) _) _) = _
    split
    · rename_i hnone
      rw [List.length_eq_zero_iff.1 hnone, writeLoop_nil]
    · rw [hroute]
      change writeLoop D endpoint fuel (src.take src.length) w = _
      rw [List.take_length]
  simp only [hrun]
  constructor
  · intro fuel
    exact (writeLoop_sends hwithin fuel src w).1
  · intro fuel
    exact (writeLoop_sends hwithin fuel src w).2.1
  · intro fuel
    exact (writeLoop_sends hwithin fuel src w).2.2
  · intro fuel more
    exact writeLoop_steady hwithin fuel more src w
  · intro hlive
    exact writeLoop_returns hwithin hlive src w

theorem uartPutcRaw_delivered (c : Byte) :
    Delivered D endpoint w [c] fun fuel => uartPutcRaw D fuel uart c w :=
  uartWriteBlocking_delivered hroute hwithin [c]

theorem uartPutc_delivered (c : Byte) :
    Delivered D endpoint w
      (if (w.board.uarts uart).translateCrLf = true ∧ c = lf then [cr, c] else [c])
      fun fuel => uartPutc D fuel uart c w := by
  have hrun : ∀ fuel, uartPutc D fuel uart c w =
      if c = lf ∧ (w.board.uarts uart).translateCrLf = true then
        (uartPutcRaw D fuel uart cr w).andThen (uartPutcRaw D fuel uart c)
      else uartPutcRaw D fuel uart c w := by
    intro fuel
    rw [uartPutc, (enabledIndex_of_device hroute).1, (enabledIndex_of_device hroute).2]
    rfl
  simp only [hrun]
  by_cases hconvert : (w.board.uarts uart).translateCrLf = true ∧ c = lf
  · simp only [if_pos hconvert, if_pos hconvert.symm]
    have hnext : ∀ w', w'.board = w.board →
        Delivered D endpoint w' [c] fun fuel => uartPutcRaw D fuel uart c w' := by
      intro w' hboard
      rw [← hboard] at hroute
      exact uartPutcRaw_delivered hroute hwithin c
    exact (uartPutcRaw_delivered hroute hwithin cr).andThen hnext
  · have hplain : ¬ (c = lf ∧ (w.board.uarts uart).translateCrLf = true) :=
      fun hboth => hconvert hboth.symm
    simp only [if_neg hconvert, if_neg hplain]
    exact uartPutcRaw_delivered hroute hwithin c

end Calls

section Strings
variable {σ : Type} {D : Endpoint → UartDevice σ} {endpoint : Endpoint} {uart : ℕ} {w : World σ}

/-- A string as it has to go out, after a carriage return or not. -/
def translatedAfter (translate : Bool) : Bool → List Byte → List Byte
  | _, [] => []
  | lastWasCr, c :: s =>
      (if translate = true ∧ c = lf ∧ lastWasCr = false then [cr, c] else [c]) ++
        translatedAfter translate (c = cr) s

theorem getD_last (before rest : List Byte) :
    (0 < before.length ∧ (before ++ rest).getD (before.length - 1) 0 = cr) ↔
      before.getLast? = some cr := by
  rcases List.eq_nil_or_concat before with rfl | ⟨init, last, rfl⟩
  · simp
  · rw [List.concat_eq_append, List.getLast?_append, List.getLast?_singleton, Option.some_or,
      Option.some_inj, List.append_assoc, List.length_append, List.length_singleton,
      Nat.add_sub_cancel, List.getD_append_right _ _ _ _ le_rfl, Nat.sub_self]
    exact and_iff_right (Nat.succ_pos _)

/-- The places of the rest of a string. -/
theorem translatedAfter_eq (translate : Bool) (before rest : List Byte) (lastWasCr : Bool)
    (hlast : lastWasCr = true ↔ before.getLast? = some cr) :
    (List.range rest.length).flatMap
      (fun i => converted translate (before ++ rest) (before.length + i)) =
        translatedAfter translate lastWasCr rest := by
  induction rest generalizing before lastWasCr with
  | nil => rfl
  | cons c rest ih =>
    have hrest := ih (before ++ [c]) (c = cr) (by
      rw [decide_eq_true_eq, List.getLast?_append, List.getLast?_singleton, Option.some_or,
        Option.some_inj])
    rw [List.length_cons, List.range_succ_eq_map, List.flatMap_cons, List.flatMap_map,
      translatedAfter, ← hrest]
    congr 1
    · have hhere : (before ++ c :: rest).getD before.length 0 = c := by
        rw [List.getD_append_right _ _ _ _ le_rfl, Nat.sub_self]
        rfl
      have hprevious := getD_last before (c :: rest)
      simp only [Nat.add_zero, converted, hhere, hprevious, ← hlast, Bool.not_eq_true]
    · apply List.flatMap_congr
      intro i _
      rw [List.append_assoc, List.singleton_append, List.length_append, List.length_singleton,
        Nat.add_assoc, Nat.add_comm 1]

theorem translated_eq (translate : Bool) (s : List Byte) :
    translated translate s = translatedAfter translate false s := by
  have hwhole := translatedAfter_eq translate [] s false (by simp)
  simp only [List.nil_append, List.length_nil, Nat.zero_add] at hwhole
  exact hwhole

/-- The loop over a string ends at its terminator. -/
theorem putsLoop_terminated (fuel : ℕ) (lastWasCr : Bool) (s : List Byte) (w : World σ) :
    putsLoop D fuel uart lastWasCr s w =
      putsLoop D fuel uart lastWasCr (s.takeWhile (· ≠ 0)) w := by
  induction s generalizing lastWasCr w with
  | nil => rfl
  | cons c s ih =>
    rw [putsLoop]
    split
    · rename_i hzero
      rw [hzero]
      rfl
    · rename_i hsome
      rw [List.takeWhile_cons_of_pos (by simpa using hsome), putsLoop, if_neg hsome]
      congr 1
      funext w'
      exact ih _ w'

theorem putsLoop_delivered (hwithin : (D endpoint).Within) (lastWasCr : Bool) {s : List Byte}
    (hzero : ∀ c ∈ s, c ≠ 0) (w : World σ)
    (hroute : uartDevice w.board uart true = .ok endpoint) :
    Delivered D endpoint w (translatedAfter (w.board.uarts uart).translateCrLf lastWasCr s)
      fun fuel => putsLoop D fuel uart lastWasCr s w := by
  induction s generalizing lastWasCr w with
  | nil => exact delivered_nothing D endpoint w
  | cons c s ih =>
    have hrest : ∀ w', w'.board = w.board → Delivered D endpoint w'
        (translatedAfter (w.board.uarts uart).translateCrLf (c = cr) s)
        fun fuel => putsLoop D fuel uart (c = cr) s w' := by
      intro w' hboard
      rw [← hboard] at hroute ⊢
      exact ih _ (fun d hd => hzero d (List.mem_cons_of_mem c hd)) w' hroute
    simp only [putsLoop, if_neg (hzero c List.mem_cons_self)]
    refine Delivered.andThen ?_ hrest
    cases lastWasCr with
    | true => simpa using uartPutcRaw_delivered hroute hwithin c
    | false => simpa using uartPutc_delivered hroute hwithin c

/-- Output in any calls of a device: `uart_write_blocking` delivers its bytes, and `uart_puts` its
string up to the terminator, with a carriage return in front of every line feed that has none, if
they are wanted. -/
theorem output_delivered (hroute : uartDevice w.board uart true = .ok endpoint)
    (hwithin : (D endpoint).Within) (src s : List Byte) :
    (Delivered D endpoint w src fun fuel =>
      uartWriteBlocking D fuel uart (some src) src.length w) ∧
    Delivered D endpoint w
      (translated (w.board.uarts uart).translateCrLf (s.takeWhile (· ≠ 0)))
      fun fuel => uartPuts D fuel uart (some s) w := by
  refine ⟨uartWriteBlocking_delivered hroute hwithin src, ?_⟩
  have hrun : ∀ fuel, uartPuts D fuel uart (some s) w =
      putsLoop D fuel uart false (s.takeWhile (· ≠ 0)) w := by
    intro fuel
    rw [← putsLoop_terminated, uartPuts, (enabledIndex_of_device hroute).1]
    rfl
  simp only [hrun, translated_eq]
  apply putsLoop_delivered hwithin
  · intro c hc
    simpa using List.mem_takeWhile_imp hc
  · exact hroute

end Strings

/-- A device that takes a given number of bytes of each write. -/
def counting (counts : ℕ → ℕ) : UartDevice ℕ where
  write n bytes := (min (counts n) bytes.length, n + 1)

theorem counting_within (counts : ℕ → ℕ) : (counting counts).Within :=
  fun n bytes => Nat.min_le_right (counts n) bytes.length

/-- It is live exactly when it never takes nothing for ever. -/
theorem counting_live_iff (counts : ℕ → ℕ) :
    (counting counts).Live ↔ ∀ k, ∃ n, k ≤ n ∧ 0 < counts n := by
  have hlater : ∀ (bytes : List Byte) (n k : ℕ),
      (fun k => ((counting counts).write k bytes).2)^[n] k = k + n := by
    intro bytes n
    induction n with
    | zero => exact fun k => rfl
    | succ n ih =>
      intro k
      rw [Function.iterate_succ_apply, ih]
      exact Nat.add_right_comm k 1 n
  constructor
  · intro hlive k
    obtain ⟨n, hn⟩ := hlive k [0] (List.cons_ne_nil _ _)
    rw [hlater] at hn
    exact ⟨k + n, Nat.le_add_right k n, Nat.lt_of_lt_of_le hn (Nat.min_le_left ..)⟩
  · intro hcounts k bytes hsome
    obtain ⟨n, hle, hpos⟩ := hcounts k
    refine ⟨n - k, ?_⟩
    rw [hlater, Nat.add_sub_cancel' hle]
    exact Nat.lt_min.2 ⟨hpos, List.length_pos_iff.2 hsome⟩

/-- The console of the host on the first pin, with conversion. -/
def consoleBoard : Board :=
  { initial with
    pins := Function.update initial.pins 0 { initial.pins 0 with function := .uart }
    uarts := fun _ => ⟨true, 115200, true⟩ }

/-- Every third write is refused. -/
def consoleWorld : World ℕ := ⟨consoleBoard, fun _ => 0, [], 0⟩

theorem output_delivered_console :
    (Delivered (fun _ => counting (· % 3)) .console consoleWorld [72, 105] fun fuel =>
      uartWriteBlocking (fun _ => counting (· % 3)) fuel 0 (some [72, 105]) 2 consoleWorld) ∧
    Delivered (fun _ => counting (· % 3)) .console consoleWorld [72, 13, 10, 105, 13, 10]
      fun fuel => uartPuts (fun _ => counting (· % 3)) fuel 0 (some [72, 10, 105, 13, 10, 0, 72])
        consoleWorld :=
  output_delivered (by rfl) (counting_within _) [72, 105] [72, 10, 105, 13, 10, 0, 72]

end RooTesting.PicoUart
