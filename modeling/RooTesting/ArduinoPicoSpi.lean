import RooTesting.IdfSpi
import RooTesting.PicoSpi
import RooTesting.Transition

/-! # The bit order of the Arduino-Pico SPI

The controller sends the high bit of a byte first, so that for the other order every byte is
reversed on its way out and on its way in. A transfer without a transaction begins one of its own,
with the default settings, after `transfer16` has ordered its two bytes. -/
namespace RooTesting.ArduinoPicoSpi
open Transition
open Esp32Spi (Byte)
open IdfSpi (load store)

inductive BitOrder | lsbFirst | msbFirst
  deriving DecidableEq

/-- `SPISettings`, apart from the rate. -/
structure Settings where
  bitOrder : BitOrder := .msbFirst
  dataMode : ℕ := 0
  deriving DecidableEq

/-- `spi_write_read_blocking` on what is attached: a byte comes in for each that goes out, and
devices are called for at most 256 bytes, also when there are more. -/
structure Bus (σ : Type) where
  exchange : σ → List Byte → List Byte × σ
  length_eq : ∀ s bytes, (exchange s bytes).1.length = bytes.length
  nothing : ∀ s, exchange s [] = ([], s)
  serial : ∀ s first second, first.length = 256 → exchange s (first ++ second) =
    ((exchange s first).1 ++ (exchange (exchange s first).2 second).1,
      (exchange (exchange s first).2 second).2)

/-- The object, the memory of its callers, and the bytes that went over the wires. -/
structure State (σ : Type) where
  running : Bool := false
  initted : Bool := false
  spis : Settings := {}
  cells : ℕ → Byte
  bus : σ
  wire : List Byte := []
  received : List Byte := []

def reverseByte (b : Byte) : Byte :=
  let b := (b &&& 0xF0) >>> 4 ||| (b &&& 0x0F) <<< 4
  let b := (b &&& 0xCC) >>> 2 ||| (b &&& 0x33) <<< 2
  (b &&& 0xAA) >>> 1 ||| (b &&& 0x55) <<< 1

/-- A byte as the controller has to send it, or has received it. -/
def wireByte (order : BitOrder) (b : Byte) : Byte := if order = .lsbFirst then reverseByte b else b

/-- The bytes to send; without a buffer they are zero. -/
def txBytes (cells : ℕ → Byte) (tx : Option ℕ) (offset size : ℕ) : List Byte :=
  match tx with
  | none => List.replicate size 0
  | some start => load cells (start + offset) size

def rxStore (cells : ℕ → Byte) (rx : Option ℕ) (offset : ℕ) (bytes : List Byte) : ℕ → Byte :=
  match rx with
  | none => cells
  | some start => store cells (start + offset) bytes

section Calls
variable {σ : Type} (bus : Bus σ) (s : State σ)

def spiBegin : State σ := if s.running then s else { s with running := true }

def spiEnd : State σ :=
  if s.running then
    { s with
      running := false
      initted := false }
  else s

def beginTransaction (settings : Settings) : Option (State σ) :=
  if s.running = true ∧ settings.dataMode ≤ 3 then
    some { s with
      spis := settings
      initted := true }
  else none

def setBitOrder (order : BitOrder) : Option (State σ) :=
  beginTransaction s { s.spis with bitOrder := order }

def setDataMode (mode : ℕ) : Option (State σ) := beginTransaction s { s.spis with dataMode := mode }

def setClockDivider (divider : ℕ) : Option (State σ) :=
  if divider = 0 then none else beginTransaction s s.spis

/-- One turn of the loop over the chunks. -/
def chunk (tx rx : Option ℕ) (offset size : ℕ) : State σ :=
  let outgoing := (txBytes s.cells tx offset size).map (wireByte s.spis.bitOrder)
  let incoming := bus.exchange s.bus outgoing
  { s with
    cells := rxStore s.cells rx offset (incoming.1.map (wireByte s.spis.bitOrder))
    bus := incoming.2
    wire := s.wire ++ outgoing
    received := s.received ++ incoming.1 }

/-- The loop, with chunks of `limit` bytes and no more turns than there are bytes. -/
def chunks (limit : ℕ) (tx rx : Option ℕ) (count : ℕ) : ℕ → ℕ → State σ → State σ
  | 0, _, s => s
  | turns + 1, offset, s =>
      if offset < count then
        let size := min (count - offset) limit
        chunks limit tx rx count turns (offset + size) (chunk bus s tx rx offset size)
      else s

/-- `transfer` of a buffer. -/
def transfer (tx rx : Option ℕ) (count : ℕ) : Option (State σ) :=
  if s.running = false then none
  else
    (if s.initted then some s else beginTransaction s {}).map fun s =>
      chunks bus 256 tx rx count count 0 s

/-- A transfer of local variables, from the cell 0 on; the caller's memory is left. -/
def transferLocal (bytes : List Byte) (rx count : ℕ) : Option (State σ × List Byte) :=
  (transfer bus { s with cells := store (fun _ => 0) 0 bytes } (some 0) (some rx) count).map
    fun s' => ({ s' with cells := s.cells }, load s'.cells rx count)

/-- `transfer` of a byte, into a second variable. -/
def transferByte (byte : Byte) : Option (State σ × Byte) :=
  (transferLocal bus s [byte] 1 1).map fun r => (r.1, r.2.getD 0 0)

def transfer16 (word : BitVec 16) : Option (State σ × BitVec 16) :=
  let low := word.setWidth 8
  let high := (word >>> 8).setWidth 8
  let bytes := if s.spis.bitOrder = .lsbFirst then [low, high] else [high, low]
  (transferLocal bus s bytes 0 2).map fun r =>
    let first : BitVec 16 := (r.2.getD 0 0).setWidth 16
    let second : BitVec 16 := (r.2.getD 1 0).setWidth 16
    (r.1, if r.1.spis.bitOrder = .lsbFirst then first ||| second <<< 8
      else first <<< 8 ||| second)

end Calls

inductive Call
  | spiBegin
  | spiEnd
  | beginTransaction (settings : Settings)
  | endTransaction
  | setBitOrder (order : BitOrder)
  | setDataMode (mode : ℕ)
  | setClockDivider (divider : ℕ)
  | transfer (tx rx : Option ℕ) (count : ℕ)
  | transferByte (byte : Byte)
  | transfer16 (word : BitVec 16)
  deriving DecidableEq

/-- A call that passes the checks; `endTransaction` only gives the controller back. -/
def step {σ : Type} (bus : Bus σ) (s : State σ) : Call → Option (State σ)
  | .spiBegin => some (spiBegin s)
  | .spiEnd => some (spiEnd s)
  | .beginTransaction settings => beginTransaction s settings
  | .endTransaction => some s
  | .setBitOrder order => setBitOrder s order
  | .setDataMode mode => setDataMode s mode
  | .setClockDivider divider => setClockDivider s divider
  | .transfer tx rx count => transfer bus s tx rx count
  | .transferByte byte => (transferByte bus s byte).map (·.1)
  | .transfer16 word => (transfer16 bus s word).map (·.1)

/-- The order in force for a transfer: that of the last transaction of the session, or the default
one of the transaction that the transfer begins. -/
def State.inForce {σ : Type} (s : State σ) : BitOrder :=
  if s.initted then s.spis.bitOrder else .msbFirst

/-- The buffers are one and the same, or do not meet. -/
def Apart (tx rx : Option ℕ) (count : ℕ) : Prop :=
  ∀ a ∈ tx, ∀ b ∈ rx, a = b ∨ a + count ≤ b ∨ b + count ≤ a

/-- The bit of some bytes that is on the wire at a place. -/
def wireBit (bytes : List Byte) (j : ℕ) : Bool := (bytes.getD (j / 8) 0).getLsbD (7 - j % 8)

/-- The bit of a word that belongs there. -/
def wordBit (order : BitOrder) (word : BitVec 16) (j : ℕ) : Bool :=
  word.getLsbD (if order = .lsbFirst then j else 15 - j)

def OnWire (order : BitOrder) (bytes : List Byte) (word : BitVec 16) : Prop :=
  bytes.length = 2 ∧ ∀ j < 16, wireBit bytes j = wordBit order word j

/-- Some bytes have been exchanged at once. -/
structure Exchanged {σ : Type} (bus : Bus σ) (s s' : State σ) (sent got : List Byte) : Prop where
  exchange : bus.exchange s.bus sent = (got, s'.bus)
  wire : s'.wire = s.wire ++ sent
  received : s'.received = s.received ++ got

/-- What the transfers have to do. -/
def Served {σ : Type} (bus : Bus σ) (s : State σ) : Call → Prop
  | .transfer tx rx count => Apart tx rx count → ∀ s', transfer bus s tx rx count = some s' →
      ∃ got, Exchanged bus s s' ((txBytes s.cells tx 0 count).map (wireByte s.inForce)) got ∧
        s'.cells = rxStore s.cells rx 0 (got.map (wireByte s.inForce))
  | .transferByte byte => ∀ s' result, transferByte bus s byte = some (s', result) →
      ∃ got, Exchanged bus s s' [wireByte s.inForce byte] [got] ∧
        result = wireByte s.inForce got ∧ s'.cells = s.cells
  | .transfer16 word => ∀ s' result, transfer16 bus s word = some (s', result) →
      ∃ sent got, Exchanged bus s s' sent got ∧ OnWire s.inForce sent word ∧
        OnWire s.inForce got result ∧ s'.cells = s.cells
  | _ => True

/-- A word of two different bytes is not sent by a transfer that has to change the order first. -/
def Ordered {σ : Type} (s : State σ) : Call → Prop
  | .transfer16 word => s.running = true → s.initted = false → s.spis.bitOrder = .lsbFirst →
      (word.setWidth 8 : Byte) = (word >>> 8).setWidth 8
  | _ => True

section Memory
variable {cells : ℕ → Byte}

theorem store_nil (cells : ℕ → Byte) (start : ℕ) : store cells start [] = cells := by
  funext a
  unfold store
  split
  · rfl
  · rfl

theorem store_append (cells : ℕ → Byte) (start : ℕ) (first second : List Byte) :
    store (store cells start first) (start + first.length) second =
      store cells start (first ++ second) := by
  funext a
  unfold store
  by_cases hstart : start ≤ a
  · rw [if_pos hstart, if_pos hstart]
    by_cases hfirst : a - start < first.length
    · rw [if_neg (by omega), List.getD_append _ _ _ _ hfirst]
    · have hsub : a - start - first.length = a - (start + first.length) := by omega
      rw [if_pos (by omega), List.getD_append_right _ _ _ _ (by omega), hsub,
        List.getD_eq_default first _ (by omega)]
  · rw [if_neg hstart, if_neg hstart, if_neg (by omega)]

theorem rxStore_nil (cells : ℕ → Byte) (rx : Option ℕ) (offset : ℕ) :
    rxStore cells rx offset [] = cells := by
  cases rx with
  | none => rfl
  | some start => exact store_nil cells (start + offset)

theorem rxStore_append (cells : ℕ → Byte) (rx : Option ℕ) (offset : ℕ) (first second : List Byte) :
    rxStore (rxStore cells rx offset first) rx (offset + first.length) second =
      rxStore cells rx offset (first ++ second) := by
  cases rx with
  | none => rfl
  | some start =>
    change store (store cells (start + offset) first) (start + (offset + first.length)) second = _
    rw [← Nat.add_assoc]
    exact store_append cells (start + offset) first second

theorem length_txBytes (cells : ℕ → Byte) (tx : Option ℕ) (offset size : ℕ) :
    (txBytes cells tx offset size).length = size := by
  cases tx with
  | none => exact List.length_replicate
  | some start => exact IdfSpi.length_load

theorem txBytes_add (cells : ℕ → Byte) (tx : Option ℕ) (offset a b : ℕ) :
    txBytes cells tx offset (a + b) =
      txBytes cells tx offset a ++ txBytes cells tx (offset + a) b := by
  cases tx with
  | none => exact List.replicate_add a b 0
  | some start =>
    change load cells (start + offset) (a + b) =
      load cells (start + offset) a ++ load cells (start + (offset + a)) b
    unfold load
    rw [List.range_add, List.map_append, List.map_map]
    congr 1
    apply List.map_congr_left
    intro k _
    change cells (start + offset + (a + k)) = cells (start + (offset + a) + k)
    congr 1
    omega

variable (cells) in
/-- What has come in does not touch the bytes still to be sent. -/
theorem txBytes_stored {tx rx : Option ℕ} {count : ℕ} (happart : Apart tx rx count) {offset b : ℕ}
    {bytes : List Byte} (hcount : offset + bytes.length + b ≤ count) :
    txBytes (rxStore cells rx offset bytes) tx (offset + bytes.length) b =
      txBytes cells tx (offset + bytes.length) b := by
  cases tx with
  | none => rfl
  | some start =>
    cases rx with
    | none => rfl
    | some start' =>
      unfold txBytes load rxStore
      apply List.map_congr_left
      intro k hk
      rw [List.mem_range] at hk
      apply IdfSpi.store_outside
      rw [List.mem_range'_1]
      rcases happart start rfl start' rfl with rfl | hbelow | habove
      · omega
      · omega
      · omega

end Memory

section Chunks
variable {σ : Type} {bus : Bus σ} {s : State σ} {tx rx : Option ℕ} {count : ℕ}

theorem chunk_zero (s : State σ) (tx rx : Option ℕ) (offset : ℕ) :
    chunk bus s tx rx offset 0 = s := by
  have hnone : txBytes s.cells tx offset 0 = [] :=
    List.length_eq_zero_iff.1 (length_txBytes s.cells tx offset 0)
  unfold chunk
  simp only [hnone, List.map_nil, bus.nothing, rxStore_nil, List.append_nil]

/-- A full chunk and another one are one. -/
theorem chunk_add (happart : Apart tx rx count) {offset b : ℕ} (hcount : offset + 256 + b ≤ count) :
    chunk bus (chunk bus s tx rx offset 256) tx rx (offset + 256) b =
      chunk bus s tx rx offset (256 + b) := by
  obtain ⟨first, hfirst⟩ : ∃ first, first = bus.exchange s.bus
      ((txBytes s.cells tx offset 256).map (wireByte s.spis.bitOrder)) := ⟨_, rfl⟩
  obtain ⟨second, hsecond⟩ : ∃ second, second = bus.exchange first.2
      ((txBytes s.cells tx (offset + 256) b).map (wireByte s.spis.bitOrder)) := ⟨_, rfl⟩
  have hfull : ((txBytes s.cells tx offset 256).map (wireByte s.spis.bitOrder)).length = 256 := by
    rw [List.length_map, length_txBytes]
  have hlength : (first.1.map (wireByte s.spis.bitOrder)).length = 256 := by
    rw [hfirst, List.length_map, bus.length_eq, hfull]
  have hlater := txBytes_stored s.cells happart (show offset +
    (first.1.map (wireByte s.spis.bitOrder)).length + b ≤ count by omega)
  have hcells := rxStore_append s.cells rx offset (first.1.map (wireByte s.spis.bitOrder))
    (second.1.map (wireByte s.spis.bitOrder))
  rw [hlength] at hlater hcells
  simp only [chunk, ← hfirst, hlater, ← hsecond, txBytes_add s.cells tx offset 256 b,
    List.map_append, bus.serial _ _ _ hfull, List.append_assoc, hcells]

/-- All chunks are one. -/
theorem chunks_eq (happart : Apart tx rx count) (turns : ℕ) {offset : ℕ} (hoffset : offset ≤ count)
    (hturns : count - offset ≤ turns) (s : State σ) :
    chunks bus 256 tx rx count turns offset s = chunk bus s tx rx offset (count - offset) := by
  induction turns generalizing offset s with
  | zero =>
    rw [chunks, show count - offset = 0 by omega, chunk_zero]
  | succ turns ih =>
    rw [chunks]
    split
    · rename_i hmore
      rw [ih (by omega) (by omega)]
      rcases Nat.lt_or_ge 256 (count - offset) with hfull | hlast
      · have hall : 256 + (count - (offset + 256)) = count - offset := by omega
        rw [Nat.min_eq_right hfull.le, chunk_add happart (by omega), hall]
      · rw [Nat.min_eq_left hlast, show count - (offset + (count - offset)) = 0 by omega,
          chunk_zero]
    · rw [show count - offset = 0 by omega, chunk_zero]

end Chunks

section Routes
open PicoBoard (SpiState)
open PicoSpi (World Request SpiRoute replyTo)
variable {σ : Type} (F : ℕ → Esp32Spi.Behaviour σ) (route : SpiRoute)

/-- The states of the devices after a call of each device of the route. -/
def called (devices : ℕ → σ) (bytes : List Byte) (d : ℕ) : σ :=
  if d ∈ route.devices then ((F d).transfer (devices d) bytes (bytes.length * 8)).2
  else devices d

/-- The devices of a route, called for 256 bytes at a time. -/
def routed (devices : ℕ → σ) (bytes : List Byte) : List Byte × (ℕ → σ) :=
  if _h : bytes = [] then ([], devices)
  else
    let here := bytes.take 256
    let rest := routed (called F route devices here) (bytes.drop 256)
    (replyTo F route devices here ++ rest.1, rest.2)
termination_by bytes.length
decreasing_by
  have hpos := List.length_pos_iff.2 _h
  rw [List.length_drop]
  omega

theorem routed_nil (devices : ℕ → σ) : routed F route devices [] = ([], devices) := by
  rw [routed, dif_pos rfl]

/-- A chunk, and what is left when it is full. -/
theorem routed_append (devices : ℕ → σ) {here : List Byte} (hsome : here ≠ [])
    (later : List Byte) (hchunk : here.length = 256 ∨ here.length < 256 ∧ later = []) :
    routed F route devices (here ++ later) =
      (replyTo F route devices here ++ (routed F route (called F route devices here) later).1,
        (routed F route (called F route devices here) later).2) := by
  have htake : (here ++ later).take 256 = here := by
    rcases hchunk with hfull | ⟨hshort, rfl⟩
    · exact List.take_left' hfull
    · rw [List.append_nil]
      exact List.take_of_length_le hshort.le
  have hdrop : (here ++ later).drop 256 = later := by
    rcases hchunk with hfull | ⟨hshort, rfl⟩
    · exact List.drop_left' hfull
    · rw [List.append_nil]
      exact List.drop_of_length_le hshort.le
  rw [routed, dif_neg (List.append_ne_nil_of_left_ne_nil hsome later)]
  simp only [htake, hdrop]

theorem length_routed (devices : ℕ → σ) (bytes : List Byte) :
    (routed F route devices bytes).1.length = bytes.length := by
  fun_induction routed F route devices bytes with
  | case1 devices => rfl
  | case2 devices bytes hsome here rest ih =>
    rw [List.length_append, PicoSpi.length_replyTo, ih, ← List.length_append,
      List.take_append_drop]

def routeBus : Bus (ℕ → σ) where
  exchange := routed F route
  length_eq := length_routed F route
  nothing := routed_nil F route
  serial devices first second hfull := by
    have hsome : first ≠ [] := by
      rintro rfl
      cases hfull
    have halone := routed_append F route devices hsome [] (Or.inl hfull)
    rw [List.append_nil, routed_nil, List.append_nil] at halone
    rw [routed_append F route devices hsome second (.inl hfull), halone]

variable {F route} {state : SpiState} {r : Request .byte}

theorem length_outgoing (memory : ℕ → PicoSpi.FrameWidth.Word .byte) (offset words : ℕ) :
    (r.outgoing memory offset words).length = words :=
  (PicoSpi.length_outgoing r memory offset words).trans (Nat.one_mul words)

variable (state) in
/-- One chunk of the SDK is one turn of the bus. -/
theorem chunk_routed (hreceive : r.receive = true) (hnodup : route.devices.Nodup)
    (hroute : ∀ device, route.receiver = some device → device ∈ route.devices)
    (offset words elapsed : ℕ) (w : World σ .byte) :
    let outgoing := r.outgoing w.memory offset words
    let w' := PicoSpi.chunk F route state r offset words elapsed w
    w'.devices = called F route w.devices outgoing ∧
      w'.miso = w.miso ++ replyTo F route w.devices outgoing ∧
      w'.memory = PicoSpi.storeWords .byte w.memory (r.dst.getD 0 + offset) words
        (replyTo F route w.devices outgoing) := by
  intro outgoing w'
  have hpass := PicoSpi.passed F route r outgoing route.devices hnodup
    (w, route.idle outgoing.length)
  have hincoming : (route.devices.foldl (PicoSpi.visit F route r.receive outgoing)
      (w, route.idle outgoing.length)).2 = replyTo F route w.devices outgoing := by
    rw [hpass.incoming, replyTo]
    cases hreceiver : route.receiver with
    | none => rfl
    | some device => simp only [hreceive, hroute device hreceiver, and_self, if_true]
  have hstates := funext hpass.states
  have hmiso := hpass.miso
  have hmemory := hpass.memory
  refine ⟨?_, ?_, ?_⟩
  · change (PicoSpi.chunk F route state r offset words elapsed w).devices = _
    rw [PicoSpi.chunk, hreceive]
    rw [hreceive] at hstates
    exact hstates
  · change (PicoSpi.chunk F route state r offset words elapsed w).miso = _
    rw [PicoSpi.chunk, hreceive]
    rw [hreceive] at hmiso hincoming
    change _ ++ _ = _
    rw [← hincoming]
    exact congrArg (· ++ _) hmiso
  · change (PicoSpi.chunk F route state r offset words elapsed w).memory = _
    rw [PicoSpi.chunk, hreceive]
    rw [hreceive] at hmemory hincoming
    rw [← hincoming]
    change PicoSpi.storeWords _ _ (_ + 1 * offset) _ _ = _
    rw [Nat.one_mul]
    exact congrArg (fun memory => PicoSpi.storeWords .byte memory _ _ _) hmemory

variable (state) in
/-- A chunk is at most 256 frames, and the next one starts behind it. -/
theorem chunks_turn {offset : ℕ} (hpos : 0 < r.len - offset) (elapsed : ℕ) (w : World σ .byte) :
    ∃ words elapsed', words = min (r.len - offset) 256 ∧
      PicoSpi.chunks F route state r 256 offset elapsed w =
        PicoSpi.chunks F route state r 256 (offset + words) elapsed'
          (PicoSpi.chunk F route state r offset words elapsed w) := by
  refine ⟨min (r.len - offset) 256, PicoSpi.durationNs (PicoSpi.u64
    ((offset + min (r.len - offset) 256) * state.dataBits)) state.baudrate, rfl, ?_⟩
  rw [PicoSpi.chunks, dif_pos ⟨by omega, by omega⟩]

/-- What a chunk brings in is stored behind what is still to be sent, or apart from it. -/
theorem outgoing_later (hreceive : r.receive = true) (happart : r.Apart) {offset words : ℕ}
    (hle : offset + words ≤ r.len) {w w' : World σ .byte} {incoming : List Byte}
    (hmemory : w'.memory =
      PicoSpi.storeWords .byte w.memory (r.dst.getD 0 + offset) words incoming) :
    r.outgoing w'.memory (offset + words) (r.len - (offset + words)) =
      r.outgoing w.memory (offset + words) (r.len - (offset + words)) := by
  apply PicoSpi.outgoing_congr
  intro i hi hlt
  rw [hmemory]
  have hstored : r.word (PicoSpi.storeWords .byte w.memory (r.dst.getD 0 + 1 * offset) words
      incoming) i = r.word w.memory i :=
    PicoSpi.word_stored happart hreceive hi (by omega) incoming
  rwa [Nat.one_mul] at hstored

/-- A bus that is given a whole chunk first answers it as if nothing followed. -/
theorem exchange_split {offset words remaining : ℕ} (hwords : words = min remaining 256)
    (hpos : 0 < remaining) (memory : ℕ → PicoSpi.FrameWidth.Word .byte)
    (devices : ℕ → σ) :
    let first := r.outgoing memory offset words
    let second := r.outgoing memory (offset + words) (remaining - words)
    (routeBus F route).exchange devices (r.outgoing memory offset remaining) =
      (replyTo F route devices first ++
        ((routeBus F route).exchange (called F route devices first) second).1,
        ((routeBus F route).exchange (called F route devices first) second).2) := by
  intro first second
  have hall : r.outgoing memory offset remaining = first ++ second := by
    rw [← PicoSpi.outgoing_add]
    congr 1
    omega
  have hsome : first ≠ [] := by
    apply List.length_pos_iff.1
    rw [length_outgoing]
    omega
  rw [hall]
  apply routed_append F route devices hsome
  rw [length_outgoing, ← List.length_eq_zero_iff, length_outgoing]
  omega

/-- A transfer of the SDK is an exchange on the bus of its route, with any devices. -/
theorem chunks_routed (hreceive : r.receive = true) (hnodup : route.devices.Nodup)
    (hroute : ∀ device, route.receiver = some device → device ∈ route.devices)
    (happart : r.Apart) (offset elapsed : ℕ) (hoffset : offset ≤ r.len) (w : World σ .byte) :
    let incoming := (routeBus F route).exchange w.devices
      (r.outgoing w.memory offset (r.len - offset))
    let w' := PicoSpi.chunks F route state r 256 offset elapsed w
    w'.devices = incoming.2 ∧ w'.miso = w.miso ++ incoming.1 ∧
      w'.memory = PicoSpi.storeWords .byte w.memory (r.dst.getD 0 + offset) (r.len - offset)
        incoming.1 := by
  induction hremaining : r.len - offset using Nat.strong_induction_on generalizing offset elapsed w
    with
  | _ remaining ih =>
    intro incoming w'
    change (PicoSpi.chunks F route state r 256 offset elapsed w).devices = incoming.2 ∧
      (PicoSpi.chunks F route state r 256 offset elapsed w).miso = w.miso ++ incoming.1 ∧
      (PicoSpi.chunks F route state r 256 offset elapsed w).memory = _
    obtain rfl | hpos := Nat.eq_zero_or_pos remaining
    · rw [PicoSpi.chunks, dif_neg (by omega)]
      have hnone : incoming = ([], w.devices) := routed_nil F route w.devices
      rw [hnone, List.append_nil]
      refine ⟨rfl, rfl, ?_⟩
      symm
      funext a
      exact PicoSpi.storeWords_off .byte _ _ fun i hi => absurd hi (Nat.not_lt_zero i)
    · obtain ⟨words, elapsed', hwords, hstep⟩ := chunks_turn state (hremaining ▸ hpos) elapsed w
      obtain ⟨hdevices, hmiso, hmemory⟩ := chunk_routed state hreceive hnodup hroute
        offset words elapsed w
      obtain ⟨hdevices', hmiso', hmemory'⟩ := ih (r.len - (offset + words)) (by omega)
        (offset + words) elapsed' (by omega) (PicoSpi.chunk F route state r offset words elapsed w)
        rfl
      have hlater := outgoing_later hreceive happart (by omega) hmemory
      have hrest : remaining - words = r.len - (offset + words) := by omega
      have hsplit : incoming = _ :=
        exchange_split (hremaining ▸ hwords) hpos w.memory w.devices
      rw [hlater, hdevices] at hdevices' hmiso' hmemory'
      rw [hrest] at hsplit
      rw [hstep, hsplit]
      refine ⟨hdevices', ?_, ?_⟩
      · rw [hmiso', hmiso, List.append_assoc]
      · rw [hmemory', hmemory]
        have hlength : (replyTo F route w.devices (r.outgoing w.memory offset words)).length =
            PicoSpi.FrameWidth.size .byte * words := by
          rw [PicoSpi.length_replyTo, PicoSpi.length_outgoing]
        have happend := fun later => @PicoSpi.storeWords_append .byte w.memory (r.dst.getD 0 + offset)
          words (r.len - (offset + words)) _ later hlength
        rw [show PicoSpi.FrameWidth.size .byte = 1 from rfl, Nat.one_mul,
          show words + (r.len - (offset + words)) = remaining by omega] at happend
        rw [← Nat.add_assoc]
        exact happend _

end Routes

section Transfers
variable {σ : Type} {bus : Bus σ} {s s' : State σ}

theorem transfer_runs (hrunning : s.running = true) (tx rx : Option ℕ) (count : ℕ) :
    ∃ s', transfer bus s tx rx count = some s' := by
  have hstarted : ¬ s.running = false := by
    rw [hrunning]
    decide
  rw [transfer, if_neg hstarted]
  split
  · exact ⟨_, rfl⟩
  · rw [beginTransaction, if_pos ⟨hrunning, by decide⟩]
    exact ⟨_, rfl⟩

/-- The state that the exchange of a transfer starts from. -/
theorem transfer_eq {tx rx : Option ℕ} {count : ℕ} (happart : Apart tx rx count)
    (h : transfer bus s tx rx count = some s') :
    ∃ settings : Settings, settings.bitOrder = s.inForce ∧
      s' = chunk bus { s with
        spis := settings
        initted := true } tx rx 0 count := by
  have hrunning : s.running ≠ false := by
    intro hstopped
    rw [transfer, if_pos hstopped] at h
    cases h
  rw [transfer, if_neg hrunning, Option.map_eq_some_iff] at h
  obtain ⟨t, ht, rfl⟩ := h
  rw [chunks_eq happart count (Nat.zero_le count) (Nat.sub_le count 0), Nat.sub_zero]
  split at ht
  · rename_i hinitted
    cases ht
    refine ⟨s.spis, ?_, ?_⟩
    · rw [State.inForce, if_pos hinitted]
    · rw [← hinitted]
  · rename_i hinitted
    rw [beginTransaction, if_pos ⟨by simpa using hrunning, by decide⟩] at ht
    cases ht
    refine ⟨{}, ?_, rfl⟩
    rw [State.inForce, if_neg hinitted]

theorem transfer_served (tx rx : Option ℕ) (count : ℕ) : Served bus s (.transfer tx rx count) := by
  intro happart s' h
  obtain ⟨settings, horder, rfl⟩ := transfer_eq happart h
  rw [← horder]
  exact ⟨_, ⟨rfl, rfl, rfl⟩, rfl⟩

theorem load_store (cells : ℕ → Byte) (start : ℕ) (bytes : List Byte) :
    load (store cells start bytes) start bytes.length = bytes := by
  unfold load store
  apply List.ext_getElem
  · rw [List.length_map, List.length_range]
  · intro i hi hlt
    rw [List.getElem_map, List.getElem_range, if_pos (Nat.le_add_right start i),
      Nat.add_sub_cancel_left]
    exact List.getD_eq_getElem bytes _ hlt

/-- Local variables go through a transfer in the order that is in force. -/
theorem transferLocal_eq {bytes : List Byte} {rx : ℕ} {r : State σ × List Byte}
    (happart : Apart (some 0) (some rx) bytes.length)
    (h : transferLocal bus s bytes rx bytes.length = some r) :
    ∃ got, Exchanged bus s r.1 (bytes.map (wireByte s.inForce)) got ∧
      got.length = bytes.length ∧ r.2 = got.map (wireByte s.inForce) ∧
      r.1.cells = s.cells ∧ r.1.spis.bitOrder = s.inForce := by
  rw [transferLocal, Option.map_eq_some_iff] at h
  obtain ⟨t, ht, rfl⟩ := h
  obtain ⟨settings, horder, rfl⟩ := transfer_eq happart ht
  have hbytes : txBytes (store (fun _ => 0) 0 bytes) (some 0) 0 bytes.length = bytes :=
    load_store _ 0 bytes
  have hforce : settings.bitOrder = s.inForce := horder
  obtain ⟨got, hgot⟩ : ∃ got, got = bus.exchange s.bus (bytes.map (wireByte s.inForce)) := ⟨_, rfl⟩
  have hlength : got.1.length = bytes.length := by
    rw [hgot, bus.length_eq, List.length_map]
  refine ⟨got.1, ⟨?_, ?_, ?_⟩, hlength, ?_, rfl, hforce⟩
  · simp only [chunk, hbytes, hforce, ← hgot]
  · simp only [chunk, hbytes, hforce]
  · simp only [chunk, hbytes, hforce, ← hgot]
  · simp only [chunk, hbytes, hforce, ← hgot, rxStore, Nat.add_zero]
    have hload := load_store (store (fun _ => 0) 0 bytes) rx (got.1.map (wireByte s.inForce))
    rwa [List.length_map, hlength] at hload

theorem transferByte_served (byte : Byte) : Served bus s (.transferByte byte) := by
  intro s' result h
  rw [transferByte, Option.map_eq_some_iff] at h
  obtain ⟨r, hr, heq⟩ := h
  cases heq
  have happart : Apart (some 0) (some 1) [byte].length := by
    intro a ha b hb
    cases ha
    cases hb
    exact .inr (.inl le_rfl)
  obtain ⟨got, hexchange, hlength, hresult, hcells, -⟩ := transferLocal_eq happart hr
  obtain ⟨one, rfl⟩ := List.length_eq_one_iff.1 hlength
  refine ⟨one, hexchange, ?_, hcells⟩
  rw [hresult]
  rfl

end Transfers

section Words

theorem reverseByte_bit : ∀ (b : Byte) (i : Fin 8),
    (reverseByte b).getLsbD i = b.getLsbD (7 - i) := by
  decide +kernel

theorem wireBit_pair (first second : Byte) {j : ℕ} (hj : j < 16) :
    wireBit [first, second] j =
      if j < 8 then first.getLsbD (7 - j) else second.getLsbD (15 - j) := by
  unfold wireBit
  split
  · rename_i hlt
    rw [Nat.div_eq_of_lt hlt, Nat.mod_eq_of_lt hlt]
    rfl
  · rename_i hge
    rw [show j / 8 = 1 by omega, show 7 - j % 8 = 15 - j by omega]
    rfl

theorem wireByte_bit (order : BitOrder) (b : Byte) {i : ℕ} (hi : i < 8) :
    (wireByte order b).getLsbD i = b.getLsbD (if order = .lsbFirst then 7 - i else i) := by
  unfold wireByte
  split
  · exact reverseByte_bit b ⟨i, hi⟩
  · rfl

/-- The two bytes of a word in the order of the bus. -/
def bytesOf (order : BitOrder) (word : BitVec 16) : List Byte :=
  if order = .lsbFirst then [word.setWidth 8, (word >>> 8).setWidth 8]
  else [(word >>> 8).setWidth 8, word.setWidth 8]

theorem bytesOf_bit (word : BitVec 16) {i : ℕ} (hi : i < 8) :
    (word.setWidth 8 : Byte).getLsbD i = word.getLsbD i ∧
      ((word >>> 8).setWidth 8 : Byte).getLsbD i = word.getLsbD (8 + i) := by
  constructor
  · rw [BitVec.getLsbD_setWidth, decide_eq_true hi, Bool.true_and]
  · rw [BitVec.getLsbD_setWidth, decide_eq_true hi, Bool.true_and, BitVec.getLsbD_ushiftRight]

theorem bytesOf_onWire (order : BitOrder) (word : BitVec 16) :
    OnWire order ((bytesOf order word).map (wireByte order)) word := by
  constructor
  · rw [List.length_map, bytesOf]
    split <;> rfl
  · intro j hj
    rw [bytesOf, wordBit]
    by_cases horder : order = .lsbFirst
    · rw [if_pos horder, if_pos horder, List.map_cons, List.map_cons, List.map_nil,
        wireBit_pair _ _ hj]
      split
      · rename_i hlow
        rw [wireByte_bit order _ (by omega), if_pos horder, (bytesOf_bit word (by omega)).1]
        congr 1
        omega
      · rename_i hhigh
        rw [wireByte_bit order _ (by omega), if_pos horder, (bytesOf_bit word (by omega)).2]
        congr 1
        omega
    · rw [if_neg horder, if_neg horder, List.map_cons, List.map_cons, List.map_nil,
        wireBit_pair _ _ hj]
      split
      · rename_i hlow
        rw [wireByte_bit order _ (by omega), if_neg horder, (bytesOf_bit word (by omega)).2]
        congr 1
        omega
      · rename_i hhigh
        rw [wireByte_bit order _ (by omega), if_neg horder, (bytesOf_bit word (by omega)).1]

theorem assembled_bit (low high : Byte) {i : ℕ} (hi : i < 16) :
    (low.setWidth 16 ||| (high.setWidth 16 : BitVec 16) <<< 8).getLsbD i =
      if i < 8 then low.getLsbD i else high.getLsbD (i - 8) := by
  rw [BitVec.getLsbD_or, BitVec.getLsbD_setWidth, BitVec.getLsbD_shiftLeft,
    BitVec.getLsbD_setWidth]
  split
  · rename_i hlow
    simp [hi, hlow]
  · rename_i hhigh
    rw [BitVec.getLsbD_of_ge low i (by omega)]
    simp [hi, hhigh]
    intro _
    omega

/-- The word that two received bytes make. -/
def assembled (order : BitOrder) (bytes : List Byte) : BitVec 16 :=
  if order = .lsbFirst then
    (bytes.getD 0 0).setWidth 16 ||| ((bytes.getD 1 0).setWidth 16 : BitVec 16) <<< 8
  else ((bytes.getD 0 0).setWidth 16 : BitVec 16) <<< 8 ||| (bytes.getD 1 0).setWidth 16

theorem assembled_onWire (order : BitOrder) {got : List Byte} (hlength : got.length = 2) :
    OnWire order got (assembled order (got.map (wireByte order))) := by
  obtain ⟨first, second, rfl⟩ := List.length_eq_two.1 hlength
  refine ⟨rfl, ?_⟩
  intro j hj
  rw [wireBit_pair _ _ hj, wordBit, assembled]
  by_cases horder : order = .lsbFirst
  · rw [if_pos horder, if_pos horder]
    change _ = ((wireByte order first).setWidth 16 |||
      ((wireByte order second).setWidth 16 : BitVec 16) <<< 8).getLsbD j
    rw [assembled_bit _ _ hj]
    split
    · rw [wireByte_bit order _ (by omega), if_pos horder]
    · rw [wireByte_bit order _ (by omega), if_pos horder]
      congr 1
      omega
  · rw [if_neg horder, if_neg horder, BitVec.or_comm]
    change _ = ((wireByte order second).setWidth 16 |||
      ((wireByte order first).setWidth 16 : BitVec 16) <<< 8).getLsbD (15 - j)
    rw [assembled_bit _ _ (by omega)]
    by_cases hlow : j < 8
    · rw [if_pos hlow, if_neg (by omega), wireByte_bit order _ (by omega), if_neg horder]
      congr 1
      omega
    · rw [if_neg hlow, if_pos (by omega), wireByte_bit order _ (by omega), if_neg horder]

/-- Two words that are on the wire at once are the same. -/
theorem onWire_unique {order : BitOrder} {bytes : List Byte} {word word' : BitVec 16}
    (h : OnWire order bytes word) (h' : OnWire order bytes word') : word = word' := by
  apply BitVec.eq_of_getLsbD_eq
  intro i hi
  obtain ⟨j, hj, hplace⟩ : ∃ j < 16, (if order = .lsbFirst then j else 15 - j) = i := by
    by_cases horder : order = .lsbFirst
    · exact ⟨i, hi, if_pos horder⟩
    · refine ⟨15 - i, by omega, ?_⟩
      rw [if_neg horder]
      omega
  have hbit := (h.2 j hj).symm.trans (h'.2 j hj)
  rwa [wordBit, wordBit, hplace] at hbit

/-- Two bytes, sent with the high bit first, are the word that has them the other way round. -/
theorem swapped_onWire (word : BitVec 16) :
    OnWire .msbFirst (bytesOf .lsbFirst word) word ↔
      (word.setWidth 8 : Byte) = (word >>> 8).setWidth 8 := by
  constructor
  · rintro ⟨-, hbits⟩
    apply BitVec.eq_of_getLsbD_eq
    intro i hi
    have hbit := hbits (7 - i) (by omega)
    rw [bytesOf, if_pos rfl, wireBit_pair _ _ (by omega), if_pos (by omega), wordBit,
      if_neg (by decide)] at hbit
    rw [(bytesOf_bit word hi).2]
    rw [show 7 - (7 - i) = i by omega, show 15 - (7 - i) = 8 + i by omega] at hbit
    exact hbit
  · intro hsame
    have hright := bytesOf_onWire .msbFirst word
    rw [bytesOf, if_neg (by decide), ← hsame] at hright
    rw [bytesOf, if_pos rfl, ← hsame]
    exact hright

end Words

section Calls
variable {σ : Type} {bus : Bus σ} {s s' : State σ} {word result : BitVec 16}

theorem length_bytesOf (order : BitOrder) (word : BitVec 16) : (bytesOf order word).length = 2 := by
  rw [bytesOf]
  split <;> rfl

/-- The two bytes leave in the order that was stored, each in the order in force. -/
theorem transfer16_eq (h : transfer16 bus s word = some (s', result)) :
    ∃ got, Exchanged bus s s'
        ((bytesOf s.spis.bitOrder word).map (wireByte s.inForce)) got ∧
      OnWire s.inForce got result ∧ s'.cells = s.cells := by
  rw [transfer16, Option.map_eq_some_iff] at h
  obtain ⟨r, hr, heq⟩ := h
  cases heq
  have hlength := length_bytesOf s.spis.bitOrder word
  have happart : Apart (some 0) (some 0) (bytesOf s.spis.bitOrder word).length := by
    intro a ha b hb
    cases ha
    cases hb
    exact .inl rfl
  change transferLocal bus s (bytesOf s.spis.bitOrder word) 0 2 = some r at hr
  rw [← hlength] at hr
  obtain ⟨got, hexchange, hgot, hbytes, hcells, horder⟩ := transferLocal_eq happart hr
  refine ⟨got, hexchange, ?_, hcells⟩
  have hright := assembled_onWire s.inForce (hgot.trans hlength)
  rw [← hbytes] at hright
  rw [horder]
  exact hright

variable (bus) in
theorem transfer16_runs (hrunning : s.running = true) (word : BitVec 16) :
    ∃ s' result, transfer16 bus s word = some (s', result) := by
  have hsome : (transfer16 bus s word).isSome = true := by
    rw [transfer16, Option.isSome_map, transferLocal, Option.isSome_map]
    apply Option.isSome_iff_exists.2
    apply transfer_runs
    exact hrunning
  obtain ⟨r, hr⟩ := Option.isSome_iff_exists.1 hsome
  exact ⟨r.1, r.2, hr⟩

theorem transfer16_served_iff : Served bus s (.transfer16 word) ↔ Ordered s (.transfer16 word) := by
  constructor
  · intro hserved hrunning hinitted hstored
    obtain ⟨s', result, h⟩ := transfer16_runs bus hrunning word
    obtain ⟨sent, got, hexchange, hsent, -, -⟩ := hserved s' result h
    obtain ⟨got', hexchange', -, -⟩ := transfer16_eq h
    have hforce : s.inForce = .msbFirst := by
      rw [State.inForce, hinitted]
      rfl
    have hsame := List.append_cancel_left (hexchange.wire.symm.trans hexchange'.wire)
    rw [hsame, hforce, hstored] at hsent
    exact (swapped_onWire word).1 hsent
  · intro hordered s' result h
    obtain ⟨got, hexchange, hresult, hcells⟩ := transfer16_eq h
    refine ⟨_, got, hexchange, ?_, hresult, hcells⟩
    by_cases hsame : s.inForce = s.spis.bitOrder
    · rw [← hsame]
      exact bytesOf_onWire s.inForce word
    · have hinitted : s.initted = false := by
        by_contra hne
        exact hsame (if_pos (by simpa using hne))
      have hforce : s.inForce = .msbFirst := by
        rw [State.inForce, hinitted]
        rfl
      have hstored : s.spis.bitOrder = .lsbFirst := by
        cases horder : s.spis.bitOrder with
        | lsbFirst => rfl
        | msbFirst => exact absurd (hforce.trans horder.symm) hsame
      have hrunning : s.running = true := by
        by_contra hstopped
        simp [transfer16, transferLocal, transfer, hstopped] at h
      rw [hforce, hstored]
      exact (swapped_onWire word).2 (hordered hrunning hinitted hstored)

theorem served_iff (call : Call) : Served bus s call ↔ Ordered s call := by
  cases call with
  | transfer tx rx count => exact iff_of_true (transfer_served tx rx count) trivial
  | transferByte byte => exact iff_of_true (transferByte_served byte) trivial
  | transfer16 word => exact transfer16_served_iff
  | _ => exact Iff.rfl

/-- All transfers of a run are served, exactly when no `transfer16` of two different bytes begins a
transaction of its own in a session after one with the low bit first. -/
theorem transfers_served_iff (bus : Bus σ) (s : State σ) (calls : List Call) :
    Meets (step bus) (Served bus) s calls ↔ Meets (step bus) Ordered s calls :=
  Meets.congr (I := fun _ => True) (fun _ _ _ _ _ _ => trivial) (fun _ call _ => served_iff call)
    trivial

end Calls

section Sdk
open PicoBoard (SpiState)
open PicoSpi (World Request SpiRoute)
variable {σ : Type} (F : ℕ → Esp32Spi.Behaviour σ) (route : SpiRoute)

/-- The transfer of the SDK that sends these bytes, from wherever they are in memory, brings in
those and leaves the devices so. -/
def SdkExchange (devices : ℕ → σ) (sent got : List Byte) (devices' : ℕ → σ) : Prop :=
  ∀ (state : SpiState) (r : Request .byte) (w : World σ .byte), r.receive = true → r.Apart →
    w.devices = devices → r.outgoing w.memory 0 r.len = sent →
      let w' := PicoSpi.chunks F route state r PicoSpi.kChunkBytes 0 0 w
      w'.devices = devices' ∧ w'.miso = w.miso ++ got ∧
        w'.memory = PicoSpi.storeWords .byte w.memory (r.dst.getD 0) r.len got

variable {F route}

theorem Exchanged.sdk (hnodup : route.devices.Nodup)
    (hroute : ∀ device, route.receiver = some device → device ∈ route.devices)
    {s s' : State (ℕ → σ)} {sent got : List Byte}
    (h : Exchanged (routeBus F route) s s' sent got) :
    SdkExchange F route s.bus sent got s'.bus := by
  intro state r w hreceive happart hdevices hsent
  obtain ⟨hleft, hmiso, hmemory⟩ :=
    @chunks_routed σ F route state r hreceive hnodup hroute happart 0 0 (Nat.zero_le _) w
  rw [Nat.sub_zero, hdevices, hsent, h.exchange] at hleft hmiso hmemory
  exact ⟨hleft, hmiso, hmemory⟩

/-- Over the devices of a route: all transfers of a run are served, and by exchanges that are
transfers of the SDK, exactly under the same condition. -/
theorem transfers_routed_iff (hnodup : route.devices.Nodup)
    (hroute : ∀ device, route.receiver = some device → device ∈ route.devices)
    (s : State (ℕ → σ)) (calls : List Call) :
    Meets (step (routeBus F route)) (fun s call => Served (routeBus F route) s call ∧
        ∀ s' sent got, Exchanged (routeBus F route) s s' sent got →
          SdkExchange F route s.bus sent got s'.bus) s calls ↔
      Meets (step (routeBus F route)) Ordered s calls := by
  rw [← transfers_served_iff]
  constructor
  · exact Meets.imp fun _ _ h => h.1
  · exact Meets.imp fun _ _ h => ⟨h, fun _ _ _ => Exchanged.sdk hnodup hroute⟩

end Sdk

/-- What goes out comes in. -/
def loopback : Bus Unit where
  exchange s bytes := (bytes, s)
  length_eq _ _ := rfl
  nothing _ := rfl
  serial _ _ _ _ := rfl

/-- The order of the first session is used for the word of the second, and then reset. -/
def resumed : List Call :=
  [.spiBegin, .beginTransaction { bitOrder := .lsbFirst }, .endTransaction, .spiEnd, .spiBegin,
    .transfer16 0x0102]

theorem resumed_not_served :
    ¬ Meets (step loopback) (Served loopback) { cells := fun _ => 0, bus := () } resumed := by
  intro h
  obtain ⟨-, h⟩ := h
  obtain ⟨-, h⟩ := h _ rfl
  obtain ⟨-, h⟩ := h _ rfl
  obtain ⟨-, h⟩ := h _ rfl
  obtain ⟨-, h⟩ := h _ rfl
  have hsame := (served_iff _).1 (h _ rfl).1 rfl rfl rfl
  revert hsame
  decide

end RooTesting.ArduinoPicoSpi
