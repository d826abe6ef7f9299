import RooTesting.PicoBoard
import RooTesting.Esp32Spi
import Mathlib.Algebra.Order.Floor.Div
import Mathlib.Data.List.GetD
import Mathlib.Algebra.Group.Int.Defs
import Mathlib.Algebra.Group.Nat.Defs

/-! # SPI transfers of the RP2040

The SDK's blocking calls exchange a buffer in chunks of 256 bytes and delay after each of them. The
memory of the caller holds words, by the address of their first byte; the calls of the devices, the
bytes on MISO, and the delays are written down. -/
namespace RooTesting.PicoSpi
open Checks PicoBoard
open Esp32Spi (Byte Behaviour)

/-- The width of a frame is that of a word in memory. -/
inductive FrameWidth | byte | half
  deriving DecidableEq

def FrameWidth.size : FrameWidth → ℕ
  | byte => 1
  | half => 2

abbrev FrameWidth.Word (f : FrameWidth) : Type := BitVec (8 * f.size)

inductive Status | invalidArg | invalidState | resourceInUse
  deriving DecidableEq

def Status.code : Status → ℤ
  | invalidArg => -5
  | invalidState => -12
  | resourceInUse => -21

structure SpiRoute where
  devices : List ℕ
  receiver : Option ℕ
  idleHigh : Bool

/-- Devices are their handles; what is written down grows at its end. -/
structure World (σ : Type) (f : FrameWidth) where
  board : Board
  memory : ℕ → f.Word
  devices : ℕ → σ
  calls : List (ℕ × List Byte × ℕ)
  miso : List Byte
  delays : List ℕ

/-- The arguments of a call. -/
structure Request (f : FrameWidth) where
  src : Option ℕ
  dst : Option ℕ
  len : ℕ
  repeated : f.Word
  send : Bool
  receive : Bool

/-- `uint64_t`. -/
def u64 (n : ℕ) : ℕ := n % 2 ^ 64

/-- `DurationNs`. -/
def durationNs (bits baudrate : ℕ) : ℕ :=
  u64 (u64 (bits / baudrate * 1000000000) +
    u64 (u64 (u64 (bits % baudrate * 1000000000) + baudrate) + (2 ^ 64 - 1)) / baudrate)

def overlaps (src dst bytes : ℕ) : Prop :=
  src ≠ dst ∧ if src < dst then dst - src < bytes else src - dst < bytes

instance overlapsDecidable (src dst bytes : ℕ) : Decidable (overlaps src dst bytes) :=
  inferInstanceAs (Decidable (_ ∧ _))

/-- The pin that plays a role of the controller, by the pin's place in its group of four. -/
def claimRole (b : Board) (index : ℕ) (pins : ℕ → ℤ) (pin : ℕ) : Except Status (ℕ → ℤ) :=
  if (b.pins pin).function ≠ .spi ∨ spiIndex pin ≠ index then pure pins
  else if 0 ≤ pins (pin % 4) then throw .invalidState
  else pure (Function.update pins (pin % 4) pin)

/-- One turn of the loop over the connections. -/
def routeTo (selected : ℕ → Bool) (receive : Bool) (pins : ℕ → ℤ) (next : Bool × SpiRoute)
    (connection : SpiConnection) : Except Status (Bool × SpiRoute) :=
  if connection.clk ≠ pins 2 ∨ connection.mosi ≠ pins 3 then pure next
  else if selected connection.device = false then pure (true, next.2)
  else
    let route := { next.2 with devices := next.2.devices ++ [connection.device] }
    if receive = true ∧ connection.miso = pins 0 then
      if route.receiver.isSome then throw .resourceInUse
      else pure (true, { route with receiver := some connection.device })
    else pure (true, route)

def prepareSpi (fixture : Fixture) (selected : ℕ → Bool) (b : Board) (index : ℕ) (receive : Bool) :
    Except Status SpiRoute := do
  check (fixture.freertos = true ∨ ((b.i2cs 0).busy = false ∧ (b.i2cs 1).busy = false))
    Status.resourceInUse
  check ((b.spis index).enabled = true) Status.invalidState
  check (if fixture.freertos = true then (b.spis index).busy = false
    else (b.spis 0).busy = false ∧ (b.spis 1).busy = false) Status.resourceInUse
  let pins ← (List.range gpioCount).foldlM (claimRole b index) fun _ => -1
  check (0 ≤ pins 2 ∧ 0 ≤ pins 3 ∧ (receive = true → 0 ≤ pins 0)) Status.invalidState
  check (receive = true → (b.pins (pins 0).toNat).inputEnabled = true ∧
    (b.pins (pins 0).toNat).inputOverride = .normal) Status.invalidState
  let (wired, route) ← b.spiConnections.foldlM (routeTo selected receive pins)
    (false, ⟨[], none, false⟩)
  check (wired = true) Status.invalidState
  if receive = true ∧ route.receiver = none then
    let input := b.pins (pins 0).toNat
    check (input.pullUp = true ∨ input.pullDown = true) Status.invalidState
    return { route with idleHigh := input.pullUp }
  else return route

section Transfer
variable {σ : Type} {f : FrameWidth} (F : ℕ → Behaviour σ)

/-- The bytes of a word, the high one first. -/
def FrameWidth.encode (f : FrameWidth) (value : f.Word) : List Byte :=
  (if f = .half then [(value >>> 8).setWidth 8] else []) ++ [(value &&& 0xFF).setWidth 8]

/-- A word of the bytes that have come in. -/
def FrameWidth.decode (f : FrameWidth) (incoming : List Byte) (i : ℕ) : f.Word :=
  let value := (incoming.getD (f.size * i) 0).setWidth (8 * f.size)
  if f = .half then (value <<< 8) ||| (incoming.getD (2 * i + 1) 0).setWidth (8 * f.size) else value

/-- `words` words stored one behind the other. -/
def storeWords (f : FrameWidth) (memory : ℕ → f.Word) (start words : ℕ) (incoming : List Byte)
    (a : ℕ) : f.Word :=
  if start ≤ a ∧ (a - start) % f.size = 0 ∧ (a - start) / f.size < words then
    f.decode incoming ((a - start) / f.size)
  else memory a

def Request.word (r : Request f) (memory : ℕ → f.Word) (i : ℕ) : f.Word :=
  if r.send then memory (r.src.getD 0 + f.size * i) else r.repeated

/-- The bytes of some words from an offset on. -/
def Request.outgoing (r : Request f) (memory : ℕ → f.Word) (offset words : ℕ) : List Byte :=
  (List.range words).flatMap fun i => f.encode (r.word memory (offset + i))

/-- The bytes that an idle MISO line shows. -/
def SpiRoute.idle (route : SpiRoute) (n : ℕ) : List Byte :=
  List.replicate n (if route.idleHigh then 0xFF else 0)

/-- One turn of the loop over the devices of a route. -/
def visit (route : SpiRoute) (receive : Bool) (outgoing : List Byte)
    (turn : World σ f × List Byte) (device : ℕ) : World σ f × List Byte :=
  let (reply, state) :=
    (F device).transfer (turn.1.devices device) outgoing (outgoing.length * 8)
  ({ turn.1 with
      devices := Function.update turn.1.devices device state
      calls := turn.1.calls ++ [(device, outgoing, outgoing.length * 8)] },
    if receive = true ∧ route.receiver = some device then reply else turn.2)

/-- One turn of the loop over the chunks. -/
def chunk (route : SpiRoute) (state : SpiState) (r : Request f) (offset words elapsed : ℕ)
    (w : World σ f) : World σ f :=
  let outgoing := r.outgoing w.memory offset words
  let (w, incoming) :=
    route.devices.foldl (visit F route r.receive outgoing) (w, route.idle outgoing.length)
  let w := if r.receive then
      { w with
        memory := storeWords f w.memory (r.dst.getD 0 + f.size * offset) words incoming
        miso := w.miso ++ incoming }
    else w
  let completed := durationNs (u64 ((offset + words) * state.dataBits)) state.baudrate
  { w with delays := w.delays ++ [u64 (completed + (2 ^ 64 - elapsed))] }

def chunks (route : SpiRoute) (state : SpiState) (r : Request f) (chunkWords : ℕ)
    (offset elapsed : ℕ) (w : World σ f) : World σ f :=
  if _h : offset < r.len ∧ 0 < chunkWords then
    let words := min (r.len - offset) chunkWords
    chunks route state r chunkWords (offset + words)
      (durationNs (u64 ((offset + words) * state.dataBits)) state.baudrate)
      (chunk F route state r offset words elapsed w)
  else w
termination_by r.len - offset
decreasing_by omega

/-- The end of the transfer lies beyond the clock. -/
def tooLong (state : SpiState) (r : Request f) (now : ℕ) : Prop :=
  2 ^ 63 - 1 - 999 < durationNs (u64 (r.len * state.dataBits)) state.baudrate ∨
    2 ^ 63 - 1 - 999 - durationNs (u64 (r.len * state.dataBits)) state.baudrate < u64 (now * 1000)

instance tooLongDecidable (state : SpiState) (r : Request f) (now : ℕ) :
    Decidable (tooLong state r now) :=
  inferInstanceAs (Decidable (_ ∨ _))

/-- A transfer with chunks of some words at most: its status, or the message of a failed check. -/
def transferWith (chunkWords : ℕ) (fixture : Fixture) (selected : ℕ → Bool) (now index : ℕ)
    (r : Request f) (w : World σ f) : Except String (World σ f × ℤ) := do
  let state ← w.board.spiState index
  if state.enabled = false then return (w, Status.invalidState.code)
  else if state.dataBits ≠ 8 * f.size ∨ 2 ^ 31 - 1 < r.len ∨ (r.len ≠ 0 ∧
      ((r.send = true ∧ r.src = none) ∨ (r.receive = true ∧ r.dst = none))) then
    return (w, Status.invalidArg.code)
  else if r.len = 0 then return (w, 0)
  else if r.send = true ∧ r.receive = true ∧
      overlaps (r.src.getD 0) (r.dst.getD 0) (r.len * f.size) then
    return (w, Status.invalidArg.code)
  else if tooLong state r now then return (w, Status.invalidArg.code)
  else
    match prepareSpi fixture selected w.board index r.receive with
    | .error status => return (w, status.code)
    | .ok route =>
      let board ← w.board.beginSpi fixture index
      let w := chunks F route state r chunkWords 0 0 { w with board := board }
      let board ← w.board.endSpi index
      return ({ w with board := board }, r.len)

def kChunkBytes : ℕ := 256

def transfer (fixture : Fixture) (selected : ℕ → Bool) (now index : ℕ) (r : Request f)
    (w : World σ f) : Except String (World σ f × ℤ) :=
  transferWith F (kChunkBytes / f.size) fixture selected now index r w

end Transfer

/-- The bytes that a device has seen. -/
def heard (calls : List (ℕ × List Byte × ℕ)) (device : ℕ) : List Byte :=
  (calls.filter (·.1 = device)).flatMap (·.2.1)

/-- The time of some bits, rounded up. -/
def ceilNs (bits baudrate : ℕ) : ℕ := (bits * 1000000000) ⌈/⌉ baudrate

/-- No step of `DurationNs` leaves `uint64_t`. -/
structure Exact (n baudrate : ℕ) : Prop where
  bits : n < 2 ^ 64
  whole : n / baudrate * 1000000000 < 2 ^ 64
  part : n % baudrate * 1000000000 + baudrate < 2 ^ 64
  sum : n / baudrate * 1000000000 +
    (n % baudrate * 1000000000 + baudrate - 1) / baudrate < 2 ^ 64

/-- A device to which two transfers are the same as one of all their bytes. -/
def Serial {σ : Type} (B : Behaviour σ) : Prop :=
  ∀ s first second, B.transfer s (first ++ second) ((first ++ second).length * 8) =
    ((B.transfer s first (first.length * 8)).1 ++
      (B.transfer (B.transfer s first (first.length * 8)).2 second (second.length * 8)).1,
      (B.transfer (B.transfer s first (first.length * 8)).2 second (second.length * 8)).2)

section Durations

theorem spiBaudrate_bounds {requested baudrate : ℕ} (h : spiBaudrate requested = .ok baudrate) :
    1000 ≤ baudrate ∧ baudrate ≤ 125000000 := by
  unfold spiBaudrate at h
  obtain ⟨-, h⟩ := check_bind_ok.mp h
  cases hprescale : ((List.range 127).map (2 * · + 2)).find?
      (125000000 < · * 256 * requested) with
  | none =>
    simp only [hprescale] at h
    cases h
  | some prescale =>
    simp only [hprescale] at h
    obtain rfl := pure_ok.mp h
    obtain ⟨i, hi, rfl⟩ := List.mem_map.1 (List.mem_of_find?_eq_some hprescale)
    rw [List.mem_range] at hi
    generalize hpostdiv : ((List.range 255).map (256 - ·)).find? _ = found
    have hbounds : 1 ≤ found.getD 1 ∧ found.getD 1 ≤ 256 := by
      cases found with
      | none => decide
      | some postdiv =>
        obtain ⟨j, hj, rfl⟩ := List.mem_map.1 (List.mem_of_find?_eq_some hpostdiv)
        rw [List.mem_range] at hj
        simp only [Option.getD_some]
        omega
    have hle : (2 * i + 2) * found.getD 1 ≤ 254 * 256 := Nat.mul_le_mul (by omega) hbounds.2
    have hpos : 0 < (2 * i + 2) * found.getD 1 := Nat.mul_pos (by omega) (by omega)
    refine ⟨?_, Nat.div_le_self _ _⟩
    rw [Nat.le_div_iff_mul_le hpos]
    omega

/-- Whole turns of the rate apart, as `DurationNs` sums it up. -/
theorem ceilDiv_split (n unit : ℕ) {rate : ℕ} (hpos : 0 < rate) :
    (n * unit) ⌈/⌉ rate = n / rate * unit + (n % rate * unit + rate - 1) / rate := by
  have hsplit : n * unit = n % rate * unit + n / rate * unit * rate := by
    calc n * unit = (n % rate + rate * (n / rate)) * unit := by rw [Nat.mod_add_div]
      _ = n % rate * unit + n / rate * unit * rate := by
        rw [Nat.add_mul, Nat.mul_comm rate, Nat.mul_right_comm]
  have hsum : n * unit + rate - 1 = n % rate * unit + rate - 1 + n / rate * unit * rate := by
    omega
  rw [Nat.ceilDiv_eq_add_pred_div, hsum, Nat.add_mul_div_right _ _ hpos, Nat.add_comm]

theorem u64_of_lt {n : ℕ} (h : n < 2 ^ 64) : u64 n = n := Nat.mod_eq_of_lt h

theorem exact_of_bounds {bits baudrate : ℕ} (hbits : bits < 2 ^ 36) (hge : 1000 ≤ baudrate)
    (hle : baudrate ≤ 125000000) : Exact bits baudrate := by
  have hwhole : bits / baudrate ≤ 2 ^ 36 / 1000 :=
    (Nat.div_le_div_left hge (by omega)).trans (Nat.div_le_div_right hbits.le)
  have hpart : bits % baudrate < baudrate := Nat.mod_lt _ (by omega)
  have hquot : (bits % baudrate * 1000000000 + baudrate - 1) / baudrate ≤
      bits % baudrate * 1000000000 + baudrate - 1 := Nat.div_le_self _ _
  refine ⟨by omega, by omega, by omega, by omega⟩

theorem durationNs_eq {bits baudrate : ℕ} (hpos : 0 < baudrate) (h : Exact bits baudrate) :
    durationNs bits baudrate = ceilNs bits baudrate := by
  have hwhole := h.whole
  have hpart := h.part
  have hsum := h.sum
  have hpred : u64 (bits % baudrate * 1000000000 + baudrate + (2 ^ 64 - 1)) =
      bits % baudrate * 1000000000 + baudrate - 1 := by
    unfold u64
    omega
  have hunit : bits % baudrate * 1000000000 < 2 ^ 64 :=
    Nat.lt_of_le_of_lt (Nat.le_add_right _ _) hpart
  rw [durationNs, u64_of_lt hwhole, u64_of_lt hunit, u64_of_lt hpart, hpred, u64_of_lt hsum,
    ceilNs, ceilDiv_split bits _ hpos]

theorem ceilNs_mono {bits bits' : ℕ} (baudrate : ℕ) (h : bits ≤ bits') :
    ceilNs bits baudrate ≤ ceilNs bits' baudrate := by
  unfold ceilNs
  rw [Nat.ceilDiv_eq_add_pred_div, Nat.ceilDiv_eq_add_pred_div]
  apply Nat.div_le_div_right
  omega

end Durations

section Words
variable {f : FrameWidth} {r : Request f} {memory memory' : ℕ → f.Word}

theorem size_pos (f : FrameWidth) : 0 < f.size := by
  cases f <;> decide

theorem length_encode (f : FrameWidth) (value : f.Word) : (f.encode value).length = f.size := by
  cases f <;> rfl

theorem length_outgoing (r : Request f) (memory : ℕ → f.Word) (offset words : ℕ) :
    (r.outgoing memory offset words).length = f.size * words := by
  unfold Request.outgoing
  induction words with
  | zero => rfl
  | succ words ih =>
    rw [List.range_succ, List.flatMap_append, List.length_append, ih, List.flatMap_cons,
      List.flatMap_nil, List.append_nil, length_encode, Nat.mul_succ]

theorem outgoing_add (r : Request f) (memory : ℕ → f.Word) (offset a b : ℕ) :
    r.outgoing memory offset (a + b) =
      r.outgoing memory offset a ++ r.outgoing memory (offset + a) b := by
  unfold Request.outgoing
  rw [List.range_add, List.flatMap_append, List.flatMap_map]
  simp only [Nat.add_assoc]

theorem outgoing_congr {offset words : ℕ}
    (h : ∀ i, offset ≤ i → i < offset + words → r.word memory i = r.word memory' i) :
    r.outgoing memory offset words = r.outgoing memory' offset words := by
  unfold Request.outgoing
  rw [List.flatMap_def, List.flatMap_def]
  congr 1
  apply List.map_congr_left
  intro i hi
  rw [List.mem_range] at hi
  rw [h (offset + i) (by omega) (by omega)]

/-- A word is made of the bytes at its place. -/
theorem decode_congr (f : FrameWidth) {bytes bytes' : List Byte} {i j : ℕ}
    (h : ∀ k, k < f.size → bytes.getD (f.size * i + k) 0 = bytes'.getD (f.size * j + k) 0) :
    f.decode bytes i = f.decode bytes' j := by
  have hhigh := h 0 (size_pos f)
  rw [Nat.add_zero, Nat.add_zero] at hhigh
  unfold FrameWidth.decode
  cases f with
  | byte =>
    simp only [hhigh]
    rfl
  | half =>
    have hlow : bytes.getD (2 * i + 1) 0 = bytes'.getD (2 * j + 1) 0 := h 1 (by decide)
    simp only [hhigh, hlow]

theorem decode_append_left (f : FrameWidth) {first second : List Byte} {a i : ℕ}
    (hlength : first.length = f.size * a) (h : i < a) :
    f.decode (first ++ second) i = f.decode first i := by
  apply decode_congr
  intro k hk
  apply List.getD_append
  calc f.size * i + k < f.size * (i + 1) := by
        rw [Nat.mul_succ]
        omega
    _ ≤ first.length := hlength ▸ Nat.mul_le_mul_left f.size h

theorem decode_append_right (f : FrameWidth) {first second : List Byte} {a i : ℕ}
    (hlength : first.length = f.size * a) :
    f.decode (first ++ second) (a + i) = f.decode second i := by
  apply decode_congr
  intro k hk
  rw [List.getD_append_right, hlength, Nat.mul_add]
  · congr 1
    omega
  · rw [hlength, Nat.mul_add]
    omega

/-- A word is stored at its place, and everything else is left. -/
theorem storeWords_at (f : FrameWidth) (memory : ℕ → f.Word) (start : ℕ) {words i : ℕ}
    (incoming : List Byte) (h : i < words) :
    storeWords f memory start words incoming (start + f.size * i) = f.decode incoming i := by
  have hsub : start + f.size * i - start = f.size * i := Nat.add_sub_cancel_left ..
  have hdiv : f.size * i / f.size = i := Nat.mul_div_cancel_left i (size_pos f)
  rw [storeWords, hsub, hdiv, if_pos ⟨Nat.le_add_right .., Nat.mul_mod_right .., h⟩]

theorem storeWords_off (f : FrameWidth) (memory : ℕ → f.Word) {start words a : ℕ}
    (incoming : List Byte) (h : ∀ i, i < words → a ≠ start + f.size * i) :
    storeWords f memory start words incoming a = memory a := by
  unfold storeWords
  rw [if_neg]
  rintro ⟨hle, hmod, hlt⟩
  apply h _ hlt
  rw [Nat.mul_div_cancel' (Nat.dvd_of_mod_eq_zero hmod)]
  omega

theorem storeWords_append (f : FrameWidth) (memory : ℕ → f.Word) (start : ℕ) {a b : ℕ}
    {first second : List Byte} (hlength : first.length = f.size * a) :
    storeWords f (storeWords f memory start a first) (start + f.size * a) b second =
      storeWords f memory start (a + b) (first ++ second) := by
  funext addr
  rcases Classical.em (∃ i, i < a + b ∧ addr = start + f.size * i) with ⟨i, hi, rfl⟩ | hoff
  · rw [storeWords_at f memory start _ hi]
    rcases Nat.lt_or_ge i a with hlt | hge
    · rw [storeWords_off, storeWords_at f memory start _ hlt, decode_append_left f hlength hlt]
      intro j _ heq
      have hmul : f.size * i < f.size * a := Nat.mul_lt_mul_of_pos_left hlt (size_pos f)
      omega
    · obtain ⟨j, rfl⟩ := Nat.exists_eq_add_of_le hge
      rw [decode_append_right f hlength, Nat.mul_add, ← Nat.add_assoc]
      exact storeWords_at f _ _ second (by omega)
  · rw [storeWords_off f _ second, storeWords_off f _ first, storeWords_off f]
    · intro i hi heq
      exact hoff ⟨i, hi, heq⟩
    · intro i hi heq
      exact hoff ⟨i, by omega, heq⟩
    · intro i hi heq
      refine hoff ⟨a + i, by omega, ?_⟩
      rw [heq, Nat.mul_add, Nat.add_assoc]

/-- Source and destination are the same, or lie apart. -/
def Request.Apart (r : Request f) : Prop :=
  r.send = true → r.receive = true → ¬ overlaps (r.src.getD 0) (r.dst.getD 0) (r.len * f.size)

/-- What has come in does not touch the words still to be sent. -/
theorem word_stored (happart : r.Apart) (hreceive : r.receive = true) {offset words i : ℕ}
    (hi : offset + words ≤ i) (hlen : i < r.len) (incoming : List Byte) :
    r.word (storeWords f memory (r.dst.getD 0 + f.size * offset) words incoming) i =
      r.word memory i := by
  unfold Request.word
  split
  · rename_i hsend
    apply storeWords_off
    intro j hj heq
    have hfree := happart hsend hreceive
    have hpos := size_pos f
    have hij : f.size * (offset + j) < f.size * i := Nat.mul_lt_mul_of_pos_left (by omega) hpos
    have hil : f.size * i < f.size * r.len := Nat.mul_lt_mul_of_pos_left hlen hpos
    rw [Nat.mul_add] at hij
    rw [Nat.mul_comm r.len] at hfree
    apply hfree
    constructor
    · omega
    · split <;> omega
  · rfl

end Words

section Routes
variable {selected : ℕ → Bool} {receive : Bool} {pins : ℕ → ℤ}

/-- The devices of a route are some of the connected ones, and the receiver is among them. -/
structure SpiRoute.Over (route : SpiRoute) (connected : List ℕ) : Prop where
  sublist : route.devices.Sublist connected
  receiver : ∀ device, route.receiver = some device → device ∈ route.devices

theorem routeTo_over {next next' : Bool × SpiRoute} {connection : SpiConnection}
    {connected : List ℕ} (h : routeTo selected receive pins next connection = .ok next')
    (hover : next.2.Over connected) : next'.2.Over (connected ++ [connection.device]) := by
  have hkeep : next.2.Over (connected ++ [connection.device]) :=
    ⟨hover.sublist.trans (List.sublist_append_left _ _), hover.receiver⟩
  have hsublist : (next.2.devices ++ [connection.device]).Sublist (connected ++ [connection.device]) :=
    hover.sublist.append (List.Sublist.refl _)
  unfold routeTo at h
  split at h
  · obtain rfl := pure_ok.mp h
    exact hkeep
  · split at h
    · obtain rfl := pure_ok.mp h
      exact hkeep
    · simp only at h
      split at h
      · split at h
        · cases h
        · obtain rfl := pure_ok.mp h
          refine ⟨hsublist, ?_⟩
          intro device hdevice
          cases hdevice
          exact List.mem_append_right _ (List.mem_singleton_self _)
      · obtain rfl := pure_ok.mp h
        refine ⟨hsublist, ?_⟩
        intro device hdevice
        exact List.mem_append_left _ (hover.receiver device hdevice)

theorem routes_over {next next' : Bool × SpiRoute} {connections : List SpiConnection}
    {connected : List ℕ} (h : connections.foldlM (routeTo selected receive pins) next = .ok next')
    (hover : next.2.Over connected) :
    next'.2.Over (connected ++ connections.map SpiConnection.device) := by
  induction connections generalizing next connected with
  | nil =>
    obtain rfl := pure_ok.mp h
    rwa [List.map_nil, List.append_nil]
  | cons connection connections ih =>
    rw [List.foldlM_cons] at h
    obtain ⟨middle, hmiddle, h⟩ := bind_ok.mp h
    have hrest := ih h (routeTo_over hmiddle hover)
    rwa [List.append_assoc] at hrest

theorem prepareSpi_over {fixture : Fixture} {b : Board} {index : ℕ} {route : SpiRoute}
    (h : prepareSpi fixture selected b index receive = .ok route) :
    route.Over (b.spiConnections.map SpiConnection.device) := by
  unfold prepareSpi at h
  obtain ⟨-, h⟩ := check_bind_ok.mp h
  obtain ⟨-, h⟩ := check_bind_ok.mp h
  obtain ⟨-, h⟩ := check_bind_ok.mp h
  obtain ⟨pins, -, h⟩ := bind_ok.mp h
  obtain ⟨-, h⟩ := check_bind_ok.mp h
  obtain ⟨-, h⟩ := check_bind_ok.mp h
  obtain ⟨found, hfound, h⟩ := bind_ok.mp h
  obtain ⟨-, h⟩ := check_bind_ok.mp h
  have hstart : SpiRoute.Over ⟨[], none, false⟩ [] := by
    refine ⟨List.nil_sublist _, ?_⟩
    intro device hdevice
    cases hdevice
  have hover := routes_over hfound hstart
  split at h
  · obtain ⟨-, h⟩ := check_bind_ok.mp h
    obtain rfl := pure_ok.mp h
    exact ⟨hover.sublist, hover.receiver⟩
  · obtain rfl := pure_ok.mp h
    exact hover

end Routes

section Chunks
variable {σ : Type} {f : FrameWidth} (F : ℕ → Behaviour σ) (route : SpiRoute) (r : Request f)

theorem heard_append (calls calls' : List (ℕ × List Byte × ℕ)) (device : ℕ) :
    heard (calls ++ calls') device = heard calls device ++ heard calls' device := by
  unfold heard
  rw [List.filter_append, List.flatMap_append]

/-- The bytes that a call of every device brings in. -/
def replyTo (devices : ℕ → σ) (outgoing : List Byte) : List Byte :=
  match route.receiver with
  | some device => ((F device).transfer (devices device) outgoing (outgoing.length * 8)).1
  | none => route.idle outgoing.length

theorem length_replyTo (devices : ℕ → σ) (outgoing : List Byte) :
    (replyTo F route devices outgoing).length = outgoing.length := by
  unfold replyTo
  split
  · exact (F _).length_eq _ _ _
  · exact List.length_replicate

/-- What one call of each device of a list leaves. -/
structure Passed (outgoing : List Byte) (devices : List ℕ) (turn turn' : World σ f × List Byte) :
    Prop where
  board : turn'.1.board = turn.1.board
  memory : turn'.1.memory = turn.1.memory
  miso : turn'.1.miso = turn.1.miso
  delays : turn'.1.delays = turn.1.delays
  states : ∀ d, turn'.1.devices d = if d ∈ devices then
    ((F d).transfer (turn.1.devices d) outgoing (outgoing.length * 8)).2 else turn.1.devices d
  calls : ∀ d, heard turn'.1.calls d = heard turn.1.calls d ++ if d ∈ devices then outgoing else []
  incoming : turn'.2 = match route.receiver with
    | some device => if r.receive = true ∧ device ∈ devices then
        ((F device).transfer (turn.1.devices device) outgoing (outgoing.length * 8)).1 else turn.2
    | none => turn.2

theorem passed (outgoing : List Byte) (devices : List ℕ) (hnodup : devices.Nodup)
    (turn : World σ f × List Byte) :
    Passed F route r outgoing devices turn
      (devices.foldl (visit F route r.receive outgoing) turn) := by
  induction devices generalizing turn with
  | nil =>
    refine ⟨rfl, rfl, rfl, rfl, ?_, ?_, ?_⟩
    · intro d
      rw [if_neg List.not_mem_nil]
      rfl
    · intro d
      rw [if_neg List.not_mem_nil, List.append_nil]
      rfl
    · cases route.receiver <;> simp
  | cons device devices ih =>
    obtain ⟨hnew, hrest⟩ := List.nodup_cons.1 hnodup
    have h := ih hrest (visit F route r.receive outgoing turn device)
    refine ⟨h.board, h.memory, h.miso, h.delays, ?_, ?_, ?_⟩
    · intro d
      rw [List.foldl_cons, h.states d]
      rcases eq_or_ne d device with rfl | hne
      · rw [if_neg hnew, if_pos List.mem_cons_self]
        exact Function.update_self ..
      · have hsame : (visit F route r.receive outgoing turn device).1.devices d =
            turn.1.devices d := Function.update_of_ne hne ..
        rw [hsame]
        simp [hne]
    · intro d
      have hcall : heard (visit F route r.receive outgoing turn device).1.calls d =
          heard turn.1.calls d ++ if d = device then outgoing else [] := by
        refine (heard_append _ _ _).trans ?_
        congr 1
        rcases eq_or_ne d device with rfl | hne
        · simp [heard]
        · simp [heard, hne, Ne.symm hne]
      rw [List.foldl_cons, h.calls d, hcall, List.append_assoc]
      congr 1
      rcases eq_or_ne d device with rfl | hne
      · simp [hnew]
      · simp [hne]
    · rw [List.foldl_cons, h.incoming]
      cases hreceiver : route.receiver with
      | none => simp [visit, hreceiver]
      | some receiver =>
        rcases eq_or_ne receiver device with rfl | hne
        · simp [visit, hreceiver, hnew]
        · simp [hne, visit, hreceiver]

/-- Some words from an offset on have been exchanged, and the delays are those of their bits. -/
structure Exchanged (state : SpiState) (offset words : ℕ) (w w' : World σ f) (bytes : List Byte) :
    Prop where
  board : w'.board = w.board
  calls : ∀ d, heard w'.calls d = heard w.calls d ++
    if d ∈ route.devices then r.outgoing w.memory offset words else []
  length : r.receive = true → bytes.length = f.size * words
  miso : w'.miso = w.miso ++ bytes
  memory : w'.memory = if r.receive = true then
    storeWords f w.memory (r.dst.getD 0 + f.size * offset) words bytes else w.memory
  delays : ∃ added, w'.delays = w.delays ++ added ∧
    added.sum + ceilNs (offset * state.dataBits) state.baudrate =
      ceilNs ((offset + words) * state.dataBits) state.baudrate
  states : ∀ d, Serial (F d) → w'.devices d = if d ∈ route.devices then
    ((F d).transfer (w.devices d) (r.outgoing w.memory offset words)
      ((r.outgoing w.memory offset words).length * 8)).2 else w.devices d
  replies : (∀ d, route.receiver = some d → Serial (F d)) →
    bytes = if r.receive = true then
      replyTo F route w.devices (r.outgoing w.memory offset words) else []

variable {F route r}

theorem Exchanged.trans {state : SpiState} {offset a b : ℕ} {w w' w'' : World σ f}
    {first second : List Byte} (happart : r.Apart)
    (hroute : ∀ device, route.receiver = some device → device ∈ route.devices)
    (hlen : offset + (a + b) ≤ r.len) (h : Exchanged F route r state offset a w w' first)
    (h' : Exchanged F route r state (offset + a) b w' w'' second) :
    Exchanged F route r state offset (a + b) w w'' (first ++ second) := by
  have hlater : r.outgoing w'.memory (offset + a) b = r.outgoing w.memory (offset + a) b := by
    apply outgoing_congr
    intro i hi hlt
    rw [h.memory]
    split
    · rename_i hreceive
      exact word_stored happart hreceive hi (by omega) first
    · rfl
  have hboth := outgoing_add r w.memory offset a b
  refine ⟨h'.board.trans h.board, ?_, ?_, ?_, ?_, ?_, ?_, ?_⟩
  · intro d
    rw [h'.calls d, h.calls d, hlater, List.append_assoc, hboth]
    split
    · rfl
    · rfl
  · intro hreceive
    rw [List.length_append, h.length hreceive, h'.length hreceive, Nat.mul_add]
  · rw [h'.miso, h.miso, List.append_assoc]
  · rw [h'.memory, h.memory]
    split
    · rename_i hreceive
      rw [Nat.mul_add, ← Nat.add_assoc]
      exact storeWords_append f w.memory _ (h.length hreceive)
    · rfl
  · obtain ⟨added, hadded, hsum⟩ := h.delays
    obtain ⟨added', hadded', hsum'⟩ := h'.delays
    refine ⟨added ++ added', ?_, ?_⟩
    · rw [hadded', hadded, List.append_assoc]
    · rw [List.sum_append, ← Nat.add_assoc offset]
      omega
  · intro d hserial
    rw [h'.states d hserial, h.states d hserial, hlater, hboth]
    split
    · rw [hserial]
    · rfl
  · intro hserial
    rw [h.replies hserial, h'.replies hserial, hlater, hboth]
    split
    · cases hreceiver : route.receiver with
      | none => simp only [replyTo, hreceiver, SpiRoute.idle, List.length_append, List.replicate_add]
      | some device =>
        have hdevice := hserial device hreceiver
        have hstate : w'.devices device =
            ((F device).transfer (w.devices device) (r.outgoing w.memory offset a)
              ((r.outgoing w.memory offset a).length * 8)).2 := by
          rw [h.states device hdevice, if_pos (hroute device hreceiver)]
        simp only [replyTo, hreceiver, hstate, hdevice _ (r.outgoing w.memory offset a)]
    · rfl

theorem exact_of_accepted {requested baudrate n : ℕ} (h : spiBaudrate requested = .ok baudrate)
    (hn : n < 2 ^ 36) : Exact n baudrate ∧ durationNs n baudrate = ceilNs n baudrate := by
  obtain ⟨hge, hle⟩ := spiBaudrate_bounds h
  have hexact := exact_of_bounds hn hge hle
  exact ⟨hexact, durationNs_eq (by omega) hexact⟩

theorem ceilNs_lt {n baudrate : ℕ} (hpos : 0 < baudrate) (h : Exact n baudrate) :
    ceilNs n baudrate < 2 ^ 64 := by
  rw [ceilNs, ceilDiv_split n _ hpos]
  exact h.sum

/-- The delay of one chunk is the difference of two times. -/
theorem delay_eq {requested baudrate before after : ℕ} (h : spiBaudrate requested = .ok baudrate)
    (hle : before ≤ after) (hlt : after < 2 ^ 36) :
    u64 (durationNs (u64 after) baudrate + (2 ^ 64 - ceilNs before baudrate)) +
      ceilNs before baudrate = ceilNs after baudrate := by
  obtain ⟨hexact, hduration⟩ := exact_of_accepted h hlt
  have hbound := ceilNs_lt (by have := (spiBaudrate_bounds h).1; omega) hexact
  have hmono := ceilNs_mono baudrate hle
  rw [u64_of_lt hexact.bits, hduration, u64]
  omega

variable {state : SpiState} {requested : ℕ}

theorem chunk_exchanged (haccepted : spiBaudrate requested = .ok state.baudrate)
    (hbits : state.dataBits = 8 * f.size) (hmax : r.len ≤ 2 ^ 31 - 1)
    (hnodup : route.devices.Nodup)
    (hroute : ∀ device, route.receiver = some device → device ∈ route.devices)
    {offset words : ℕ} (hlen : offset + words ≤ r.len) (w : World σ f) :
    ∃ bytes, Exchanged F route r state offset words w
      (chunk F route state r offset words (ceilNs (offset * state.dataBits) state.baudrate) w)
      bytes := by
  have hpass := passed F route r (r.outgoing w.memory offset words) route.devices hnodup
    (w, route.idle (r.outgoing w.memory offset words).length)
  have hdelay := delay_eq haccepted
    (Nat.mul_le_mul_right state.dataBits (Nat.le_add_right offset words))
    (by rw [hbits]; cases f <;> simp only [FrameWidth.size] <;> omega)
  obtain ⟨turn, hturn⟩ : ∃ turn, route.devices.foldl
      (visit F route r.receive (r.outgoing w.memory offset words))
      (w, route.idle (r.outgoing w.memory offset words).length) = turn := ⟨_, rfl⟩
  rw [hturn] at hpass
  have hincoming : r.receive = true →
      turn.2 = replyTo F route w.devices (r.outgoing w.memory offset words) := by
    intro hreceive
    rw [hpass.incoming, replyTo]
    cases hreceiver : route.receiver with
    | none => rfl
    | some device => simp only [hreceive, hroute device hreceiver, and_self, if_true]
  have hdelays : ∃ added, turn.1.delays ++ [u64 (durationNs (u64 ((offset + words) *
      state.dataBits)) state.baudrate + (2 ^ 64 - ceilNs (offset * state.dataBits)
        state.baudrate))] = w.delays ++ added ∧
      added.sum + ceilNs (offset * state.dataBits) state.baudrate =
        ceilNs ((offset + words) * state.dataBits) state.baudrate := by
    refine ⟨_, by rw [hpass.delays], ?_⟩
    rw [List.sum_singleton]
    exact hdelay
  unfold chunk
  simp only [hturn]
  cases hreceive : r.receive with
  | false =>
    refine ⟨[], ?_⟩
    constructor
    · exact hpass.board
    · exact hpass.calls
    · intro hcontra
      rw [hreceive] at hcontra
      cases hcontra
    · exact hpass.miso.trans (List.append_nil _).symm
    · rw [hreceive]
      exact hpass.memory
    · exact hdelays
    · intro d _
      exact hpass.states d
    · intro _
      rw [hreceive]
      rfl
  | true =>
    refine ⟨turn.2, ?_⟩
    constructor
    · exact hpass.board
    · exact hpass.calls
    · intro _
      rw [hincoming hreceive, length_replyTo, length_outgoing]
    · exact congrArg (· ++ turn.2) hpass.miso
    · rw [hreceive, ← hpass.memory]
      rfl
    · exact hdelays
    · intro d _
      exact hpass.states d
    · intro _
      rw [hreceive]
      exact hincoming hreceive

/-- The whole of a transfer, whatever the size of its chunks. -/
theorem chunks_exchanged (haccepted : spiBaudrate requested = .ok state.baudrate)
    (hbits : state.dataBits = 8 * f.size) (hmax : r.len ≤ 2 ^ 31 - 1)
    (hnodup : route.devices.Nodup)
    (hroute : ∀ device, route.receiver = some device → device ∈ route.devices)
    (happart : r.Apart) {chunkWords : ℕ} (hchunk : 0 < chunkWords) (offset : ℕ)
    (hoffset : offset < r.len) (w : World σ f) :
    ∃ bytes, Exchanged F route r state offset (r.len - offset) w
      (chunks F route state r chunkWords offset (ceilNs (offset * state.dataBits) state.baudrate) w)
      bytes := by
  induction hremaining : r.len - offset using Nat.strong_induction_on generalizing offset w with
  | _ remaining ih =>
    have hwords : offset + min (r.len - offset) chunkWords ≤ r.len := by omega
    obtain ⟨first, hfirst⟩ := chunk_exchanged (F := F) haccepted hbits hmax hnodup hroute hwords w
    have hduration : durationNs (u64 ((offset + min (r.len - offset) chunkWords) * state.dataBits))
        state.baudrate =
          ceilNs ((offset + min (r.len - offset) chunkWords) * state.dataBits) state.baudrate := by
      have hlt : (offset + min (r.len - offset) chunkWords) * state.dataBits < 2 ^ 36 := by
        rw [hbits]
        cases f <;> simp only [FrameWidth.size] <;> omega
      obtain ⟨hexact, heq⟩ := exact_of_accepted haccepted hlt
      rw [u64_of_lt hexact.bits, heq]
    rw [chunks, dif_pos ⟨hoffset, hchunk⟩]
    simp only [hduration]
    rcases Nat.lt_or_ge (offset + min (r.len - offset) chunkWords) r.len with hmore | hdone
    · obtain ⟨second, hsecond⟩ := ih (r.len - (offset + min (r.len - offset) chunkWords))
        (by omega) (offset + min (r.len - offset) chunkWords) hmore
        (chunk F route state r offset (min (r.len - offset) chunkWords)
          (ceilNs (offset * state.dataBits) state.baudrate) w) rfl
      have hboth := Exchanged.trans happart hroute (by omega) hfirst hsecond
      have htotal : min (r.len - offset) chunkWords +
          (r.len - (offset + min (r.len - offset) chunkWords)) = remaining := by omega
      rw [htotal] at hboth
      exact ⟨_, hboth⟩
    · have hall : min (r.len - offset) chunkWords = remaining := by omega
      rw [chunks, dif_neg (by omega)]
      exact ⟨first, hall ▸ hfirst⟩

end Chunks

section Calls
variable {σ : Type} {f : FrameWidth} {F : ℕ → Behaviour σ} {fixture : Fixture}
  {selected : ℕ → Bool} {now index chunkWords : ℕ} {r : Request f} {w w' : World σ f} {status : ℤ}

/-- A call that gets past all its checks. -/
structure Accepted (fixture : Fixture) (selected : ℕ → Bool) (now index : ℕ) (r : Request f)
    (b : Board) (route : SpiRoute) : Prop where
  controller : index < 2
  enabled : (b.spis index).enabled = true
  arguments : ¬ ((b.spis index).dataBits ≠ 8 * f.size ∨ 2 ^ 31 - 1 < r.len ∨ (r.len ≠ 0 ∧
    ((r.send = true ∧ r.src = none) ∨ (r.receive = true ∧ r.dst = none))))
  len : r.len ≠ 0
  apart : r.Apart
  time : ¬ tooLong (b.spis index) r now
  route : prepareSpi fixture selected b index r.receive = .ok route

theorem code_neg (status : Status) : status.code < 0 := by
  cases status <;> decide

theorem transferWith_accepted {route : SpiRoute}
    (h : Accepted fixture selected now index r w.board route) :
    transferWith F chunkWords fixture selected now index r w = (do
      let board ← w.board.beginSpi fixture index
      let w₁ := chunks F route (w.board.spis index) r chunkWords 0 0 { w with board := board }
      let board ← w₁.board.endSpi index
      return ({ w₁ with board := board }, (r.len : ℤ))) := by
  have hstate : w.board.spiState index = .ok (w.board.spis index) := by
    rw [Board.spiState, check, if_pos h.controller]
    rfl
  have hapart : ¬ (r.send = true ∧ r.receive = true ∧
      overlaps (r.src.getD 0) (r.dst.getD 0) (r.len * f.size)) := by
    rintro ⟨hsend, hreceive, hover⟩
    exact h.apart hsend hreceive hover
  have henabled : ¬ (w.board.spis index).enabled = false := by
    rw [h.enabled]
    decide
  unfold transferWith
  rw [hstate]
  refine Eq.trans (if_neg henabled) ?_
  rw [if_neg h.arguments, if_neg h.len, if_neg hapart, if_neg h.time, h.route]

/-- A call ends in one of three ways. -/
theorem transferWith_cases
    (h : transferWith F chunkWords fixture selected now index r w = .ok (w', status)) :
    (status < 0 ∧ w' = w) ∨ (r.len = 0 ∧ status = 0 ∧ w' = w) ∨
      ∃ route, Accepted fixture selected now index r w.board route := by
  unfold transferWith at h
  obtain ⟨state, hstate, h⟩ := bind_ok.mp h
  obtain ⟨hindex, hstate⟩ := check_bind_ok.mp hstate
  obtain rfl := pure_ok.mp hstate
  split at h
  · cases h
    exact Or.inl ⟨code_neg _, rfl⟩
  · rename_i henabled
    split at h
    · cases h
      exact Or.inl ⟨code_neg _, rfl⟩
    · rename_i harguments
      split at h
      · rename_i hzero
        cases h
        exact Or.inr (Or.inl ⟨hzero, rfl, rfl⟩)
      · rename_i hlen
        split at h
        · cases h
          exact Or.inl ⟨code_neg _, rfl⟩
        · rename_i hover
          split at h
          · cases h
            exact Or.inl ⟨code_neg _, rfl⟩
          · rename_i htime
            split at h
            · cases h
              exact Or.inl ⟨code_neg _, rfl⟩
            · rename_i route hroute
              refine Or.inr (Or.inr ⟨route, hindex, ?_, harguments, hlen, ?_, htime, hroute⟩)
              · simpa using henabled
              · intro hsend hreceive hoverlaps
                exact hover ⟨hsend, hreceive, hoverlaps⟩

/-- Without words there are no chunks. -/
theorem transferWith_empty (hlen : r.len = 0) (a b : ℕ) :
    transferWith F a fixture selected now index r w =
      transferWith F b fixture selected now index r w := by
  unfold transferWith
  simp only [hlen, if_true]

/-- The chunks of an accepted call. -/
theorem accepted_chunks {requested : ℕ} {route : SpiRoute}
    (haccepted : spiBaudrate requested = .ok (w.board.spis index).baudrate)
    (hdistinct : (w.board.spiConnections.map SpiConnection.device).Nodup)
    (hcall : Accepted fixture selected now index r w.board route) (hchunk : 0 < chunkWords)
    (board : Board) :
    ∃ bytes, Exchanged F route r (w.board.spis index) 0 r.len { w with board := board }
      (chunks F route (w.board.spis index) r chunkWords 0 0 { w with board := board }) bytes := by
  have hroute := prepareSpi_over hcall.route
  have harguments := hcall.arguments
  have hpos := hcall.len
  rw [not_or, not_or, not_ne_iff, Nat.not_lt] at harguments
  have hzero : ceilNs (0 * (w.board.spis index).dataBits) (w.board.spis index).baudrate = 0 := by
    rw [ceilNs, Nat.zero_mul, Nat.zero_mul, zero_ceilDiv]
  obtain ⟨bytes, hbytes⟩ := chunks_exchanged (F := F) haccepted harguments.1 harguments.2.1
    (hroute.sublist.nodup hdistinct) hroute.receiver hcall.apart hchunk 0 (Nat.pos_of_ne_zero hpos)
    { w with board := board }
  rw [hzero] at hbytes
  exact ⟨bytes, hbytes⟩

/-- An accepted call between the two marks of the controller. -/
theorem accepted_runs {requested : ℕ} {route : SpiRoute} {board board' : Board}
    (haccepted : spiBaudrate requested = .ok (w.board.spis index).baudrate)
    (hdistinct : (w.board.spiConnections.map SpiConnection.device).Nodup)
    (hcall : Accepted fixture selected now index r w.board route) (hchunk : 0 < chunkWords)
    (hbegin : w.board.beginSpi fixture index = .ok board)
    (hend : board.endSpi index = .ok board') :
    transferWith F chunkWords fixture selected now index r w =
      .ok ({ chunks F route (w.board.spis index) r chunkWords 0 0 { w with board := board } with
        board := board' }, (r.len : ℤ)) := by
  obtain ⟨bytes, hbytes⟩ := accepted_chunks (F := F) haccepted hdistinct hcall hchunk board
  rw [transferWith_accepted hcall]
  refine bind_ok.mpr ⟨board, hbegin, bind_ok.mpr ⟨board', ?_, rfl⟩⟩
  rw [hbytes.board]
  exact hend

/-- What an accepted call leaves. -/
theorem accepted_exchanged {requested : ℕ} {route : SpiRoute}
    (haccepted : spiBaudrate requested = .ok (w.board.spis index).baudrate)
    (hdistinct : (w.board.spiConnections.map SpiConnection.device).Nodup)
    (hcall : Accepted fixture selected now index r w.board route) (hchunk : 0 < chunkWords)
    (h : transferWith F chunkWords fixture selected now index r w = .ok (w', status)) :
    status = r.len ∧ ∃ board board' w₁ bytes, w.board.beginSpi fixture index = .ok board ∧
      board.endSpi index = .ok board' ∧ w' = { w₁ with board := board' } ∧
      Exchanged F route r (w.board.spis index) 0 r.len { w with board := board } w₁ bytes := by
  rw [transferWith_accepted hcall] at h
  obtain ⟨board, hbegin, h⟩ := bind_ok.mp h
  obtain ⟨board', hend, h⟩ := bind_ok.mp h
  obtain ⟨hworld, hstatus⟩ := Prod.mk.inj (pure_ok.mp h)
  obtain ⟨bytes, hbytes⟩ := accepted_chunks (F := F) haccepted hdistinct hcall hchunk board
  rw [hbytes.board] at hend
  exact ⟨hstatus.symm, board, board', _, bytes, hbegin, hend, hworld.symm, hbytes⟩

/-- What a device sees and what comes in do not depend on the size of the chunks. -/
theorem rechunked {requested chunkWords' : ℕ} {route : SpiRoute}
    (haccepted : spiBaudrate requested = .ok (w.board.spis index).baudrate)
    (hdistinct : (w.board.spiConnections.map SpiConnection.device).Nodup)
    (hcall : Accepted fixture selected now index r w.board route) (hchunk : 0 < chunkWords)
    (hchunk' : 0 < chunkWords')
    (h : transferWith F chunkWords fixture selected now index r w = .ok (w', status)) :
    ∃ w'', transferWith F chunkWords' fixture selected now index r w = .ok (w'', status) ∧
      (∀ d, heard w''.calls d = heard w'.calls d) ∧
      ((∀ d, route.receiver = some d → Serial (F d)) → w''.memory = w'.memory) := by
  obtain ⟨hstatus, board, board', w₁, bytes, hbegin, hend, hworld, hbytes⟩ :=
    accepted_exchanged haccepted hdistinct hcall hchunk h
  obtain ⟨bytes', hbytes'⟩ := accepted_chunks (F := F) haccepted hdistinct hcall hchunk' board
  refine ⟨{ chunks F route (w.board.spis index) r chunkWords' 0 0 { w with board := board } with
    board := board' }, ?_, ?_, ?_⟩
  · rw [hstatus]
    exact accepted_runs haccepted hdistinct hcall hchunk' hbegin hend
  · intro d
    rw [hworld]
    exact (hbytes'.calls d).trans (hbytes.calls d).symm
  · intro hserial
    have hsame : bytes' = bytes := (hbytes'.replies hserial).trans (hbytes.replies hserial).symm
    rw [hworld]
    refine hbytes'.memory.trans ?_
    rw [hsame]
    exact hbytes.memory.symm

end Calls

/-- A device is attached once. -/
theorem attachSpiDevice_distinct {fixture : Fixture} {b b' : Board} {device : ℕ} {clk miso mosi : ℤ}
    (hdistinct : (b.spiConnections.map SpiConnection.device).Nodup)
    (h : b.attachSpiDevice fixture device clk miso mosi = .ok b') :
    (b'.spiConnections.map SpiConnection.device).Nodup := by
  unfold Board.attachSpiDevice at h
  obtain ⟨_, -, h⟩ := bind_ok.mp h
  obtain ⟨_, -, h⟩ := bind_ok.mp h
  obtain ⟨_, -, h⟩ := bind_ok.mp h
  obtain ⟨-, h⟩ := check_bind_ok.mp h
  obtain ⟨-, h⟩ := check_bind_ok.mp h
  obtain ⟨-, h⟩ := check_bind_ok.mp h
  obtain ⟨-, h⟩ := check_bind_ok.mp h
  obtain ⟨_, -, h⟩ := bind_ok.mp h
  obtain ⟨_, -, h⟩ := bind_ok.mp h
  obtain ⟨_, -, h⟩ := bind_ok.mp h
  obtain ⟨_, -, h⟩ := bind_ok.mp h
  obtain ⟨hnew, h⟩ := check_bind_ok.mp h
  obtain rfl := pure_ok.mp h
  simp only [Board.reserve, List.map_append, List.map_cons, List.map_nil]
  rw [List.nodup_append]
  refine ⟨hdistinct, List.nodup_singleton _, ?_⟩
  intro old hold new' hnew' heq
  obtain ⟨connection, hconnection, rfl⟩ := List.mem_map.1 hold
  rw [List.mem_singleton.1 hnew'] at heq
  exact hnew connection hconnection heq

/-- A call with an error status leaves everything as it was. Any other has exchanged all its words:
the delays add up to the time of all bits rounded up, without a step of `DurationNs` leaving
`uint64_t`; and a device has seen the bytes, and the caller (of a device to which two transfers are
as good as one) received the words, that a single chunk would have brought. -/
theorem transfer_chunked {σ : Type} {f : FrameWidth} {F : ℕ → Behaviour σ} {fixture : Fixture}
    {selected : ℕ → Bool} {now index requested : ℕ} {r : Request f} {w w' : World σ f} {status : ℤ}
    (haccepted : spiBaudrate requested = .ok (w.board.spis index).baudrate)
    (hdistinct : (w.board.spiConnections.map SpiConnection.device).Nodup)
    (h : transfer F fixture selected now index r w = .ok (w', status)) :
    (status < 0 → w' = w) ∧
    (0 ≤ status → status = r.len ∧
      (∃ added, w'.delays = w.delays ++ added ∧
        added.sum = ceilNs (r.len * (8 * f.size)) (w.board.spis index).baudrate) ∧
      (∀ n, n ≤ r.len → Exact (n * (8 * f.size)) (w.board.spis index).baudrate) ∧
      ∀ route, prepareSpi fixture selected w.board index r.receive = .ok route →
        (∀ d, heard w'.calls d = heard w.calls d ++
          if d ∈ route.devices then r.outgoing w.memory 0 r.len else []) ∧
        ∃ w'', transferWith F r.len fixture selected now index r w = .ok (w'', status) ∧
          (∀ d, heard w''.calls d = heard w'.calls d) ∧
          ((∀ d, route.receiver = some d → Serial (F d)) → w''.memory = w'.memory)) := by
  have hexact : ∀ n, n ≤ r.len → r.len ≤ 2 ^ 31 - 1 →
      Exact (n * (8 * f.size)) (w.board.spis index).baudrate := by
    intro n hn hmax
    refine (exact_of_accepted haccepted ?_).1
    cases f <;> simp only [FrameWidth.size] <;> omega
  have hsize : 0 < kChunkBytes / f.size := by
    cases f <;> decide
  rcases transferWith_cases h with ⟨hneg, hworld⟩ | ⟨hlen, hzero, rfl⟩ | ⟨route, hcall⟩
  · refine ⟨fun _ => hworld, ?_⟩
    intro hnonneg
    omega
  · refine ⟨fun _ => rfl, ?_⟩
    intro _
    refine ⟨by omega, ⟨[], (List.append_nil _).symm, ?_⟩, ?_, ?_⟩
    · rw [hlen, ceilNs, Nat.zero_mul, Nat.zero_mul, zero_ceilDiv]
      rfl
    · intro n hn
      exact hexact n hn (by omega)
    · intro route _
      refine ⟨?_, w', ?_, fun _ => rfl, fun _ => rfl⟩
      · intro d
        rw [hlen]
        symm
        split <;> exact List.append_nil _
      · rw [transferWith_empty hlen r.len (kChunkBytes / f.size)]
        exact h
  · obtain ⟨hstatus, board, board', w₁, bytes, hbegin, hend, rfl, hbytes⟩ :=
      accepted_exchanged haccepted hdistinct hcall hsize h
    have harguments := hcall.arguments
    rw [not_or, not_or, not_ne_iff, Nat.not_lt] at harguments
    refine ⟨fun hneg => by omega, ?_⟩
    intro _
    refine ⟨hstatus, ?_, ?_, ?_⟩
    · obtain ⟨added, hadded, hsum⟩ := hbytes.delays
      refine ⟨added, hadded, ?_⟩
      rw [Nat.zero_add, harguments.1, Nat.zero_mul, ceilNs, Nat.zero_mul, zero_ceilDiv] at hsum
      exact hsum
    · intro n hn
      exact hexact n hn harguments.2.1
    · intro route' hroute'
      obtain rfl : route = route' := by
        rw [hcall.route] at hroute'
        exact Except.ok.inj hroute'
      refine ⟨hbytes.calls, ?_⟩
      exact rechunked haccepted hdistinct hcall hsize (Nat.pos_of_ne_zero hcall.len) h

/-- One device on pins 16, 18 and 19, at a rate near 1 MHz. -/
def smallBoard : Board :=
  { initial with
    pins := fun pin => if pin = 16 ∨ pin = 18 ∨ pin = 19 then { function := .spi } else {}
    spis := fun _ => { enabled := true, baudrate := 992063 }
    spiConnections := [⟨0, 18, 16, 19⟩] }

def smallFixture : Fixture := ⟨true, fun _ => 0, fun _ => 0⟩

/-- It replies with the complement of what it is sent. -/
def complement : Behaviour Unit where
  transfer := fun _ bytes _ => (bytes.map (~~~ ·), ())
  length_eq := fun _ _ _ => List.length_map _

def smallWorld : World Unit .byte := ⟨smallBoard, fun a => BitVec.ofNat 8 a, fun _ => (), [], [], []⟩

def twoBytes : Request .byte := ⟨some 0, some 100, 2, 0, true, true⟩

def smallRoute : SpiRoute := ⟨[0], some 0, false⟩

theorem smallAccepted :
    Accepted smallFixture (fun _ => true) 0 0 twoBytes smallWorld.board smallRoute where
  controller := by decide
  enabled := rfl
  arguments := by decide
  len := by decide
  apart := fun _ _ => by decide
  time := by decide +kernel
  route := by rfl

theorem transfer_chunked_two : ∃ w',
    transfer (fun _ => complement) smallFixture (fun _ => true) 0 0 twoBytes smallWorld =
      .ok (w', 2) ∧
    heard w'.calls 0 = [0, 1] ∧ w'.delays.sum = 16129 := by
  have haccepted : spiBaudrate 1000000 = .ok 992063 := by decide +kernel
  have hdistinct : (smallWorld.board.spiConnections.map SpiConnection.device).Nodup := by decide
  have hrun : ∃ w', transfer (fun _ => complement) smallFixture (fun _ => true) 0 0 twoBytes
      smallWorld = .ok (w', 2) :=
    ⟨_, accepted_runs haccepted hdistinct smallAccepted (by decide) rfl rfl⟩
  obtain ⟨w', hw'⟩ := hrun
  obtain ⟨-, hok⟩ := transfer_chunked haccepted hdistinct hw'
  obtain ⟨-, ⟨added, hadded, hsum⟩, -, hroute⟩ := hok (by decide)
  refine ⟨w', hw', ?_, ?_⟩
  · rw [(hroute smallRoute rfl).1 0]
    decide +kernel
  · rw [hadded, List.sum_append, hsum]
    decide +kernel

end RooTesting.PicoSpi
