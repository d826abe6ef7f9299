import RooTesting.Esp32Spi
import Mathlib.Algebra.Order.Floor.Div
import Mathlib.GroupTheory.GroupAction.Ring
import Mathlib.Data.List.GetD
import Mathlib.Logic.Function.Basic
import Mathlib.Tactic.Common
import Mathlib.Algebra.Group.Int.Defs
import Mathlib.Algebra.Group.Nat.Defs

/-! # Transactions of the SPI master driver

A transaction goes out in phases, and each phase hands its bytes to the devices on the bus. The
memory of the caller is a function of the address, and the driver's accesses to it are written
down. -/
namespace RooTesting.IdfSpi
open Esp32Spi (Byte)

/-- What a device is shown of the bus. -/
structure Interface where
  clkHz : ℕ
  dataMode : ℕ
  lsbFirst : Bool

/-- A fake device replies in place, and may notice the edges of its chip select. -/
structure Fake (σ : Type) where
  transfer : Interface → σ → List Byte → ℕ → List Byte × σ
  onChipSelect : σ → Bool → σ
  length_eq : ∀ i s bytes bits, (transfer i s bytes bits).1.length = bytes.length

structure Device (σ : Type) where
  clk : ℤ
  miso : ℤ
  mosi : ℤ
  isSelected : (ℤ → Bool) → Bool
  state : σ

structure Bus where
  sclk : ℤ
  mosi : ℤ
  miso : ℤ

/-- `spi_device_interface_config_t`. -/
structure Config where
  commandBits : ℕ
  addressBits : ℕ
  dummyBits : ℕ
  mode : ℕ
  clockSpeedHz : ℤ
  spicsIoNum : ℤ
  flags : BitVec 32

/-- Bytes of the caller. -/
structure Buffer where
  start : ℕ
  size : ℕ
  deriving DecidableEq

/-- `spi_transaction_ext_t`; the inline data is known by its address. -/
structure Transaction where
  flags : BitVec 32
  cmd : BitVec 16
  addr : BitVec 64
  length : ℕ
  rxlength : ℕ
  overrideFreqHz : ℕ
  txBuffer : Option Buffer
  txData : ℕ
  rxBuffer : Option Buffer
  rxData : ℕ
  commandBits : ℕ
  addressBits : ℕ
  dummyBits : ℕ

def hasFlag (flags : BitVec 32) (bit : ℕ) : Bool := flags.getLsbD bit

def Config.txLsbFirst (config : Config) : Bool := hasFlag config.flags 0

def Config.positiveCs (config : Config) : Bool := hasFlag config.flags 3

def Config.halfDuplex (config : Config) : Bool := hasFlag config.flags 4

def Transaction.useRxData (t : Transaction) : Bool := hasFlag t.flags 2

def Transaction.useTxData (t : Transaction) : Bool := hasFlag t.flags 3

def Transaction.variableCmd (t : Transaction) : Bool := hasFlag t.flags 5

def Transaction.variableAddr (t : Transaction) : Bool := hasFlag t.flags 6

def Transaction.variableDummy (t : Transaction) : Bool := hasFlag t.flags 7

def Transaction.csKeepActive (t : Transaction) : Bool := hasFlag t.flags 8

/-- The transmit buffer: the four bytes in the transaction, or those behind its pointer. -/
def Transaction.tx (t : Transaction) : Option Buffer :=
  if t.useTxData then some ⟨t.txData, 4⟩ else t.txBuffer

def Transaction.rx (t : Transaction) : Option Buffer :=
  if t.useRxData then some ⟨t.rxData, 4⟩ else t.rxBuffer

def Transaction.rxBits (t : Transaction) : ℕ := if t.rxlength = 0 then t.length else t.rxlength

/-- Where the bytes of a phase come from. -/
inductive Source
  | idle
  | own (bytes : List Byte)
  | memory (start : ℕ)

structure Phase where
  source : Source
  bytes : List Byte
  bits : ℕ

structure World (σ : Type) where
  cells : ℕ → Byte
  reads : List ℕ
  writes : List ℕ
  phases : List Phase
  levels : ℤ → Bool
  csActive : Bool
  devices : List (Device σ)

def load (cells : ℕ → Byte) (start n : ℕ) : List Byte :=
  (List.range n).map fun k => cells (start + k)

def store (cells : ℕ → Byte) (start : ℕ) (bytes : List Byte) (a : ℕ) : Byte :=
  if start ≤ a then bytes.getD (a - start) (cells a) else cells a

/-- In `size_t`. -/
def byteCount (bits : ℕ) : ℕ := (bits + 7) % 2 ^ 64 / 8

def Source.outgoing (cells : ℕ → Byte) (n : ℕ) : Source → List Byte
  | .idle => List.replicate n 0xFF
  | .own bytes => bytes.take n
  | .memory start => load cells start n

def Source.touched (n : ℕ) : Source → List ℕ
  | .idle => []
  | .own _ => []
  | .memory start => List.range' start n

def interface (config : Config) (t : Transaction) : Interface where
  clkHz := if t.overrideFreqHz ≠ 0 then t.overrideFreqHz else (config.clockSpeedHz % 2 ^ 32).toNat
  dataMode := config.mode % 4
  lsbFirst := config.txLsbFirst

/-- One turn of the loop of `SerializeValue`. -/
def serializeBit (value : BitVec 64) (bitCount : ℕ) (lsbFirst : Bool) (result : List Byte)
    (outputBit : ℕ) : List Byte :=
  let valueBit := if lsbFirst then outputBit else bitCount - outputBit - 1
  if value.getLsbD valueBit then
    result.modify (outputBit / 8) fun byte =>
      byte ||| 1#8 <<< (if lsbFirst then outputBit % 8 else 7 - outputBit % 8)
  else result

def serializeValue (value : BitVec 64) (bitCount : ℕ) (lsbFirst : Bool) : List Byte :=
  (List.range bitCount).foldl (serializeBit value bitCount lsbFirst)
    (List.replicate ((bitCount + 7) / 8) 0)

section Driver
variable {σ : Type} (F : Fake σ) (validGpio : ℤ → Bool) (bus : Bus) (config : Config)

/-- A device notices a change of the levels by its chip select alone. -/
def Device.notice (old new : ℤ → Bool) (d : Device σ) : Device σ :=
  if d.isSelected new = d.isSelected old then d
  else { d with state := F.onChipSelect d.state (d.isSelected new) }

def World.setChipSelect (w : World σ) (active : Bool) : World σ :=
  if validGpio config.spicsIoNum = false then w
  else
    let levels := Function.update w.levels config.spicsIoNum (active == config.positiveCs)
    { w with
      levels := levels
      csActive := active
      devices := w.devices.map (Device.notice F w.levels levels) }

/-- The calls of a device's `transfer`: at most 512 bits at a time, on the bytes that are left. -/
def exchange (i : Interface) (s : σ) (rest : List Byte) (bits : ℕ) : List Byte × σ :=
  if _h : bits = 0 then (rest, s)
  else
    let chunkBits := min bits 512
    let chunk := (chunkBits + 7) / 8
    let (reply, s) := F.transfer i s (rest.take chunk) chunkBits
    let (tail, s) := exchange i s (rest.drop chunk) (bits - chunkBits)
    (reply ++ tail, s)
termination_by bits
decreasing_by omega

/-- What has come in so far on MISO. -/
structure Input where
  found : Option (List Byte)
  conflict : Bool

def Input.offer (input : Input) (transferred : List Byte) : Input :=
  match input.found with
  | none => { input with found := some transferred }
  | some _ => { input with conflict := true }

/-- Without a driver MISO reads high, and a conflict reads the same. -/
def Input.bytes (input : Input) (n : ℕ) : List Byte :=
  match input.found, input.conflict with
  | some transferred, false => transferred
  | _, _ => List.replicate n 0xFF

/-- The bytes that a device is lent: the outgoing ones, or the level of another MOSI pin. -/
def Device.lent (d : Device σ) (levels : ℤ → Bool) (outgoing : List Byte) : List Byte :=
  if d.mosi = bus.mosi then outgoing
  else outgoing.map fun _ => if d.mosi < 0 ∨ levels d.mosi = true then 0xFF else 0x00

def visit (i : Interface) (levels : ℤ → Bool) (outgoing : List Byte) (bits : ℕ) (input : Input)
    (d : Device σ) : Input × Device σ :=
  if d.clk ≠ bus.sclk ∨ d.isSelected levels = false then (input, d)
  else
    let (transferred, state) := exchange F i d.state (d.lent bus levels outgoing) bits
    (if d.miso = bus.miso then input.offer transferred else input, { d with state := state })

def walk (i : Interface) (levels : ℤ → Bool) (outgoing : List Byte) (bits : ℕ) :
    Input → List (Device σ) → Input × List (Device σ)
  | input, [] => (input, [])
  | input, d :: ds =>
      let (input, d) := visit F bus i levels outgoing bits input d
      let (input, ds) := walk i levels outgoing bits input ds
      (input, d :: ds)

def World.transferPhase (w : World σ) (t : Transaction) (tx : Source) (rx : Option Buffer)
    (bits : ℕ) : World σ :=
  if bits = 0 then w
  else
    let n := byteCount bits
    let outgoing := tx.outgoing w.cells n
    let (input, devices) :=
      walk F bus (interface config t) w.levels outgoing bits ⟨none, false⟩ w.devices
    let w := { w with
      reads := w.reads ++ tx.touched n
      phases := w.phases ++ [⟨tx, outgoing, bits⟩]
      devices := devices }
    match rx with
    | none => w
    | some buffer => { w with
        cells := store w.cells buffer.start (input.bytes n)
        writes := w.writes ++ List.range' buffer.start n }

def Transaction.commandPhaseBits (t : Transaction) : ℕ :=
  if t.variableCmd then t.commandBits else config.commandBits

def Transaction.addressPhaseBits (t : Transaction) : ℕ :=
  if t.variableAddr then t.addressBits else config.addressBits

def Transaction.dummyPhaseBits (t : Transaction) : ℕ :=
  if t.variableDummy then t.dummyBits else config.dummyBits

def sourceOf : Option Buffer → Source
  | none => .idle
  | some buffer => .memory buffer.start

/-- The device is half-duplex, and the transaction sends as well as receives. -/
def Transaction.Separate (t : Transaction) : Prop :=
  config.halfDuplex = true ∧ t.tx.isSome = true ∧ t.rx.isSome = true

instance separateDecidable (t : Transaction) : Decidable (t.Separate config) :=
  inferInstanceAs (Decidable (_ ∧ _))

def World.sendCommand (w : World σ) (t : Transaction) : World σ :=
  let bits := t.commandPhaseBits config
  if bits ≠ 0 then
    w.transferPhase F bus config t
      (.own (serializeValue (t.cmd.setWidth 64) bits config.txLsbFirst)) none bits
  else w

def World.sendAddress (w : World σ) (t : Transaction) : World σ :=
  let bits := t.addressPhaseBits config
  if bits ≠ 0 then
    w.transferPhase F bus config t (.own (serializeValue t.addr bits config.txLsbFirst)) none bits
  else w

def World.sendDummy (w : World σ) (t : Transaction) : World σ :=
  let bits := t.dummyPhaseBits config
  if bits ≠ 0 then w.transferPhase F bus config t .idle none bits else w

def World.transferData (w : World σ) (t : Transaction) : World σ :=
  if t.Separate config then
    let w := w.transferPhase F bus config t (sourceOf t.tx) none t.length
    w.transferPhase F bus config t .idle t.rx t.rxBits
  else w.transferPhase F bus config t (sourceOf t.tx) t.rx (max t.length t.rxBits)

def World.transferTransaction (w : World σ) (t : Transaction) (forceKeepCs : Bool) : World σ :=
  let w := if w.csActive then w else w.setChipSelect F validGpio config true
  let w := w.sendCommand F bus config t
  let w := w.sendAddress F bus config t
  let w := w.sendDummy F bus config t
  let w := w.transferData F bus config t
  if forceKeepCs || t.csKeepActive then w else w.setChipSelect F validGpio config false

inductive EspErr | invalidArg | invalidState
  deriving DecidableEq

/-- The calls that take a transaction. -/
inductive Entry | pollingTransmit | transmit | queueTrans | pollingStart
  deriving DecidableEq

structure Handle where
  bus : Bus
  config : Config
  queued : Option Transaction

def submit (entry : Entry) (handle : Option Handle) (transaction : Option Transaction)
    (w : World σ) : Except EspErr (World σ × Handle) :=
  match handle, transaction with
  | some handle, some t =>
      match entry with
      | .pollingTransmit | .transmit =>
          .ok (w.transferTransaction F validGpio handle.bus handle.config t false, handle)
      | .queueTrans =>
          if handle.queued.isSome then .error .invalidState
          else .ok (w.transferTransaction F validGpio handle.bus handle.config t false,
            { handle with queued := some t })
      | .pollingStart =>
          if handle.queued.isSome then .error .invalidState
          else .ok (w.transferTransaction F validGpio handle.bus handle.config t true,
            { handle with queued := some t })
  | _, _ => .error .invalidArg

end Driver

/-- The bits of the phase that the transmit buffer goes out in. -/
def Transaction.txPhaseBits (config : Config) (t : Transaction) : ℕ :=
  if t.Separate config then t.length else max t.length t.rxBits

def Transaction.rxPhaseBits (config : Config) (t : Transaction) : ℕ :=
  if t.Separate config then t.rxBits else max t.length t.rxBits

/-- The first bytes of a buffer by their addresses. -/
def firstOf (buffer : Option Buffer) (n : ℕ) : List ℕ :=
  match buffer with
  | none => []
  | some buffer => List.range' buffer.start n

def Phase.fromCaller (phase : Phase) : List Byte :=
  match phase.source with
  | .memory _ => phase.bytes
  | _ => []

/-- The bytes of the caller that have gone out. -/
def clockedOut (phases : List Phase) : List Byte := phases.flatMap Phase.fromCaller

/-- A run reads the first bytes of the transmit buffer and clocks them out, writes the first bytes
of the receive buffer, and leaves all the rest of the memory alone. -/
structure Framed {σ : Type} (t : Transaction) (w w' : World σ) : Prop where
  reads : w'.reads = w.reads ++ firstOf t.tx (t.length ⌈/⌉ 8)
  clocked : ∃ phases, w'.phases = w.phases ++ phases ∧
    clockedOut phases = (firstOf t.tx (t.length ⌈/⌉ 8)).map w.cells
  writes : w'.writes = w.writes ++ firstOf t.rx (t.rxBits ⌈/⌉ 8)
  rest : ∀ a, a ∉ firstOf t.rx (t.rxBits ⌈/⌉ 8) → w'.cells a = w.cells a
  txFits : ∀ buffer, t.tx = some buffer → t.length ⌈/⌉ 8 ≤ buffer.size
  rxFits : ∀ buffer, t.rx = some buffer → t.rxBits ⌈/⌉ 8 ≤ buffer.size

/-- Each buffer is long enough for its length, and the phase that serves it has just as many
bytes. -/
structure InFrame (config : Config) (t : Transaction) : Prop where
  tx : ∀ buffer, t.tx = some buffer →
    byteCount (t.txPhaseBits config) = t.length ⌈/⌉ 8 ∧ t.length ⌈/⌉ 8 ≤ buffer.size
  rx : ∀ buffer, t.rx = some buffer →
    byteCount (t.rxPhaseBits config) = t.rxBits ⌈/⌉ 8 ∧ t.rxBits ⌈/⌉ 8 ≤ buffer.size

section Memory
variable {cells : ℕ → Byte} {start n : ℕ}

theorem load_eq_map (cells : ℕ → Byte) (start n : ℕ) :
    load cells start n = (List.range' start n).map cells := by
  rw [load, List.range'_eq_map_range, List.map_map]
  rfl

@[simp] theorem length_load : (load cells start n).length = n := by
  rw [load, List.length_map, List.length_range]

theorem store_outside {bytes : List Byte} {a : ℕ} (h : a ∉ List.range' start bytes.length) :
    store cells start bytes a = cells a := by
  unfold store
  split
  · rename_i hle
    rw [List.mem_range'_1] at h
    exact List.getD_eq_default _ _ (by omega)
  · rfl

end Memory

section Traces
variable {σ : Type} (F : Fake σ) (validGpio : ℤ → Bool) (bus : Bus) (config : Config)
  {w w' w'' : World σ}

/-- What a part of a run has added to the books. -/
structure Traced (w w' : World σ) (read written : List ℕ) (sent : List Phase) : Prop where
  reads : w'.reads = w.reads ++ read
  writes : w'.writes = w.writes ++ written
  phases : w'.phases = w.phases ++ sent
  rest : ∀ a, a ∉ written → w'.cells a = w.cells a

theorem Traced.refl (w : World σ) : Traced w w [] [] [] :=
  ⟨(List.append_nil _).symm, (List.append_nil _).symm, (List.append_nil _).symm, fun _ _ => rfl⟩

theorem Traced.trans {read read' written written' : List ℕ} {sent sent' : List Phase}
    (h : Traced w w' read written sent) (h' : Traced w' w'' read' written' sent') :
    Traced w w'' (read ++ read') (written ++ written') (sent ++ sent') := by
  refine ⟨?_, ?_, ?_, ?_⟩
  · rw [h'.reads, h.reads, List.append_assoc]
  · rw [h'.writes, h.writes, List.append_assoc]
  · rw [h'.phases, h.phases, List.append_assoc]
  · intro a ha
    rw [List.mem_append, not_or] at ha
    rw [h'.rest a ha.2, h.rest a ha.1]

/-- Without a write the memory is the same. -/
theorem Traced.cells_eq {read : List ℕ} {sent : List Phase} (h : Traced w w' read [] sent) :
    w'.cells = w.cells := by
  funext a
  exact h.rest a (List.not_mem_nil)

theorem setChipSelect_traced (w : World σ) (active : Bool) :
    Traced w (w.setChipSelect F validGpio config active) [] [] [] := by
  unfold World.setChipSelect
  split
  · exact Traced.refl w
  · exact ⟨(List.append_nil _).symm, (List.append_nil _).symm, (List.append_nil _).symm,
      fun _ _ => rfl⟩

/-- A device gives back as many bytes as it was lent. -/
theorem length_exchange (F : Fake σ) (i : Interface) (s : σ) (rest : List Byte) (bits : ℕ) :
    (exchange F i s rest bits).1.length = rest.length := by
  fun_induction exchange F i s rest bits with
  | case1 s rest => rfl
  | case2 s rest bits h chunkBits chunk reply s' hreply tail s'' htail ih =>
    have hlength := F.length_eq i s (rest.take chunk) chunkBits
    rw [hreply] at hlength
    rw [htail] at ih
    simp only [List.length_append, ih, hlength, List.length_take, List.length_drop]
    omega

/-- What has come in has the length of what goes out. -/
def Input.Sized (n : ℕ) (input : Input) : Prop :=
  ∀ transferred, input.found = some transferred → transferred.length = n

theorem Input.Sized.offer {n : ℕ} {input : Input} {transferred : List Byte} (h : input.Sized n)
    (hlength : transferred.length = n) : (input.offer transferred).Sized n := by
  unfold Input.offer
  cases hfound : input.found with
  | none =>
    intro bytes hbytes
    cases hbytes
    exact hlength
  | some first =>
    intro bytes hbytes
    apply h
    rw [hfound]
    exact hbytes

theorem Input.Sized.length_bytes {n : ℕ} {input : Input} (h : input.Sized n) :
    (input.bytes n).length = n := by
  unfold Input.bytes
  split
  · rename_i hfound _
    exact h _ hfound
  · exact List.length_replicate

theorem length_lent (d : Device σ) (levels : ℤ → Bool) (outgoing : List Byte) :
    (d.lent bus levels outgoing).length = outgoing.length := by
  unfold Device.lent
  split
  · rfl
  · exact List.length_map _

theorem visit_sized (i : Interface) (levels : ℤ → Bool) (bits : ℕ) {outgoing : List Byte}
    {input : Input} {d : Device σ} (h : input.Sized outgoing.length) :
    (visit F bus i levels outgoing bits input d).1.Sized outgoing.length := by
  unfold visit
  split
  · exact h
  · simp only
    split
    · apply h.offer
      rw [length_exchange, length_lent]
    · exact h

theorem walk_sized (i : Interface) (levels : ℤ → Bool) (bits : ℕ) {outgoing : List Byte}
    {input : Input} (ds : List (Device σ)) (h : input.Sized outgoing.length) :
    (walk F bus i levels outgoing bits input ds).1.Sized outgoing.length := by
  induction ds generalizing input with
  | nil => exact h
  | cons d ds ih => exact ih (visit_sized F bus i levels bits h)

/-- The bytes of the caller, or ones. -/
theorem length_outgoing (cells : ℕ → Byte) (n : ℕ) (buffer : Option Buffer) :
    ((sourceOf buffer).outgoing cells n).length = n := by
  cases buffer with
  | none => exact List.length_replicate
  | some buffer => exact length_load

def phasesOf (tx : Source) (cells : ℕ → Byte) (bits : ℕ) : List Phase :=
  if bits = 0 then [] else [⟨tx, tx.outgoing cells (byteCount bits), bits⟩]

/-- A phase that receives nothing. -/
theorem sendPhase_traced (w : World σ) (t : Transaction) (tx : Source) (bits : ℕ) :
    Traced w (w.transferPhase F bus config t tx none bits) (tx.touched (byteCount bits)) []
      (phasesOf tx w.cells bits) := by
  unfold World.transferPhase phasesOf
  rcases Nat.eq_zero_or_pos bits with rfl | hpos
  · rw [if_pos rfl, if_pos rfl]
    cases tx <;> exact Traced.refl w
  · rw [if_neg hpos.ne', if_neg hpos.ne']
    exact ⟨rfl, (List.append_nil _).symm, rfl, fun _ _ => rfl⟩

theorem transferPhase_traced (w : World σ) (t : Transaction) (tx rx : Option Buffer) (bits : ℕ) :
    Traced w (w.transferPhase F bus config t (sourceOf tx) rx bits) (firstOf tx (byteCount bits))
      (firstOf rx (byteCount bits)) (phasesOf (sourceOf tx) w.cells bits) := by
  have htouched : (sourceOf tx).touched (byteCount bits) = firstOf tx (byteCount bits) := by
    cases tx <;> rfl
  cases rx with
  | none => exact htouched ▸ sendPhase_traced F bus config w t (sourceOf tx) bits
  | some buffer =>
    unfold World.transferPhase phasesOf
    rcases Nat.eq_zero_or_pos bits with rfl | hpos
    · rw [if_pos rfl, if_pos rfl]
      cases tx <;> exact Traced.refl w
    · rw [if_neg hpos.ne', if_neg hpos.ne', ← htouched]
      refine ⟨rfl, rfl, rfl, ?_⟩
      have hnone : Input.Sized ((sourceOf tx).outgoing w.cells (byteCount bits)).length
          ⟨none, false⟩ := by
        intro transferred hfound
        cases hfound
      have hsized := walk_sized F bus (interface config t) w.levels bits w.devices hnone
      rw [length_outgoing] at hsized
      intro a ha
      apply store_outside
      rwa [hsized.length_bytes]

theorem clockedOut_append (phases phases' : List Phase) :
    clockedOut (phases ++ phases') = clockedOut phases ++ clockedOut phases' :=
  List.flatMap_append

theorem clockedOut_phasesOf (buffer : Option Buffer) (cells : ℕ → Byte) (bits : ℕ) :
    clockedOut (phasesOf (sourceOf buffer) cells bits) =
      (firstOf buffer (byteCount bits)).map cells := by
  unfold phasesOf
  rcases Nat.eq_zero_or_pos bits with rfl | hpos
  · rw [if_pos rfl]
    cases buffer <;> rfl
  · rw [if_neg hpos.ne']
    cases buffer with
    | none => rfl
    | some buffer =>
      refine (List.append_nil _).trans ?_
      exact load_eq_map cells buffer.start (byteCount bits)

theorem clockedOut_own (bytes : List Byte) (cells : ℕ → Byte) (bits : ℕ) :
    clockedOut (phasesOf (.own bytes) cells bits) = [] := by
  unfold phasesOf
  split <;> rfl

/-- The run reads and sends nothing of the caller's. -/
def Quiet (w w' : World σ) : Prop := ∃ sent, Traced w w' [] [] sent ∧ clockedOut sent = []

theorem Quiet.refl (w : World σ) : Quiet w w := ⟨[], Traced.refl w, rfl⟩

theorem Quiet.trans (h : Quiet w w') (h' : Quiet w' w'') : Quiet w w'' := by
  obtain ⟨sent, htraced, hsent⟩ := h
  obtain ⟨sent', htraced', hsent'⟩ := h'
  refine ⟨_, htraced.trans htraced', ?_⟩
  rw [clockedOut_append, hsent, hsent']
  rfl

theorem setChipSelect_quiet (w : World σ) (active : Bool) :
    Quiet w (w.setChipSelect F validGpio config active) :=
  ⟨[], setChipSelect_traced F validGpio config w active, rfl⟩

/-- A phase that sends bytes of the driver. -/
theorem ownPhase_quiet (w : World σ) (t : Transaction) (bytes : List Byte) (bits : ℕ) :
    Quiet w (w.transferPhase F bus config t (.own bytes) none bits) :=
  ⟨_, sendPhase_traced F bus config w t (.own bytes) bits, clockedOut_own bytes _ bits⟩

theorem sendCommand_quiet (w : World σ) (t : Transaction) :
    Quiet w (w.sendCommand F bus config t) := by
  unfold World.sendCommand
  simp only
  split
  · exact ownPhase_quiet F bus config w t _ _
  · exact Quiet.refl w

theorem sendAddress_quiet (w : World σ) (t : Transaction) :
    Quiet w (w.sendAddress F bus config t) := by
  unfold World.sendAddress
  simp only
  split
  · exact ownPhase_quiet F bus config w t _ _
  · exact Quiet.refl w

theorem sendDummy_quiet (w : World σ) (t : Transaction) : Quiet w (w.sendDummy F bus config t) := by
  unfold World.sendDummy
  simp only
  split
  · exact ⟨_, transferPhase_traced F bus config w t none none _, clockedOut_phasesOf none _ _⟩
  · exact Quiet.refl w

/-- Each buffer is gone through as far as its phase goes. -/
structure Served (config : Config) (t : Transaction) (w w' : World σ) (sent : List Phase) : Prop where
  traced : Traced w w' (firstOf t.tx (byteCount (t.txPhaseBits config)))
    (firstOf t.rx (byteCount (t.rxPhaseBits config))) sent
  clocked : clockedOut sent = (firstOf t.tx (byteCount (t.txPhaseBits config))).map w.cells

theorem Served.after_quiet {t : Transaction} {sent : List Phase} (h : Quiet w w')
    (h' : Served config t w' w'' sent) : ∃ sent', Served config t w w'' sent' := by
  obtain ⟨first, htraced, hfirst⟩ := h
  refine ⟨_, htraced.trans h'.traced, ?_⟩
  rw [clockedOut_append, hfirst, List.nil_append, h'.clocked, htraced.cells_eq]

theorem Served.before_quiet {t : Transaction} {sent : List Phase} (h : Served config t w w' sent)
    (h' : Quiet w' w'') : ∃ sent', Served config t w w'' sent' := by
  obtain ⟨last, htraced, hlast⟩ := h'
  refine ⟨sent ++ last, ?_, ?_⟩
  · have hboth := h.traced.trans htraced
    rwa [List.append_nil, List.append_nil] at hboth
  · rw [clockedOut_append, hlast, List.append_nil, h.clocked]

theorem transferData_served (w : World σ) (t : Transaction) :
    ∃ sent, Served config t w (w.transferData F bus config t) sent := by
  unfold World.transferData
  split
  · rename_i hseparate
    have htx := transferPhase_traced F bus config w t t.tx none t.length
    have hrx := transferPhase_traced F bus config
      (w.transferPhase F bus config t (sourceOf t.tx) none t.length) t none t.rx t.rxBits
    have hboth := htx.trans hrx
    rw [show firstOf none (byteCount t.rxBits) = [] from rfl, List.append_nil] at hboth
    rw [Traced.cells_eq htx] at hboth
    refine ⟨phasesOf (sourceOf t.tx) w.cells t.length ++
      phasesOf (sourceOf none) w.cells t.rxBits, ?_, ?_⟩
    · rw [Transaction.txPhaseBits, Transaction.rxPhaseBits, if_pos hseparate, if_pos hseparate]
      exact hboth
    · rw [Transaction.txPhaseBits, if_pos hseparate, clockedOut_append, clockedOut_phasesOf,
        clockedOut_phasesOf]
      exact List.append_nil _
  · rename_i hsingle
    refine ⟨phasesOf (sourceOf t.tx) w.cells (max t.length t.rxBits), ?_, ?_⟩
    · rw [Transaction.txPhaseBits, Transaction.rxPhaseBits, if_neg hsingle, if_neg hsingle]
      exact transferPhase_traced F bus config w t t.tx t.rx (max t.length t.rxBits)
    · rw [Transaction.txPhaseBits, if_neg hsingle]
      exact clockedOut_phasesOf t.tx w.cells (max t.length t.rxBits)

theorem transferTransaction_served (w : World σ) (t : Transaction) (forceKeepCs : Bool) :
    ∃ sent, Served config t w (w.transferTransaction F validGpio bus config t forceKeepCs) sent := by
  have hselect : Quiet w (if w.csActive then w else w.setChipSelect F validGpio config true) := by
    split
    · exact Quiet.refl w
    · exact setChipSelect_quiet F validGpio config w true
  have hcommand := hselect.trans (sendCommand_quiet F bus config _ t)
  have haddress := hcommand.trans (sendAddress_quiet F bus config _ t)
  have hdummy := haddress.trans (sendDummy_quiet F bus config _ t)
  obtain ⟨sent, hdata⟩ := transferData_served F bus config _ t
  obtain ⟨sent', hserved⟩ := Served.after_quiet config hdummy hdata
  unfold World.transferTransaction
  simp only
  split
  · exact ⟨sent', hserved⟩
  · exact hserved.before_quiet config (setChipSelect_quiet F validGpio config _ false)

theorem firstOf_injective {buffer : Buffer} {n m : ℕ}
    (h : firstOf (some buffer) n = firstOf (some buffer) m) : n = m := by
  have hlength := congrArg List.length h
  simpa [firstOf] using hlength

theorem framed_iff_inFrame {t : Transaction} {sent : List Phase} (h : Served config t w w' sent) :
    Framed t w w' ↔ InFrame config t := by
  constructor
  · intro hframed
    refine ⟨?_, ?_⟩
    · intro buffer hbuffer
      have hreads := List.append_cancel_left (h.traced.reads.symm.trans hframed.reads)
      rw [hbuffer] at hreads
      exact ⟨firstOf_injective hreads, hframed.txFits buffer hbuffer⟩
    · intro buffer hbuffer
      have hwrites := List.append_cancel_left (h.traced.writes.symm.trans hframed.writes)
      rw [hbuffer] at hwrites
      exact ⟨firstOf_injective hwrites, hframed.rxFits buffer hbuffer⟩
  · intro hframe
    have htx : firstOf t.tx (byteCount (t.txPhaseBits config)) = firstOf t.tx (t.length ⌈/⌉ 8) := by
      cases hbuffer : t.tx with
      | none => rfl
      | some buffer => rw [(hframe.tx buffer hbuffer).1]
    have hrx : firstOf t.rx (byteCount (t.rxPhaseBits config)) = firstOf t.rx (t.rxBits ⌈/⌉ 8) := by
      cases hbuffer : t.rx with
      | none => rfl
      | some buffer => rw [(hframe.rx buffer hbuffer).1]
    refine ⟨htx ▸ h.traced.reads, ⟨sent, h.traced.phases, htx ▸ h.clocked⟩, hrx ▸ h.traced.writes,
      hrx ▸ h.traced.rest, ?_, ?_⟩
    · intro buffer hbuffer
      exact (hframe.tx buffer hbuffer).2
    · intro buffer hbuffer
      exact (hframe.rx buffer hbuffer).2

end Traces

section Listeners
variable {σ : Type} (F : Fake σ) (bus : Bus) (config : Config)

/-- The bytes and the bits of the calls that a phase makes of one device. -/
def slices (rest : List Byte) (bits : ℕ) : List (List Byte × ℕ) :=
  if _h : bits = 0 then []
  else
    let chunkBits := min bits 512
    let chunk := (chunkBits + 7) / 8
    (rest.take chunk, chunkBits) :: slices (rest.drop chunk) (bits - chunkBits)
termination_by bits
decreasing_by omega

theorem exchange_state (i : Interface) (s : σ) (rest : List Byte) (bits : ℕ) :
    (exchange F i s rest bits).2 =
      (slices rest bits).foldl (fun s slice => (F.transfer i s slice.1 slice.2).2) s := by
  fun_induction exchange F i s rest bits with
  | case1 s rest =>
    rw [slices, dif_pos rfl]
    rfl
  | case2 s rest bits h chunkBits chunk reply s' hreply tail s'' htail ih =>
    rw [slices, dif_neg h, List.foldl_cons, hreply]
    rw [htail] at ih
    exact ih

/-- The calls have the bytes one after the other, none twice and none left out. -/
theorem slices_flatten (rest : List Byte) (bits : ℕ) (h : rest.length = (bits + 7) / 8) :
    (slices rest bits).flatMap Prod.fst = rest := by
  fun_induction slices rest bits with
  | case1 rest =>
    symm
    exact List.eq_nil_of_length_eq_zero h
  | case2 rest bits hpos chunkBits chunk ih =>
    rw [List.flatMap_cons, ih, List.take_append_drop]
    rw [List.length_drop, h]
    omega

theorem slices_bits (rest : List Byte) (bits : ℕ) : ((slices rest bits).map Prod.snd).sum = bits := by
  fun_induction slices rest bits with
  | case1 rest => rfl
  | case2 rest bits hpos chunkBits chunk ih =>
    rw [List.map_cons, List.sum_cons, ih]
    omega

theorem walk_listens (i : Interface) (levels : ℤ → Bool) (outgoing : List Byte) (bits : ℕ)
    (input : Input) (pre post : List (Device σ)) {d : Device σ} (hclk : d.clk = bus.sclk)
    (hselected : d.isSelected levels = true) (hmosi : d.mosi = bus.mosi) :
    (walk F bus i levels outgoing bits input (pre ++ d :: post)).2[pre.length]? = some { d with
      state := (slices outgoing bits).foldl (fun s slice => (F.transfer i s slice.1 slice.2).2)
        d.state } := by
  induction pre generalizing input with
  | nil =>
    have hneither : ¬ (d.clk ≠ bus.sclk ∨ d.isSelected levels = false) := by
      rw [hclk, hselected]
      simp
    rw [List.nil_append, walk, visit, if_neg hneither, ← exchange_state, Device.lent, if_pos hmosi]
    rfl
  | cons e pre ih => exact ih _

/-- A selected device on the clock and MOSI lines receives the bytes of a phase, and no others. -/
theorem phase_listens {w : World σ} (t : Transaction) (tx rx : Option Buffer) {bits : ℕ}
    (hpos : 0 < bits) (hbits : bits + 7 < 2 ^ 64) {pre post : List (Device σ)} {d : Device σ}
    (hdevices : w.devices = pre ++ d :: post) (hclk : d.clk = bus.sclk)
    (hselected : d.isSelected w.levels = true) (hmosi : d.mosi = bus.mosi) :
    ∃ calls : List (List Byte × ℕ),
      (w.transferPhase F bus config t (sourceOf tx) rx bits).devices[pre.length]? = some { d with
        state := calls.foldl (fun s call => (F.transfer (interface config t) s call.1 call.2).2)
          d.state } ∧
      calls.flatMap Prod.fst = (sourceOf tx).outgoing w.cells (byteCount bits) ∧
      (calls.map Prod.snd).sum = bits := by
  refine ⟨slices ((sourceOf tx).outgoing w.cells (byteCount bits)) bits, ?_, ?_, slices_bits _ _⟩
  · have hwalk := walk_listens F bus (interface config t) w.levels
      ((sourceOf tx).outgoing w.cells (byteCount bits)) bits ⟨none, false⟩ pre post hclk hselected
      hmosi
    rw [← hdevices] at hwalk
    rw [World.transferPhase, if_neg hpos.ne']
    cases rx <;> exact hwalk
  · apply slices_flatten
    rw [length_outgoing, byteCount, Nat.mod_eq_of_lt hbits]

end Listeners

/-- An accepted transaction is framed when and only when each of its buffers is long enough, and
the phase that serves the buffer has just as many bytes. -/
theorem submit_framed_iff {σ : Type} {F : Fake σ} {validGpio : ℤ → Bool} {entry : Entry}
    {handle handle' : Handle} {t : Transaction} {w w' : World σ}
    (h : submit F validGpio entry (some handle) (some t) w = .ok (w', handle')) :
    Framed t w w' ↔ InFrame handle.config t := by
  have hrun : ∃ forceKeepCs,
      w' = w.transferTransaction F validGpio handle.bus handle.config t forceKeepCs := by
    unfold submit at h
    cases entry with
    | pollingTransmit => cases h; exact ⟨false, rfl⟩
    | transmit => cases h; exact ⟨false, rfl⟩
    | queueTrans =>
      simp only at h
      split at h
      · cases h
      · cases h; exact ⟨false, rfl⟩
    | pollingStart =>
      simp only at h
      split at h
      · cases h
      · cases h; exact ⟨true, rfl⟩
  obtain ⟨forceKeepCs, rfl⟩ := hrun
  obtain ⟨sent, hserved⟩ :=
    transferTransaction_served F validGpio handle.bus handle.config w t forceKeepCs
  exact framed_iff_inFrame handle.config hserved

def echo : Fake Unit where
  transfer := fun _ _ bytes _ => (bytes, ())
  onChipSelect := fun s _ => s
  length_eq := fun _ _ _ _ => rfl

def smallHandle : Handle := ⟨⟨18, 23, 19⟩, ⟨0, 0, 0, 0, 1000000, -1, 0⟩, none⟩

def idleWorld : World Unit := ⟨fun _ => 0, [], [], [], fun _ => false, false, []⟩

/-- Full-duplex, with bytes 0 to 7 to send and bytes from 100 on to receive into. -/
def exchangeOf (rxlength rxSize : ℕ) : Transaction :=
  ⟨0, 0, 0, 64, rxlength, 0, some ⟨0, 8⟩, 40, some ⟨100, rxSize⟩, 48, 0, 0, 0⟩

def sent (t : Transaction) : Except EspErr (World Unit × Handle) :=
  submit echo (fun _ => false) .transmit (some smallHandle) (some t) idleWorld

def after (t : Transaction) : World Unit :=
  idleWorld.transferTransaction echo (fun _ => false) smallHandle.bus smallHandle.config t false

theorem submit_framed_iff_small : sent (exchangeOf 0 8) = .ok (after (exchangeOf 0 8), smallHandle) ∧
    Framed (exchangeOf 0 8) idleWorld (after (exchangeOf 0 8)) := by
  have hok : sent (exchangeOf 0 8) = .ok (after (exchangeOf 0 8), smallHandle) := rfl
  refine ⟨hok, ?_⟩
  apply (submit_framed_iff hok).2
  constructor
  · intro buffer hbuffer
    cases hbuffer
    decide +kernel
  · intro buffer hbuffer
    cases hbuffer
    decide +kernel

/-- Of 64 bits only 8 are to be received, and the seven bytes behind the one in the receive buffer
are written too. -/
theorem short_receive : sent (exchangeOf 8 1) = .ok (after (exchangeOf 8 1), smallHandle) ∧
    ¬ Framed (exchangeOf 8 1) idleWorld (after (exchangeOf 8 1)) := by
  refine ⟨rfl, ?_⟩
  intro h
  have hwrites := h.writes
  revert hwrites
  decide +kernel

end RooTesting.IdfSpi
