import RooTesting.PinRouting

/-! # Bytes over serial cables

A cable has two ends, and what is written to one is received at the other. A UART writes to every
device at a pin that carries its output, and reads from the first device at the pin of its input.
The calls of a sketch keep one byte that was peeked at; the calls of the IDF do not know of it. -/
namespace RooTesting.UartCables
open PinRouting Transition

abbrev Byte := BitVec 8
abbrev Bytes := List Byte

/-- An end of a cable. -/
abbrev End := ℕ × Bool

def peer (e : End) : End := (e.1, !e.2)

/-- A device that is attached to the board: an end of a cable, or another one. -/
inductive Device where
  | endpoint (e : End)
  | foreign (id : ℕ)
  deriving DecidableEq

/-- `FakeUartDevice`, for the devices that are no cables. -/
structure ForeignDevice (σ : Type) where
  write : σ → Bytes → ℕ × σ
  read : σ → ℕ → Bytes × σ
  availableForRead : σ → ℕ × σ
  read_le : ∀ s n, (read s n).1.length ≤ n

structure Attached where
  device : Device
  tx : Option ℕ
  rx : Option ℕ

/-- Who takes a byte: a call of a sketch or of the IDF for a UART, or the owner of the end. -/
inductive Taker where
  | arduino (number : ℕ)
  | idf (number : ℕ)
  | owner
  deriving DecidableEq

/-- The attached devices are in the order of the map. `sent`, `taken` and `fates` tell what each end
was sent, who took bytes from which device, and what became of the bytes of a sketch. -/
structure State (σ : Type) where
  world : World
  attached : List Attached
  received : End → Bytes
  foreign : ℕ → σ
  peeked : ℕ → Byte
  sent : End → Bytes
  taken : List (Taker × Device × Byte)
  fates : ℕ → List (Byte × Bool)

section Calls
variable {σ : Type} (b : Board) (F : ℕ → ForeignDevice σ) (s : State σ)

/-- `Endpoint::receive` -/
def receive (e : End) (buf : Bytes) : State σ :=
  { s with
    received := Function.update s.received e (s.received e ++ buf)
    sent := Function.update s.sent e (s.sent e ++ buf) }

def Device.write (buf : Bytes) : Device → State σ → ℕ × State σ
  | .endpoint e, s => (buf.length, receive s (peer e) buf)
  | .foreign id, s =>
    let (count, state) := (F id).write (s.foreign id) buf
    (count, { s with foreign := Function.update s.foreign id state })

/-- What comes from a device is noted down. -/
def Device.read (taker : Taker) (size : ℕ) : Device → State σ → Bytes × State σ
  | .endpoint e, s =>
    let bytes := (s.received e).take size
    (bytes, { s with
      received := Function.update s.received e ((s.received e).drop size)
      taken := s.taken ++ bytes.map (taker, .endpoint e, ·) })
  | .foreign id, s =>
    let (bytes, state) := (F id).read (s.foreign id) size
    (bytes, { s with
      foreign := Function.update s.foreign id state
      taken := s.taken ++ bytes.map (taker, .foreign id, ·) })

def Device.availableForRead : Device → State σ → ℕ × State σ
  | .endpoint e, s => ((s.received e).length, s)
  | .foreign id, s =>
    let (count, state) := (F id).availableForRead (s.foreign id)
    (count, { s with foreign := Function.update s.foreign id state })

/-- The pin carries the output of the UART. -/
def drives (number : ℕ) (attached : Attached) : Bool :=
  attached.tx.any fun pin => s.world.outMatrix pin == b.kUartTxSignals number

/-- `Esp32UartInterface::write`; a device gets the size in sixteen bits. -/
def write (number : ℕ) (buf : Bytes) : ℕ × State σ :=
  (s.attached.filter (drives b s number)).foldl (fun r attached =>
    let (count, s) := attached.device.write F (buf.take (buf.length % 65536)) r.2
    (max r.1 count, s)) (0, s)

/-- The first device at the pin of the input. -/
def source (number : ℕ) : Option Device :=
  (s.attached.find? fun attached =>
    attached.rx.any fun pin => s.world.inMatrix (b.kUartRxSignals number) == pin).map
      Attached.device

/-- `Esp32UartInterface::read` -/
def read (taker : Taker) (number size : ℕ) : Bytes × State σ :=
  match source b s number with
  | none => ([], s)
  | some device => device.read F taker (size % 65536) s

def availableForRead (number : ℕ) : ℕ × State σ :=
  match source b s number with
  | none => (0, s)
  | some device => device.availableForRead F s

def setHasPeek (number : ℕ) (hasPeek : Bool) : State σ :=
  { s with world := setUart s.world number { s.world.uarts number with hasPeek := hasPeek } }

def settle (number : ℕ) (bytes : Bytes) (returned : Bool) : State σ :=
  let fates := s.fates number ++ bytes.map (·, returned)
  { s with fates := Function.update s.fates number fates }

def peekSlot (number : ℕ) : Bytes :=
  if (s.world.uarts number).hasPeek then [s.peeked number] else []

/-- `uartReadBytes` with a buffer. -/
def uartReadBytes (number size : ℕ) : Bytes × State σ :=
  if (s.world.uarts number).installed = false then ([], s)
  else
    let peeked := if size = 0 then [] else peekSlot s number
    let s := if peeked = [] then s else setHasPeek s number false
    let (bytes, s) := read b F s (.arduino number) number (size - peeked.length)
    (peeked ++ bytes, settle s number (peeked ++ bytes) true)

def uartPeek (number : ℕ) : Byte × State σ :=
  if (s.world.uarts number).installed = false then (0, s)
  else if (s.world.uarts number).hasPeek then (s.peeked number, s)
  else
    match read b F s (.arduino number) number 1 with
    | ([byte], s) =>
      let s := setHasPeek s number true
      (byte, { s with peeked := Function.update s.peeked number byte })
    | (_, s) => (0, s)

def uartAvailable (number : ℕ) : ℕ × State σ :=
  if (s.world.uarts number).installed = false then (0, s)
  else
    let (count, s) := availableForRead b F s number
    (count + (peekSlot s number).length, s)

def uartWriteBuf (number : ℕ) (data : Bytes) : State σ :=
  if (s.world.uarts number).installed = false then s else (write b F s number data).2

/-- A call that changes the routes; the end of a UART loses its peeked byte. -/
def configure (call : PinRouting.Call) : State σ :=
  let world := perform b s.world call
  match call with
  | .uartEnd number =>
    if b.uarts ≤ number then { s with world := world }
    else
      let s := settle s number (peekSlot s number) false
      { s with world := world }
  | _ => { s with world := world }

end Calls

inductive Act where
  | configure (call : PinRouting.Call)
  | uartReadBytes (number size : ℕ)
  | uartPeek (number : ℕ)
  | uartAvailable (number : ℕ)
  | uartWriteBuf (number : ℕ) (data : Bytes)
  | idfReadBytes (number length : ℕ)
  | idfWriteBytes (number : ℕ) (data : Bytes)
  | idfBufferedDataLen (number : ℕ)
  | ownerWrite (e : End) (buf : Bytes)
  | ownerRead (e : End) (size : ℕ)

/-- The calls of the IDF refuse a UART that does not exist. -/
def step {σ : Type} (b : Board) (F : ℕ → ForeignDevice σ) (s : State σ) : Act → Option (State σ)
  | .configure call => some (configure b s call)
  | .uartReadBytes number size => some (uartReadBytes b F s number size).2
  | .uartPeek number => some (uartPeek b F s number).2
  | .uartAvailable number => some (uartAvailable b F s number).2
  | .uartWriteBuf number data => some (uartWriteBuf b F s number data)
  | .idfReadBytes number length =>
    some (if b.uarts ≤ number then s else (read b F s (.idf number) number length).2)
  | .idfWriteBytes number data =>
    some (if b.uarts ≤ number then s else (write b F s number data).2)
  | .idfBufferedDataLen number =>
    some (if b.uarts ≤ number then s else (availableForRead b F s number).2)
  | .ownerWrite e buf => some (Device.write F buf (.endpoint e) s).2
  | .ownerRead e size => some (Device.read F .owner size (.endpoint e) s).2

variable {σ : Type} {b : Board} {F : ℕ → ForeignDevice σ} {s s' t : State σ} {e : End} {n : ℕ}

/-- The bytes that were taken from an end. -/
def takenFrom (e : End) (taken : List (Taker × Device × Byte)) : Bytes :=
  (taken.filter fun p => p.2.1 = .endpoint e).map fun p => p.2.2

/-- The bytes that one taker has taken. -/
def takenBy (taker : Taker) (taken : List (Taker × Device × Byte)) : Bytes :=
  (taken.filter fun p => p.1 = taker).map fun p => p.2.2

theorem takenFrom_append (e : End) (taken : List (Taker × Device × Byte)) (taker : Taker)
    (device : Device) (bytes : Bytes) :
    takenFrom e (taken ++ bytes.map (taker, device, ·)) =
      takenFrom e taken ++ if device = .endpoint e then bytes else [] := by
  rw [takenFrom, List.filter_append, List.map_append]
  congr 1
  split_ifs with h
  · rw [List.filter_eq_self.mpr (by simp [h]), List.map_map]
    exact List.map_id _
  · rw [List.filter_eq_nil_iff.mpr (by simp [h]), List.map_nil]

theorem takenBy_append (taker' : Taker) (taken : List (Taker × Device × Byte)) (taker : Taker)
    (device : Device) (bytes : Bytes) :
    takenBy taker' (taken ++ bytes.map (taker, device, ·)) =
      takenBy taker' taken ++ if taker = taker' then bytes else [] := by
  rw [takenBy, List.filter_append, List.map_append]
  congr 1
  split_ifs with h
  · rw [List.filter_eq_self.mpr (by simp [h]), List.map_map]
    exact List.map_id _
  · rw [List.filter_eq_nil_iff.mpr (by simp [h]), List.map_nil]

/-- Nothing changes but the ends, which may get bytes. -/
structure Wrote (s s' : State σ) (news : End → Bytes) : Prop where
  world : s'.world = s.world
  attached : s'.attached = s.attached
  peeked : s'.peeked = s.peeked
  taken : s'.taken = s.taken
  fates : s'.fates = s.fates
  received : ∀ e, s'.received e = s.received e ++ news e
  sent : ∀ e, s'.sent e = s.sent e ++ news e

theorem Wrote.refl (s : State σ) : Wrote s s fun _ => [] :=
  ⟨rfl, rfl, rfl, rfl, rfl, fun _ => (List.append_nil _).symm, fun _ => (List.append_nil _).symm⟩

theorem Wrote.trans {news news' : End → Bytes} (h : Wrote s s' news) (h' : Wrote s' t news') :
    Wrote s t fun e => news e ++ news' e where
  world := h'.world.trans h.world
  attached := h'.attached.trans h.attached
  peeked := h'.peeked.trans h.peeked
  taken := h'.taken.trans h.taken
  fates := h'.fates.trans h.fates
  received := fun e => by rw [h'.received, h.received, List.append_assoc]
  sent := fun e => by rw [h'.sent, h.sent, List.append_assoc]

theorem wrote_foreign (foreign : ℕ → σ) : Wrote s { s with foreign := foreign } fun _ => [] :=
  ⟨rfl, rfl, rfl, rfl, rfl, fun _ => (List.append_nil _).symm, fun _ => (List.append_nil _).symm⟩

/-- What a write to a device puts at each end. -/
def Device.news (buf : Bytes) (device : Device) (e : End) : Bytes :=
  if device = .endpoint (peer e) then buf else []

theorem peer_peer (e : End) : peer (peer e) = e := by simp [peer]

theorem device_write (device : Device) (buf : Bytes) :
    Wrote s (device.write F buf s).2 (device.news buf) := by
  cases device with
  | endpoint e' =>
    have hupdate : ∀ (f : End → Bytes) (e : End),
        Function.update f (peer e') (f (peer e') ++ buf) e =
          f e ++ Device.news buf (.endpoint e') e := by
      intro f e
      by_cases he : e = peer e'
      · subst he
        rw [Function.update_self, Device.news, peer_peer, if_pos rfl]
      · rw [Function.update_of_ne he, Device.news, if_neg, List.append_nil]
        rintro ⟨rfl⟩
        exact he (peer_peer e).symm
    exact ⟨rfl, rfl, rfl, rfl, rfl, hupdate s.received, hupdate s.sent⟩
  | foreign id => exact wrote_foreign _

theorem write_wrote (number : ℕ) (buf : Bytes) :
    Wrote s (write b F s number buf).2 fun e =>
      ((s.attached.filter (drives b s number)).map fun attached =>
        attached.device.news (buf.take (buf.length % 65536)) e).flatten := by
  rw [write]
  generalize hlist : s.attached.filter (drives b s number) = list
  clear hlist
  have hfold : ∀ (r : ℕ × State σ), Wrote r.2 (list.foldl (fun r attached =>
      let (count, s) := attached.device.write F (buf.take (buf.length % 65536)) r.2
      (max r.1 count, s)) r).2 fun e => (list.map fun attached =>
        attached.device.news (buf.take (buf.length % 65536)) e).flatten := by
    induction list with
    | nil => exact fun r => Wrote.refl r.2
    | cons attached list ih =>
      intro r
      rw [List.foldl_cons]
      exact (device_write attached.device _).trans
        (ih (max r.1 (attached.device.write F (buf.take (buf.length % 65536)) r.2).1,
          (attached.device.write F (buf.take (buf.length % 65536)) r.2).2))
  exact hfold (0, s)

/-- Some bytes are taken from a device. -/
structure Took (s s' : State σ) (taker : Taker) (device : Device) (bytes : Bytes) : Prop where
  world : s'.world = s.world
  attached : s'.attached = s.attached
  peeked : s'.peeked = s.peeked
  fates : s'.fates = s.fates
  sent : s'.sent = s.sent
  taken : s'.taken = s.taken ++ bytes.map (taker, device, ·)
  received : ∀ e, s.received e =
    (if device = .endpoint e then bytes else []) ++ s'.received e

theorem device_read (taker : Taker) (size : ℕ) (device : Device) :
    Took s (device.read F taker size s).2 taker device (device.read F taker size s).1 ∧
      (device.read F taker size s).1.length ≤ size := by
  cases device with
  | endpoint e' =>
    refine ⟨⟨rfl, rfl, rfl, rfl, rfl, rfl, fun e => ?_⟩, List.length_take_le _ _⟩
    by_cases he : e' = e
    · subst he
      rw [if_pos rfl]
      simp [Device.read]
    · rw [if_neg (by simpa using he)]
      simp [Device.read, Ne.symm he]
  | foreign id =>
    refine ⟨⟨rfl, rfl, rfl, rfl, rfl, rfl, fun e => ?_⟩, (F id).read_le _ _⟩
    rw [if_neg Device.noConfusion]
    rfl

/-- A UART takes from its source, if it has one. -/
theorem read_took (taker : Taker) (number size : ℕ) :
    (read b F s taker number size).1.length ≤ size ∧
      (source b s number = none ∧ read b F s taker number size = ([], s) ∨
        ∃ device, source b s number = some device ∧
          Took s (read b F s taker number size).2 taker device
            (read b F s taker number size).1) := by
  rw [read]
  cases source b s number with
  | none => exact ⟨Nat.zero_le _, Or.inl ⟨rfl, rfl⟩⟩
  | some device =>
    obtain ⟨htook, hle⟩ := device_read (F := F) (s := s) taker (size % 65536) device
    exact ⟨Nat.le_trans hle (Nat.mod_le _ _), Or.inr ⟨device, rfl, htook⟩⟩

theorem availableForRead_wrote (number : ℕ) :
    Wrote s (availableForRead b F s number).2 fun _ => [] := by
  unfold availableForRead
  split
  · exact Wrote.refl s
  · next device _ =>
    cases device with
    | endpoint e => exact Wrote.refl s
    | foreign id => exact wrote_foreign _

theorem hasPeek_setUart {w : World} {number : ℕ} {uart : Uart}
    (h : uart.hasPeek = (w.uarts number).hasPeek) (n : ℕ) :
    ((setUart w number uart).uarts n).hasPeek = (w.uarts n).hasPeek := by
  rw [setUart]
  by_cases hn : n = number
  · subst hn
    simpa using h
  · simp [hn]

section HasPeek

variable (w : World)

@[simp] theorem uarts_inAssign (gpio signal : ℕ) : (inAssign b w gpio signal).uarts = w.uarts := by
  unfold inAssign
  split_ifs <;> rfl

@[simp] theorem uarts_outAssign (gpio signal : ℕ) :
    (outAssign b w gpio signal).uarts = w.uarts := by
  unfold outAssign
  split_ifs <;> rfl

@[simp] theorem uarts_setPinBus (pin : ℕ) (r : Role) (number : ℤ) :
    (setPinBus b w pin r number).2.uarts = w.uarts := rfl

@[simp] theorem uarts_clearPinBus? (pin : Option ℕ) : (clearPinBus? b w pin).uarts = w.uarts := by
  cases pin <;> rfl

@[simp] theorem uarts_clearOld (old : Option ℕ) (pin : ℕ) :
    (clearOld b w old pin).uarts = w.uarts := by
  unfold clearOld
  split_ifs
  · exact uarts_clearPinBus? w old
  · rfl

@[simp] theorem uarts_setI2c (bus : ℕ) (i2c : I2c) : (setI2c w bus i2c).uarts = w.uarts := rfl

theorem hasPeek_setRxPin (number pin n : ℕ) :
    ((setRxPin b w number pin).uarts n).hasPeek = (w.uarts n).hasPeek := by
  simp only [setRxPin, uarts_setPinBus, uarts_inAssign]
  rw [hasPeek_setUart (by rfl), uarts_clearOld]

theorem hasPeek_setTxPin (number pin n : ℕ) :
    ((setTxPin b w number pin).uarts n).hasPeek = (w.uarts n).hasPeek := by
  simp only [setTxPin, uarts_setPinBus, uarts_outAssign]
  rw [hasPeek_setUart (by rfl), uarts_clearOld]

theorem hasPeek_setCtsPin (number pin n : ℕ) :
    ((setCtsPin b w number pin).uarts n).hasPeek = (w.uarts n).hasPeek := by
  simp only [setCtsPin, uarts_setPinBus]
  rw [hasPeek_setUart (by rfl)]

theorem hasPeek_setRtsPin (number pin n : ℕ) :
    ((setRtsPin b w number pin).uarts n).hasPeek = (w.uarts n).hasPeek := by
  simp only [setRtsPin, uarts_setPinBus]
  rw [hasPeek_setUart (by rfl)]

theorem hasPeek_uartSetPins (number : ℕ) (rx tx cts rts : Option ℕ) (n : ℕ) :
    ((uartSetPins b w number rx tx cts rts).2.uarts n).hasPeek = (w.uarts n).hasPeek := by
  unfold uartSetPins
  split_ifs
  · rfl
  · cases rx <;> cases tx <;> cases cts <;> cases rts <;>
      simp only [Option.elim, hasPeek_setRxPin, hasPeek_setTxPin, hasPeek_setCtsPin,
        hasPeek_setRtsPin]

theorem hasPeek_uartBegin (number baudrate config : ℕ) (rx tx : Option ℕ) (inverted : Bool)
    (fifoThreshold : ℕ) (queued : Bool) (n : ℕ) :
    ((uartBegin b w number baudrate config rx tx inverted fifoThreshold queued).2.uarts n).hasPeek =
      (w.uarts n).hasPeek := by
  unfold uartBegin
  split_ifs
  · rfl
  · rfl
  · dsimp only
    split_ifs
    · rw [hasPeek_uartSetPins, hasPeek_setUart (by rfl)]
    · rw [hasPeek_setUart (by rfl), hasPeek_uartSetPins, hasPeek_setUart (by rfl)]

theorem uarts_i2cInit (bus : ℕ) (sda scl : Option ℕ) (frequency : ℕ) :
    (i2cInit b w bus sda scl frequency).2.uarts = w.uarts := by
  unfold i2cInit
  split
  · dsimp only
    split_ifs <;> simp [routePins, clearPinBus]
  · rfl

theorem uarts_i2cDeinit (bus : ℕ) : (i2cDeinit b w bus).2.uarts = w.uarts := by
  unfold i2cDeinit
  split_ifs
  · rfl
  · cases hsda : (w.i2cs bus).sda <;> cases hscl : (w.i2cs bus).scl <;>
      simp [unroutePins, hsda, hscl, Option.elim, apply_ite World.uarts]

theorem hasPeek_uartEnd (number n : ℕ) :
    ((uartEnd b w number).uarts n).hasPeek =
      if n = number ∧ number < b.uarts then false else (w.uarts n).hasPeek := by
  unfold uartEnd
  split_ifs with hnumber hn hn
  · omega
  · rfl
  · rw [hn.1]
    simp [setUart]
  · have hne : n ≠ number := fun h => hn ⟨h, by omega⟩
    simp [setUart, hne]

end HasPeek

/-- Only the end of a UART touches bytes of a sketch: it loses the one that was peeked at. -/
structure Configured (s s' : State σ) (call : PinRouting.Call) : Prop where
  attached : s'.attached = s.attached
  received : s'.received = s.received
  sent : s'.sent = s.sent
  taken : s'.taken = s.taken
  slot : ∀ n, ∃ lost, s'.fates n = s.fates n ++ lost.map (·, false) ∧
    peekSlot s n = lost ++ peekSlot s' n ∧ (lost = [] ∨ call = .uartEnd n)

theorem peekSlot_congr {n : ℕ}
    (hpeek : (s'.world.uarts n).hasPeek = (s.world.uarts n).hasPeek)
    (hpeeked : s'.peeked n = s.peeked n) : peekSlot s' n = peekSlot s n := by
  rw [peekSlot, peekSlot, hpeek, hpeeked]

theorem configured (call : PinRouting.Call) : Configured s (configure b s call) call := by
  have hkept : ∀ {w : World}, (∀ n, (w.uarts n).hasPeek = (s.world.uarts n).hasPeek) →
      Configured s { s with world := w } call := fun hpeek =>
    ⟨rfl, rfl, rfl, rfl, fun n => ⟨[], (List.append_nil _).symm, by
      rw [List.nil_append, peekSlot, peekSlot, hpeek n], Or.inl rfl⟩⟩
  cases call with
  | uartBegin number baudrate config rx tx inverted fifoThreshold queued =>
    exact hkept fun n => hasPeek_uartBegin s.world number baudrate config rx tx inverted
      fifoThreshold queued n
  | uartSetPins number rx tx cts rts =>
    exact hkept fun n => hasPeek_uartSetPins s.world number rx tx cts rts n
  | i2cInit bus sda scl frequency =>
    refine hkept fun n => ?_
    rw [perform, uarts_i2cInit]
  | i2cDeinit bus =>
    refine hkept fun n => ?_
    rw [perform, uarts_i2cDeinit]
  | uartEnd number =>
    rw [configure]
    dsimp only
    split_ifs with hnumber
    · refine hkept fun n => ?_
      rw [perform, hasPeek_uartEnd, if_neg (by omega)]
    · refine ⟨rfl, rfl, rfl, rfl, fun n => ?_⟩
      by_cases hn : n = number
      · subst hn
        refine ⟨peekSlot s n, ?_, ?_, Or.inr rfl⟩
        · simp [settle]
        · have hnone : peekSlot { settle s n (peekSlot s n) false with
              world := perform b s.world (.uartEnd n) } n = [] := by
            have hfalse : ((perform b s.world (.uartEnd n)).uarts n).hasPeek = false := by
              rw [perform, hasPeek_uartEnd, if_pos ⟨rfl, by omega⟩]
            simp [peekSlot, hfalse]
          exact ((congrArg (peekSlot s n ++ ·) hnone).trans (List.append_nil _)).symm
      · refine ⟨[], ?_, ?_, Or.inl rfl⟩
        · simp [settle, hn]
        · have hsame : ((perform b s.world (.uartEnd number)).uarts n).hasPeek =
              (s.world.uarts n).hasPeek := by
            rw [perform, hasPeek_uartEnd, if_neg fun h => hn h.1]
          simp [peekSlot, hsame, settle]

/-- A call of a sketch for UART `n`: it takes some bytes from the source and returns some, and the
peek slot makes up the difference. -/
structure Called (b : Board) (s s' : State σ) (n : ℕ) (returned : Bytes) : Prop where
  attached : s'.attached = s.attached
  sent : s'.sent = s.sent
  fates : s'.fates = Function.update s.fates n (s.fates n ++ returned.map (·, true))
  slot : ∀ m, m ≠ n → peekSlot s' m = peekSlot s m
  took : ∃ bytes, peekSlot s n ++ bytes = returned ++ peekSlot s' n ∧
    (bytes = [] ∧ s'.taken = s.taken ∧ s'.received = s.received ∨
      ∃ device, source b s n = some device ∧
        s'.taken = s.taken ++ bytes.map (.arduino n, device, ·) ∧
        ∀ e, s.received e = (if device = .endpoint e then bytes else []) ++ s'.received e)

/-- A call that does nothing for the sketch. -/
theorem Called.nothing (h : s'.attached = s.attached ∧ s'.sent = s.sent ∧ s'.fates = s.fates ∧
    s'.taken = s.taken ∧ s'.received = s.received) (hslot : ∀ m, peekSlot s' m = peekSlot s m) :
    Called b s s' n [] := by
  obtain ⟨hattached, hsent, hfates, htaken, hreceived⟩ := h
  refine ⟨hattached, hsent, ?_, fun m _ => hslot m, [], ?_, Or.inl ⟨rfl, htaken, hreceived⟩⟩
  · rw [hfates, List.map_nil, List.append_nil, Function.update_eq_self]
  · rw [hslot n, List.append_nil, List.nil_append]

theorem Took.slot {taker : Taker} {device : Device} {bytes : Bytes}
    (h : Took s s' taker device bytes) (m : ℕ) : peekSlot s' m = peekSlot s m :=
  peekSlot_congr (by rw [h.world]) (by rw [h.peeked])

theorem slot_setHasPeek_of_ne {m : ℕ} (hm : m ≠ n) (hasPeek : Bool) :
    peekSlot (setHasPeek s n hasPeek) m = peekSlot s m :=
  peekSlot_congr (by simp [setHasPeek, setUart, hm]) rfl

theorem source_setHasPeek (number n : ℕ) (hasPeek : Bool) :
    source b (setHasPeek s number hasPeek) n = source b s n := rfl

theorem uartReadBytes_called (number size : ℕ) :
    Called b s (uartReadBytes b F s number size).2 number (uartReadBytes b F s number size).1 ∧
      (uartReadBytes b F s number size).1.length ≤ size := by
  rw [uartReadBytes]
  by_cases hinstalled : (s.world.uarts number).installed = false
  · rw [if_pos hinstalled]
    exact ⟨Called.nothing ⟨rfl, rfl, rfl, rfl, rfl⟩ fun _ => rfl, Nat.zero_le _⟩
  rw [if_neg hinstalled]
  dsimp only
  generalize hpeeked : (if size = 0 then [] else peekSlot s number) = peeked
  generalize hbefore : (if peeked = [] then s else setHasPeek s number false) = u
  have hslot : ∀ m, m ≠ number → peekSlot u m = peekSlot s m := by
    intro m hm
    rw [← hbefore]
    split_ifs
    · rfl
    · exact slot_setHasPeek_of_ne hm false
  have hsame : u.attached = s.attached ∧ u.sent = s.sent ∧ u.fates = s.fates ∧
      u.taken = s.taken ∧ u.received = s.received ∧ source b u number = source b s number := by
    rw [← hbefore]
    split_ifs
    · exact ⟨rfl, rfl, rfl, rfl, rfl, rfl⟩
    · exact ⟨rfl, rfl, rfl, rfl, rfl, source_setHasPeek number number false⟩
  obtain ⟨hattached, hsent, hfates, htaken, hreceived, hsource⟩ := hsame
  -- what was peeked at comes first, and what is left of the size is read
  have hfirst : (size ≠ 0 ∧ peekSlot s number = peeked ∧ peekSlot u number = []) ∨
      (size = 0 ∧ peeked = [] ∧ peekSlot u number = peekSlot s number) := by
    by_cases hsize : size = 0
    · rw [if_pos hsize] at hpeeked
      subst hpeeked
      rw [if_pos rfl] at hbefore
      exact Or.inr ⟨hsize, rfl, by rw [hbefore]⟩
    · rw [if_neg hsize] at hpeeked
      refine Or.inl ⟨hsize, hpeeked, ?_⟩
      by_cases hnil : peeked = []
      · rw [if_pos hnil] at hbefore
        rw [← hbefore, hpeeked, hnil]
      · rw [if_neg hnil] at hbefore
        rw [← hbefore]
        simp [peekSlot, setHasPeek, setUart]
  have hpeekedLe : peeked.length ≤ size := by
    rcases hfirst with ⟨hsize, hslotEq, -⟩ | ⟨hsize, hnil, -⟩
    · rw [← hslotEq, peekSlot]
      split_ifs
      · exact Nat.one_le_iff_ne_zero.mpr hsize
      · exact Nat.zero_le _
    · rw [hnil]
      exact Nat.zero_le _
  obtain ⟨hle, hread⟩ := read_took (b := b) (F := F) (s := u) (.arduino number) number
    (size - peeked.length)
  generalize hcall : read b F u (.arduino number) number (size - peeked.length) = r at hle hread
  obtain ⟨bytes, v⟩ := r
  dsimp only at hle hread ⊢
  refine ⟨?_, by rw [List.length_append]; omega⟩
  have hnone : size = 0 → bytes = [] := by
    intro hsize
    exact List.length_eq_zero_iff.mp (by omega)
  rcases hread with ⟨-, heq⟩ | ⟨device, hdevice, htook⟩
  · obtain ⟨rfl, rfl⟩ := Prod.mk.inj heq
    refine ⟨hattached, hsent, ?_, hslot, [], ?_, Or.inl ⟨rfl, htaken, hreceived⟩⟩
    · change Function.update v.fates number _ = _
      rw [hfates]
    · rcases hfirst with ⟨-, hslotEq, hempty⟩ | ⟨-, hnil, hkept⟩
      · change peekSlot s number ++ [] = (peeked ++ []) ++ peekSlot v number
        rw [hslotEq, hempty, List.append_nil, List.append_nil]
      · change peekSlot s number ++ [] = (peeked ++ []) ++ peekSlot v number
        rw [hnil, hkept, List.append_nil, List.append_nil, List.nil_append]
  · refine ⟨htook.attached.trans hattached, htook.sent.trans hsent, ?_,
      fun m hm => (htook.slot m).trans (hslot m hm), bytes, ?_, Or.inr ⟨device, ?_, ?_, ?_⟩⟩
    · change Function.update v.fates number (v.fates number ++ _) = _
      rw [htook.fates, hfates]
    · change peekSlot s number ++ bytes = (peeked ++ bytes) ++ peekSlot v number
      rw [htook.slot number]
      rcases hfirst with ⟨-, hslotEq, hempty⟩ | ⟨hsize, hnil, hkept⟩
      · rw [hslotEq, hempty, List.append_nil]
      · rw [hnil, hkept, hnone hsize]
        simp
    · rw [← hsource]
      exact hdevice
    · rw [← htaken]
      exact htook.taken
    · rw [← hreceived]
      exact htook.received

theorem uartPeek_called (number : ℕ) :
    Called b s (uartPeek b F s number).2 number [] ∧
      ((s.world.uarts number).installed = true →
        ∀ byte ∈ peekSlot (uartPeek b F s number).2 number,
          (uartPeek b F s number).1 = byte) := by
  rw [uartPeek]
  by_cases hinstalled : (s.world.uarts number).installed = false
  · rw [if_pos hinstalled]
    exact ⟨Called.nothing ⟨rfl, rfl, rfl, rfl, rfl⟩ fun _ => rfl, fun h =>
      Bool.noConfusion (hinstalled.symm.trans h)⟩
  rw [if_neg hinstalled]
  by_cases hpeek : (s.world.uarts number).hasPeek = true
  · rw [if_pos hpeek]
    refine ⟨Called.nothing ⟨rfl, rfl, rfl, rfl, rfl⟩ fun _ => rfl, fun _ byte hbyte => ?_⟩
    simpa [peekSlot, hpeek, eq_comm] using hbyte
  rw [if_neg hpeek]
  have hempty : peekSlot s number = [] := by rw [peekSlot, if_neg hpeek]
  obtain ⟨hle, hread⟩ := read_took (b := b) (F := F) (s := s) (.arduino number) number 1
  generalize read b F s (.arduino number) number 1 = r at hle hread
  obtain ⟨bytes, v⟩ := r
  dsimp only at hle hread ⊢
  rcases hread with ⟨-, heq⟩ | ⟨device, hdevice, htook⟩
  · obtain ⟨rfl, rfl⟩ := Prod.mk.inj heq
    refine ⟨Called.nothing ⟨rfl, rfl, rfl, rfl, rfl⟩ fun _ => rfl, fun _ byte hbyte => ?_⟩
    rw [hempty] at hbyte
    cases hbyte
  · cases bytes with
    | nil =>
      have hreceived : v.received = s.received := by
        funext e
        have hboth := htook.received e
        rw [ite_self] at hboth
        exact hboth.symm
      have htaken := htook.taken
      rw [List.map_nil, List.append_nil] at htaken
      refine ⟨Called.nothing ⟨htook.attached, htook.sent, htook.fates, htaken, hreceived⟩
        htook.slot, fun _ byte hbyte => ?_⟩
      rw [htook.slot, hempty] at hbyte
      cases hbyte
    | cons byte rest =>
      obtain rfl : rest = [] := List.length_eq_zero_iff.mp (by simpa using hle)
      have hslot : peekSlot { setHasPeek v number true with
          peeked := Function.update (setHasPeek v number true).peeked number byte } number =
            [byte] := by
        simp [peekSlot, setHasPeek, setUart]
      refine ⟨⟨htook.attached, htook.sent, ?_, ?_, [byte], ?_, Or.inr ⟨device, hdevice, htook.taken,
        htook.received⟩⟩, fun _ byte' hbyte' => ?_⟩
      · rw [List.map_nil, List.append_nil, Function.update_eq_self]
        exact htook.fates
      · intro m hm
        rw [← htook.slot m]
        exact peekSlot_congr (by simp [setHasPeek, setUart, hm]) (by simp [setHasPeek, hm])
      · rw [hslot, hempty]
      · rw [hslot] at hbyte'
        exact (List.mem_singleton.mp hbyte').symm

end RooTesting.UartCables
