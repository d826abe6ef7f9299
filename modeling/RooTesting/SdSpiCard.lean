import RooTesting.FrameListener
import RooTesting.RtcBursts
import Mathlib.Data.List.GetD

/-! # The SD SPI card

A card answers the commands CMD0 and CMD58 within a frame of its chip select. It listens for
commands of six bytes, whatever transfers bring them. -/
namespace RooTesting.SdCards

open FrameListeners Rtc

/-- What a command is answered from and what it changes. -/
structure Account where
  responseDelay : ℕ
  ocr : BitVec 32
  resetCommands : BitVec 32
  statusCommands : BitVec 32
  ready : Bool
  protocolError : Bool
  deriving DecidableEq

/-- The level of a signal on average. -/
inductive DigitalLevel where
  | low | high | undef
  deriving DecidableEq

/-- `command` and `response` are the parts of the two arrays that their sizes cover. -/
structure FakeSdSpiCard extends Account where
  command : List Byte
  response : List Byte
  responsePosition : ℕ
  delayRemaining : ℕ
  present : Bool
  selected : Bool
  cs : Option DigitalLevel
  deriving DecidableEq

namespace FakeSdSpiCard

def new : FakeSdSpiCard where
  responseDelay := 0
  ocr := 0xc0ff8000
  resetCommands := 0
  statusCommands := 0
  ready := false
  protocolError := false
  command := []
  response := []
  responsePosition := 0
  delayRemaining := 0
  present := true
  selected := false
  cs := none

/-- The four bytes of the OCR, the high byte first. -/
def ocrBytes (ocr : BitVec 32) : List Byte :=
  (List.range 4).map fun i => (ocr >>> (24 - 8 * i)).setWidth 8

variable (card : FakeSdSpiCard)

def setPresent (present : Bool) : FakeSdSpiCard :=
  { card with
    present := present
    ready := false
    command := []
    response := []
    responsePosition := 0 }

def onChipSelect (selected : Bool) : FakeSdSpiCard :=
  { card with
    protocolError := card.protocolError || (!selected && !card.command.isEmpty)
    command := []
    response := []
    responsePosition := 0
    delayRemaining := 0 }

/-- The sink's level is low; one that was never written is undefined. -/
def isSelected : Bool := card.cs = some .low

def updateChipSelect : FakeSdSpiCard :=
  if card.isSelected = card.selected then card
  else { card with selected := card.isSelected }.onChipSelect card.isSelected

/-- A signal on the chip select whose average level does not move. -/
def writeChipSelect (level : DigitalLevel) : FakeSdSpiCard :=
  { card with cs := some level }.updateChipSelect

def prepareResponse : FakeSdSpiCard :=
  let card := { card with responsePosition := 0, delayRemaining := card.responseDelay }
  let byte (i : ℕ) : Byte := card.command.getD i 0
  let reset := byte 0 = 0x40
  let status := byte 0 = 0x7a
  if ¬reset ∧ ¬status then { card with protocolError := true, response := [0x04] }
  else if byte 1 ≠ 0 ∨ byte 2 ≠ 0 ∨ byte 3 ≠ 0 ∨ byte 4 ≠ 0 ∨
      byte 5 ≠ (if reset then 0x95 else 0xfd) then
    { card with protocolError := true, response := [0x08] }
  else
    let (card, tail) :=
      if reset then ({ card with resetCommands := card.resetCommands + 1, ready := false }, [])
      else ({ card with statusCommands := card.statusCommands + 1 }, ocrBytes card.ocr)
    { card with response := (if card.ready then 0x00 else 0x01) :: tail }

def exchange (value : Byte) : Byte × FakeSdSpiCard :=
  if card.responsePosition < card.response.length then
    if card.delayRemaining ≠ 0 then
      (0xff, { card with delayRemaining := card.delayRemaining - 1 })
    else
      (card.response.getD card.responsePosition 0,
        { card with responsePosition := card.responsePosition + 1 })
  else if card.command = [] ∧ value &&& 0xc0 ≠ 0x40 then (0xff, card)
  else
    let card := { card with command := card.command ++ [value] }
    if card.command.length = 6 then (0xff, { card.prepareResponse with command := [] })
    else (0xff, card)

def exchangeAll : FakeSdSpiCard → List Byte → List Byte × FakeSdSpiCard
  | card, [] => ([], card)
  | card, value :: data =>
    ((card.exchange value).1 :: (exchangeAll (card.exchange value).2 data).1,
      (exchangeAll (card.exchange value).2 data).2)

/-- Whole bytes in mode 0, the high bit first, at 25 MHz at most. -/
def Admissible (spi : SpiInterface) (bits : ℕ) : Prop :=
  bits % 8 = 0 ∧ spi.dataMode = .mode0 ∧ spi.msbFirst = true ∧ spi.clkHz ≠ 0 ∧
    spi.clkHz ≤ 25000000

instance Admissible.decidable (spi : SpiInterface) (bits : ℕ) : Decidable (Admissible spi bits) :=
  inferInstanceAs (Decidable (_ ∧ _))

/-- A transfer of some bits over a buffer, which may be missing. -/
def transfer (spi : SpiInterface) (data : Option (List Byte)) (bits : ℕ) :
    Option (List Byte) × FakeSdSpiCard :=
  match data with
  | none => (none, card)
  | some data =>
    if bits = 0 then (some data, card)
    else
      let sent := data.take ((bits + 7) / 8)
      let rest := data.drop ((bits + 7) / 8)
      if ¬(card.isSelected = true ∧ card.present = true) then
        (some (sent.map (fun _ => 0xff) ++ rest), card)
      else if ¬Admissible spi bits then
        (some (sent.map (fun _ => 0xff) ++ rest), { card with protocolError := true })
      else (some ((card.exchangeAll sent).1 ++ rest), (card.exchangeAll sent).2)

end FakeSdSpiCard

def resetCommand : List Byte := [0x40, 0, 0, 0, 0, 0x95]

def statusCommand : List Byte := [0x7a, 0, 0, 0, 0, 0xfd]

/-- The dummy bytes, then one byte, or five to a valid status command. -/
def answer (a : Account) (frame : List Byte) : List Byte :=
  List.replicate a.responseDelay 0xff ++
    if frame = resetCommand then [0x01]
    else if frame = statusCommand then
      (if a.ready then 0x00 else 0x01) :: FakeSdSpiCard.ocrBytes a.ocr
    else if frame.head? = some 0x40 ∨ frame.head? = some 0x7a then [0x08]
    else [0x04]

def accept (a : Account) (frame : List Byte) : Account :=
  if frame = resetCommand then { a with resetCommands := a.resetCommands + 1, ready := false }
  else if frame = statusCommand then { a with statusCommands := a.statusCommands + 1 }
  else { a with protocolError := true }

/-- Frames of six bytes, the first of them `01xxxxxx`. -/
def framing : Protocol Account Byte Byte where
  starts b := b &&& 0xc0 = 0x40
  size := 6
  size_pos := by decide
  filler := 0xff
  answer := answer
  accept := accept

namespace FakeSdSpiCard

variable (card : FakeSdSpiCard)

/-- What the card has still to send. -/
def pending : List Byte :=
  if card.responsePosition < card.response.length then
    List.replicate card.delayRemaining 0xff ++ card.response.drop card.responsePosition
  else []

def listener : Listener Account Byte Byte := ⟨card.toAccount, card.command, card.pending⟩

section Bytes

variable {card}

/-- A command of six bytes that is not valid is answered by one byte of error. -/
theorem prepareResponse_error (h : card.command.length = 6) (hreset : card.command ≠ resetCommand)
    (hstatus : card.command ≠ statusCommand) :
    card.prepareResponse = { card with
      responsePosition := 0
      delayRemaining := card.responseDelay
      protocolError := true
      response :=
        if card.command.head? = some 0x40 ∨ card.command.head? = some 0x7a then [0x08]
        else [0x04] } := by
  obtain ⟨account, command, response, position, delay, present, selected, cs⟩ := card
  match command, h with
  | [b0, b1, b2, b3, b4, b5], _ =>
    simp only [resetCommand, statusCommand, ne_eq, List.cons.injEq, and_true] at hreset hstatus
    unfold prepareResponse
    simp only [List.getD_cons_zero, List.getD_cons_succ, List.head?_cons, Option.some.injEq]
    by_cases h0 : b0 = 0x40
    · rw [if_neg (fun hn => hn.1 h0), if_pos, if_pos (Or.inl h0)]
      rw [if_pos h0]
      tauto
    · by_cases h1 : b0 = 0x7a
      · rw [if_neg (fun hn => hn.2 h1), if_pos, if_pos (Or.inr h1)]
        rw [if_neg h0]
        tauto
      · rw [if_pos ⟨h0, h1⟩, if_neg (not_or.mpr ⟨h0, h1⟩)]

/-- A whole command is answered and accepted. -/
theorem prepareResponse_listener (h : card.command.length = 6) :
    listener { card.prepareResponse with command := [] } =
      ⟨accept card.toAccount card.command, [], answer card.toAccount card.command⟩ := by
  by_cases hreset : card.command = resetCommand
  · simp [prepareResponse, hreset, listener, pending, accept, answer, resetCommand]
  by_cases hstatus : card.command = statusCommand
  · simp [prepareResponse, hstatus, listener, pending, accept, answer, statusCommand, resetCommand]
  rw [prepareResponse_error h hreset hstatus]
  rw [accept, if_neg hreset, if_neg hstatus, answer, if_neg hreset, if_neg hstatus]
  refine congrArg (Listener.mk _ _) ?_
  refine if_pos ?_
  dsimp only
  split <;> exact Nat.one_pos

/-- What is left to send is sent, and no byte is listened to. -/
theorem exchange_sends (h : card.responsePosition < card.response.length) (value : Byte) :
    ∃ reply pending card', card.pending = reply :: pending ∧
      card.exchange value = (reply, card') ∧ card'.listener = { card.listener with pending } := by
  have hpending : card.pending =
      List.replicate card.delayRemaining 0xff ++ card.response.drop card.responsePosition :=
    if_pos h
  unfold exchange
  rw [if_pos h]
  rcases hdelay : card.delayRemaining with _ | delay
  · rw [hdelay, List.replicate_zero, List.nil_append, List.drop_eq_getElem_cons h] at hpending
    rw [if_neg (not_not.mpr rfl)]
    refine ⟨_, _, _, hpending, by rw [List.getD_eq_getElem _ _ h], ?_⟩
    refine congrArg (Listener.mk _ _) ?_
    unfold pending
    split
    · rfl
    · exact (List.drop_eq_nil_of_le (not_lt.mp ‹_›)).symm
  · rw [hdelay, List.replicate_succ, List.cons_append] at hpending
    rw [if_pos (Nat.succ_ne_zero delay)]
    exact ⟨_, _, _, hpending, rfl, congrArg (Listener.mk _ _) (if_pos h)⟩

/-- The card exchanges bytes as its listener hears them. -/
theorem exchange_hear (card : FakeSdSpiCard) (value : Byte) :
    (card.exchange value).1 = (framing.hear card.listener value).1 ∧
      (card.exchange value).2.listener = (framing.hear card.listener value).2.2 := by
  by_cases hresponse : card.responsePosition < card.response.length
  · obtain ⟨reply, pending, card', hpending, hexchange, hlistener⟩ := exchange_sends hresponse value
    rw [Protocol.hear_pending hpending, hexchange]
    exact ⟨rfl, hlistener⟩
  have hpending : card.listener.pending = [] := if_neg hresponse
  unfold exchange
  rw [if_neg hresponse]
  by_cases hidle : card.command = [] ∧ value &&& 0xc0 ≠ 0x40
  · rw [if_pos hidle, Protocol.hear_idle hpending hidle.1 (decide_eq_false hidle.2)]
    exact ⟨rfl, rfl⟩
  rw [if_neg hidle]
  have hgoes : Protocol.Continues framing card.command value :=
    fun hnil => decide_eq_true (not_not.mp fun hne => hidle ⟨hnil, hne⟩)
  have hlength : (card.command ++ [value]).length = card.command.length + 1 :=
    List.length_append
  by_cases hfull : card.command.length + 1 = 6
  · rw [Protocol.hear_completes hpending hgoes hfull]
    dsimp only
    rw [hlength, if_pos hfull]
    exact ⟨rfl, prepareResponse_listener (hlength.trans hfull)⟩
  · rw [Protocol.hear_collects hpending hgoes hfull]
    dsimp only
    rw [hlength, if_neg hfull]
    exact ⟨rfl, rfl⟩

end Bytes
end FakeSdSpiCard
end RooTesting.SdCards
