import RooTesting.SdSpiCard

/-! # The frames that an SD SPI card hears

A run of writes to the chip select, transfers and settings keeps a log of the command frames. The
counters of the card follow the log, and a stream is answered alike in whatever transfers it
comes. -/
namespace RooTesting.SdCards

open FrameListeners Rtc

inductive Event where
  | chipSelect (level : DigitalLevel)
  | transfer (spi : SpiInterface) (data : Option (List Byte)) (bits : ℕ)
  | setPresent (present : Bool)
  | setReady (ready : Bool)
  | setOcr (ocr : BitVec 32)
  | setResponseDelay (bytes : ℕ)

namespace FakeSdSpiCard

variable (card : FakeSdSpiCard)

def apply : Event → FakeSdSpiCard
  | .chipSelect level => card.writeChipSelect level
  | .transfer spi data bits => (card.transfer spi data bits).2
  | .setPresent present => card.setPresent present
  | .setReady ready => { card with ready := ready }
  | .setOcr ocr => { card with ocr := ocr }
  | .setResponseDelay bytes => { card with responseDelay := bytes }

/-- The bytes of an event that the card listens to. -/
def heardBytes : Event → List Byte
  | .transfer spi (some data) bits =>
    if card.isSelected = true ∧ card.present = true ∧ Admissible spi bits then
      data.take ((bits + 7) / 8)
    else []
  | _ => []

end FakeSdSpiCard

/-- The card, and the frames it has heard. -/
structure Session where
  card : FakeSdSpiCard
  heard : List (List Byte)

namespace Session

def new : Session := ⟨.new, []⟩

def step (s : Session) (e : Event) : Session :=
  ⟨s.card.apply e, s.heard ++ (framing.expect s.card.listener (s.card.heardBytes e)).frames⟩

end Session

/-- Whole bytes in one transfer. -/
abbrev Chunk := SpiInterface × List Byte

def Chunk.Admissible (t : Chunk) : Prop := FakeSdSpiCard.Admissible t.1 (8 * t.2.length)

instance Chunk.Admissible.decidable (t : Chunk) : Decidable t.Admissible :=
  FakeSdSpiCard.Admissible.decidable t.1 (8 * t.2.length)

def Chunk.event (t : Chunk) : Event := .transfer t.1 (some t.2) (8 * t.2.length)

def streamOf (ts : List Chunk) : List Byte := ts.flatMap Prod.snd

theorem streamOf_cons (t : Chunk) (ts : List Chunk) : streamOf (t :: ts) = t.2 ++ streamOf ts :=
  List.flatMap_cons

def FakeSdSpiCard.transfers : List Chunk → FakeSdSpiCard → List Byte × FakeSdSpiCard
  | [], card => ([], card)
  | t :: ts, card =>
    let (data, card) := card.transfer t.1 (some t.2) (8 * t.2.length)
    (data.getD [] ++ (transfers ts card).1, (transfers ts card).2)

section Counters

theorem accept_resetCommands (a : Account) (frame : List Byte) :
    (accept a frame).resetCommands =
      a.resetCommands + .ofNat 32 (if frame == resetCommand then 1 else 0) := by
  unfold accept
  by_cases hreset : frame = resetCommand
  · rw [if_pos hreset, if_pos (beq_iff_eq.mpr hreset)]
    rfl
  · rw [if_neg hreset, if_neg (beq_iff_eq.not.mpr hreset)]
    split_ifs <;> exact (BitVec.add_zero _).symm

theorem accept_statusCommands (a : Account) (frame : List Byte) :
    (accept a frame).statusCommands =
      a.statusCommands + .ofNat 32 (if frame == statusCommand then 1 else 0) := by
  unfold accept
  by_cases hstatus : frame = statusCommand
  · rw [if_pos (beq_iff_eq.mpr hstatus), if_neg (by rw [hstatus]; decide), if_pos hstatus]
    rfl
  · rw [if_neg (beq_iff_eq.not.mpr hstatus), if_neg hstatus]
    split_ifs <;> exact (BitVec.add_zero _).symm

/-- Each counter moves by the frames of its kind. -/
theorem accept_frames (a : Account) (frames : List (List Byte)) :
    (frames.foldl accept a).resetCommands =
        a.resetCommands + .ofNat 32 (frames.count resetCommand) ∧
      (frames.foldl accept a).statusCommands =
        a.statusCommands + .ofNat 32 (frames.count statusCommand) := by
  induction frames generalizing a with
  | nil => exact ⟨(BitVec.add_zero _).symm, (BitVec.add_zero _).symm⟩
  | cons frame frames ih =>
    obtain ⟨hreset, hstatus⟩ := ih (accept a frame)
    rw [List.foldl_cons, hreset, hstatus, accept_resetCommands, accept_statusCommands,
      List.count_cons, List.count_cons, BitVec.ofNat_add, BitVec.ofNat_add]
    exact ⟨by ac_rfl, by ac_rfl⟩

end Counters

namespace FakeSdSpiCard

variable {card : FakeSdSpiCard}

/-- The chip select and the presence are as they were. -/
structure Kept (card card' : FakeSdSpiCard) : Prop where
  isSelected : card'.isSelected = card.isSelected
  present : card'.present = card.present
  selected : card'.selected = card.selected

theorem Kept.trans {card card' card'' : FakeSdSpiCard} (h : Kept card card')
    (h' : Kept card' card'') : Kept card card'' :=
  ⟨h'.isSelected.trans h.isSelected, h'.present.trans h.present, h'.selected.trans h.selected⟩

theorem prepareResponse_kept (card : FakeSdSpiCard) : Kept card card.prepareResponse := by
  unfold prepareResponse
  dsimp only
  split_ifs <;> exact ⟨rfl, rfl, rfl⟩

theorem exchange_kept (card : FakeSdSpiCard) (value : Byte) :
    Kept card (card.exchange value).2 := by
  unfold exchange
  dsimp only
  split_ifs
  · exact ⟨rfl, rfl, rfl⟩
  · exact ⟨rfl, rfl, rfl⟩
  · exact ⟨rfl, rfl, rfl⟩
  · obtain ⟨his, hpresent, hselected⟩ :=
      prepareResponse_kept { card with command := card.command ++ [value] }
    exact ⟨his, hpresent, hselected⟩
  · exact ⟨rfl, rfl, rfl⟩

theorem exchangeAll_kept (card : FakeSdSpiCard) (data : List Byte) :
    Kept card (card.exchangeAll data).2 := by
  induction data generalizing card with
  | nil => exact ⟨rfl, rfl, rfl⟩
  | cons value data ih => exact (exchange_kept card value).trans (ih _)

/-- A loop of exchanges is a stream that is listened to. -/
theorem exchangeAll_listen (card : FakeSdSpiCard) (data : List Byte) :
    (card.exchangeAll data).1 = (framing.listen card.listener data).replies ∧
      (card.exchangeAll data).2.listener = framing.after card.listener data := by
  induction data generalizing card with
  | nil => exact ⟨rfl, rfl⟩
  | cons value data ih =>
    obtain ⟨hreply, hlistener⟩ := exchange_hear card value
    obtain ⟨hreplies, hafter⟩ := ih (card.exchange value).2
    rw [hlistener] at hreplies hafter
    exact ⟨congrArg₂ List.cons hreply hreplies, hafter⟩

theorem exchangeAll_append (card : FakeSdSpiCard) (data later : List Byte) :
    card.exchangeAll (data ++ later) =
      ((card.exchangeAll data).1 ++ ((card.exchangeAll data).2.exchangeAll later).1,
        ((card.exchangeAll data).2.exchangeAll later).2) := by
  induction data generalizing card with
  | nil => rfl
  | cons value data ih =>
    rw [List.cons_append, exchangeAll, ih]
    rfl

/-- A transfer leaves the card as it is, notes an error, or exchanges what the card hears. -/
theorem transfer_cases (card : FakeSdSpiCard) (spi : SpiInterface) (data : Option (List Byte))
    (bits : ℕ) :
    (card.heardBytes (.transfer spi data bits) = [] ∧ ((card.transfer spi data bits).2 = card ∨
        (card.transfer spi data bits).2 = { card with protocolError := true })) ∨
      (card.transfer spi data bits).2 =
        (card.exchangeAll (card.heardBytes (.transfer spi data bits))).2 := by
  rcases data with _ | data
  · exact Or.inl ⟨rfl, Or.inl rfl⟩
  unfold transfer heardBytes
  dsimp only
  by_cases hbits : bits = 0
  · obtain rfl := hbits
    rw [if_pos rfl]
    exact Or.inl ⟨by rw [Nat.zero_add, List.take_zero, ite_self], Or.inl rfl⟩
  rw [if_neg hbits]
  by_cases hthere : card.isSelected = true ∧ card.present = true
  · rw [if_neg (not_not.mpr hthere)]
    by_cases hspi : Admissible spi bits
    · rw [if_neg (not_not.mpr hspi), if_pos ⟨hthere.1, hthere.2, hspi⟩]
      exact Or.inr rfl
    · rw [if_pos hspi, if_neg (fun h => hspi h.2.2)]
      exact Or.inl ⟨rfl, Or.inr rfl⟩
  · rw [if_pos hthere, if_neg (fun h => hthere ⟨h.1, h.2.1⟩)]
    exact Or.inl ⟨rfl, Or.inl rfl⟩

/-- What is sent while the card is not there comes back as `0xff`. -/
theorem transfer_away (h : ¬(card.isSelected = true ∧ card.present = true)) (spi : SpiInterface)
    (data : Option (List Byte)) (bits : ℕ) :
    card.transfer spi data bits =
      (data.map fun data => (data.take ((bits + 7) / 8)).map (fun _ => 0xff) ++
        data.drop ((bits + 7) / 8), card) := by
  rcases data with _ | data
  · rfl
  unfold transfer
  dsimp only
  by_cases hbits : bits = 0
  · obtain rfl := hbits
    rfl
  · rw [if_neg hbits, if_pos h]
    rfl

/-- A write to the chip select is an edge, or only the level is kept. -/
theorem writeChipSelect_cases (hselected : card.selected = card.isSelected) (level : DigitalLevel) :
    (card.isSelected = decide (level = .low) ∧
        card.writeChipSelect level = { card with cs := some level }) ∨
      (card.isSelected ≠ decide (level = .low) ∧ card.writeChipSelect level =
        { card with cs := some level, selected := !card.isSelected }.onChipSelect
          (!card.isSelected)) := by
  have hnow : isSelected { card with cs := some level } = decide (level = .low) := by
    simp [isSelected]
  unfold writeChipSelect updateChipSelect
  rw [hnow]
  dsimp only
  by_cases hedge : card.isSelected = decide (level = .low)
  · rw [if_pos (hedge.symm.trans hselected.symm)]
    exact Or.inl ⟨hedge, rfl⟩
  · rw [if_neg (by rw [hselected]; exact Ne.symm hedge), ← Bool.eq_not.mpr (Ne.symm hedge)]
    exact Or.inr ⟨hedge, rfl⟩

/-- An edge of the chip select leaves the card at rest. -/
theorem writeChipSelect_listener (hselected : card.selected = card.isSelected)
    {level : DigitalLevel} (hedge : card.isSelected ≠ decide (level = .low)) :
    (card.writeChipSelect level).listener =
      ⟨{ card.toAccount with
          protocolError := card.protocolError || (card.isSelected && !card.command.isEmpty) },
        [], []⟩ := by
  obtain ⟨hsame, -⟩ | ⟨-, heq⟩ := writeChipSelect_cases hselected level
  · exact absurd hsame hedge
  · rw [heq]
    simp [onChipSelect, listener, pending]

theorem transfer_whole (hselected : card.isSelected = true) (hpresent : card.present = true)
    {t : Chunk} (ht : t.Admissible) :
    card.transfer t.1 (some t.2) (8 * t.2.length) =
      (some (card.exchangeAll t.2).1, (card.exchangeAll t.2).2) := by
  have hsize : (8 * t.2.length + 7) / 8 = t.2.length := by omega
  unfold transfer
  dsimp only
  rw [hsize, List.take_length, List.drop_length]
  by_cases hnil : t.2 = []
  · rw [hnil]
    rfl
  · have hlength := List.length_pos_iff.mpr hnil
    rw [if_neg (by omega), if_neg (not_not.mpr ⟨hselected, hpresent⟩), if_neg, List.append_nil]
    exact not_not.mpr ht

/-- Transfers exchange the stream that they cut. -/
theorem transfers_stream {ts : List Chunk} (hselected : card.isSelected = true)
    (hpresent : card.present = true) (hts : ∀ t ∈ ts, t.Admissible) :
    card.transfers ts = card.exchangeAll (streamOf ts) := by
  induction ts generalizing card with
  | nil => rfl
  | cons t ts ih =>
    obtain ⟨ht, hts⟩ := List.forall_mem_cons.mp hts
    obtain ⟨his, hpresent', -⟩ := exchangeAll_kept card t.2
    have hlater : (card.exchangeAll t.2).2.transfers ts = _ :=
      ih (his.trans hselected) (hpresent'.trans hpresent) hts
    rw [transfers, transfer_whole hselected hpresent ht, streamOf_cons,
      exchangeAll_append]
    exact congrArg (fun out : List Byte × FakeSdSpiCard =>
      ((card.exchangeAll t.2).1 ++ out.1, out.2)) hlater

end FakeSdSpiCard

namespace Session

/-- The listener is in a proper place, and the log accounts for the counters. -/
structure Sound (s : Session) : Prop where
  valid : framing.Valid s.card.listener
  selected : s.card.selected = s.card.isSelected
  resetCommands : s.card.resetCommands = .ofNat 32 (s.heard.count resetCommand)
  statusCommands : s.card.statusCommands = .ofNat 32 (s.heard.count statusCommand)
  whole : ∀ frame ∈ s.heard, framing.Whole frame

theorem valid_rest (a : Account) : framing.Valid ⟨a, [], []⟩ :=
  { short := framing.size_pos, begun := (fun _ h => nomatch h), alone := Or.inl rfl }

theorem sound_new : new.Sound where
  valid := valid_rest _
  selected := rfl
  resetCommands := rfl
  statusCommands := rfl
  whole := fun _ h => nomatch h

variable {s : Session}

/-- An event in which nothing is heard adds nothing to the log. -/
theorem Sound.silent (h : s.Sound) {e : Event} (hnil : s.card.heardBytes e = []) :
    (s.step e).heard = s.heard := by
  refine (congrArg (s.heard ++ ·) ?_).trans (List.append_nil _)
  rw [hnil, ← h.valid.listen]
  rfl

/-- A step that leaves the counters and the log alone. -/
theorem Sound.settle (h : s.Sound) {e : Event} {card : FakeSdSpiCard}
    (hcard : s.card.apply e = card) (hnil : s.card.heardBytes e = [])
    (hvalid : framing.Valid card.listener) (hselected : card.selected = card.isSelected)
    (hreset : card.resetCommands = s.card.resetCommands)
    (hstatus : card.statusCommands = s.card.statusCommands) : (s.step e).Sound := by
  have hstep : s.step e = ⟨card, s.heard⟩ := by
    rw [← h.silent hnil, ← hcard]
    rfl
  rw [hstep]
  exact ⟨hvalid, hselected, hreset.trans h.resetCommands, hstatus.trans h.statusCommands,
    h.whole⟩

theorem Sound.chipSelect (h : s.Sound) (level : DigitalLevel) :
    (s.step (.chipSelect level)).Sound := by
  rcases FakeSdSpiCard.writeChipSelect_cases h.selected level with ⟨hsame, heq⟩ | ⟨hne, heq⟩
  · refine h.settle heq rfl (h.valid.state _) ?_ rfl rfl
    exact h.selected.trans (hsame.trans (by simp [FakeSdSpiCard.isSelected]))
  · refine h.settle heq rfl (valid_rest _) ?_ rfl rfl
    refine (Bool.eq_not.mpr (Ne.symm hne)).symm.trans ?_
    simp [FakeSdSpiCard.isSelected, FakeSdSpiCard.onChipSelect]

/-- The counters move by the frames in the bytes that are exchanged. -/
theorem Sound.exchange (h : s.Sound) {e : Event}
    (hcard : s.card.apply e = (s.card.exchangeAll (s.card.heardBytes e)).2) :
    (s.step e).Sound := by
  obtain ⟨-, hlistener⟩ := FakeSdSpiCard.exchangeAll_listen s.card (s.card.heardBytes e)
  obtain ⟨his, -, hselected⟩ := FakeSdSpiCard.exchangeAll_kept s.card (s.card.heardBytes e)
  rw [← hcard] at hlistener his hselected
  have haccount : (s.card.apply e).toAccount =
      (framing.expect s.card.listener (s.card.heardBytes e)).frames.foldl accept
        s.card.toAccount := by
    rw [← h.valid.listen]
    exact (congrArg Listener.state hlistener).trans (Protocol.after_state _ _)
  obtain ⟨hreset, hstatus⟩ := accept_frames s.card.toAccount
    (framing.expect s.card.listener (s.card.heardBytes e)).frames
  refine ⟨?_, hselected.trans (h.selected.trans his.symm), ?_, ?_, ?_⟩
  · exact hlistener ▸ h.valid.after _
  · rw [step, List.count_append, BitVec.ofNat_add, ← h.resetCommands, ← hreset, ← haccount]
  · rw [step, List.count_append, BitVec.ofNat_add, ← h.statusCommands, ← hstatus, ← haccount]
  · intro frame hframe
    rcases List.mem_append.mp hframe with hframe | hframe
    · exact h.whole frame hframe
    · rw [← h.valid.listen] at hframe
      exact h.valid.frames _ frame hframe

theorem Sound.step (h : s.Sound) (e : Event) : (s.step e).Sound := by
  cases e with
  | chipSelect level => exact h.chipSelect level
  | transfer spi data bits =>
    obtain ⟨hnil, heq | heq⟩ | heq := FakeSdSpiCard.transfer_cases s.card spi data bits
    · exact h.settle heq hnil h.valid h.selected rfl rfl
    · exact h.settle heq hnil (h.valid.state _) h.selected rfl rfl
    · exact h.exchange heq
  | setPresent present => exact h.settle rfl rfl (valid_rest _) h.selected rfl rfl
  | setReady ready => exact h.settle rfl rfl (h.valid.state _) h.selected rfl rfl
  | setOcr ocr => exact h.settle rfl rfl (h.valid.state _) h.selected rfl rfl
  | setResponseDelay bytes => exact h.settle rfl rfl (h.valid.state _) h.selected rfl rfl

theorem Sound.run (h : s.Sound) (events : List Event) : (events.foldl Session.step s).Sound := by
  induction events generalizing s with
  | nil => exact h
  | cons e events ih => exact ih (h.step e)

theorem step_chunk (hselected : s.card.isSelected = true) (hpresent : s.card.present = true)
    {t : Chunk} (ht : t.Admissible) :
    s.step t.event = ⟨(s.card.exchangeAll t.2).2,
      s.heard ++ (framing.expect s.card.listener t.2).frames⟩ := by
  have happly : s.card.apply t.event = (s.card.exchangeAll t.2).2 :=
    congrArg Prod.snd (FakeSdSpiCard.transfer_whole hselected hpresent ht)
  have hbytes : s.card.heardBytes t.event = t.2 := by
    have hsize : (8 * t.2.length + 7) / 8 = t.2.length := by omega
    refine (if_pos ⟨hselected, hpresent, ht⟩).trans ?_
    rw [hsize, List.take_length]
  rw [step, happly, hbytes]

/-- The transfers that cut a stream are as good as the stream. -/
theorem Sound.chunks (h : s.Sound) {ts : List Chunk} (hselected : s.card.isSelected = true)
    (hpresent : s.card.present = true) (hts : ∀ t ∈ ts, t.Admissible) :
    (ts.map Chunk.event).foldl Session.step s = ⟨(s.card.exchangeAll (streamOf ts)).2,
      s.heard ++ (framing.expect s.card.listener (streamOf ts)).frames⟩ := by
  induction ts generalizing s with
  | nil => exact congrArg (Session.mk s.card) (h.silent (e := .setPresent true) rfl).symm
  | cons t ts ih =>
    obtain ⟨ht, hts⟩ := List.forall_mem_cons.mp hts
    obtain ⟨his, hpresent', -⟩ := FakeSdSpiCard.exchangeAll_kept s.card t.2
    obtain ⟨-, hlistener⟩ := FakeSdSpiCard.exchangeAll_listen s.card t.2
    have hstep := step_chunk hselected hpresent ht
    have hsound := h.step t.event
    rw [hstep] at hsound
    have hlater := ih hsound (his.trans hselected) (hpresent'.trans hpresent) hts
    rw [List.map_cons, List.foldl_cons, hstep, hlater, streamOf_cons,
      FakeSdSpiCard.exchangeAll_append]
    refine congrArg (Session.mk _) ?_
    rw [← h.valid.listen, ← h.valid.listen, ← hsound.valid.listen, Protocol.listen_append,
      ← hlistener, List.append_assoc]
    rfl

end Session

theorem answer_shape (a : Account) (frame : List Byte) :
    ∃ response, framing.answer a frame = List.replicate a.responseDelay 0xff ++ response ∧
      response.length = if frame = statusCommand then 5 else 1 := by
  refine ⟨_, rfl, ?_⟩
  by_cases hstatus : frame = statusCommand
  · rw [if_neg (by rw [hstatus]; decide), if_pos hstatus, if_pos hstatus]
    rfl
  · rw [if_neg hstatus, if_neg hstatus]
    split_ifs <;> rfl

def probeSpi : SpiInterface := ⟨400000, .mode0, true⟩

/-- Every run: the counters follow the frames heard; a selected card that is present answers a
stream as `expect` says in whatever transfers it comes; an edge of the chip select leaves the
listener at rest, and an error where it breaks off a frame; a card that is not there keeps its
state; and an answer is the delay and one byte, or five. -/
theorem frames_answered (events : List Event) :
    let s := events.foldl Session.step .new
    (s.card.resetCommands = .ofNat 32 (s.heard.count resetCommand) ∧
      s.card.statusCommands = .ofNat 32 (s.heard.count statusCommand) ∧
      ∀ frame ∈ s.heard, framing.Whole frame) ∧
    (∀ ts : List Chunk, s.card.isSelected = true → s.card.present = true →
      (∀ t ∈ ts, t.Admissible) →
      let c := framing.expect s.card.listener (streamOf ts)
      let z := (ts.map Chunk.event).foldl Session.step s
      s.card.transfers ts = (c.replies, z.card) ∧
        z.card = (s.card.exchangeAll (streamOf ts)).2 ∧
        z.heard = s.heard ++ c.frames ∧ z.card.command = c.unfinished) ∧
    (∀ level, s.card.isSelected ≠ decide (level = .low) →
      let edge := s.card.writeChipSelect level
      edge.command = [] ∧
        edge.toAccount = { s.card.toAccount with
          protocolError :=
            s.card.protocolError || (s.card.isSelected && !s.card.command.isEmpty) } ∧
        ∀ stream, framing.expect edge.listener stream = framing.converse edge.toAccount stream) ∧
    (∀ spi data bits, ¬(s.card.isSelected = true ∧ s.card.present = true) →
      s.card.transfer spi data bits =
        (data.map fun data => (data.take ((bits + 7) / 8)).map (fun _ => 0xff) ++
          data.drop ((bits + 7) / 8), s.card)) ∧
    ∀ a frame, ∃ response, framing.answer a frame =
        List.replicate a.responseDelay 0xff ++ response ∧
      response.length = if frame = statusCommand then 5 else 1 := by
  intro s
  have h : s.Sound := Session.sound_new.run events
  refine ⟨⟨h.resetCommands, h.statusCommands, h.whole⟩, ?_, ?_, ?_, answer_shape⟩
  · intro ts hselected hpresent hts c z
    have hz : z = _ := h.chunks hselected hpresent hts
    obtain ⟨hreplies, hlistener⟩ := FakeSdSpiCard.exchangeAll_listen s.card (streamOf ts)
    have hcard : z.card = (s.card.exchangeAll (streamOf ts)).2 := congrArg Session.card hz
    rw [h.valid.listen] at hreplies
    refine ⟨?_, hcard, congrArg Session.heard hz, ?_⟩
    · rw [FakeSdSpiCard.transfers_stream hselected hpresent hts]
      exact Prod.ext hreplies hcard.symm
    · rw [hcard]
      refine (congrArg Listener.frame hlistener).trans ?_
      rw [Protocol.after_frame, h.valid.listen]
  · intro level hedge edge
    have hlistener : edge.listener = _ := FakeSdSpiCard.writeChipSelect_listener h.selected hedge
    have haccount : edge.toAccount = _ := congrArg Listener.state hlistener
    refine ⟨congrArg Listener.frame hlistener, haccount, fun stream => ?_⟩
    rw [hlistener, haccount]
    exact Protocol.expect_rest _ _
  · intro spi data bits haway
    exact FakeSdSpiCard.transfer_away haway spi data bits

/-- A status command in two transfers, of which the second begins one more. -/
theorem frames_answered_split :
    let s := [Event.setResponseDelay 2, .chipSelect .low].foldl Session.step .new
    let ts : List Chunk := [(probeSpi, [0x7a, 0, 0]),
      (probeSpi, [0, 0, 0xfd, 0, 0, 0, 0, 0, 0x40, 0x40, 0x40, 0])]
    let z := (ts.map Chunk.event).foldl Session.step s
    s.card.transfers ts = ((framing.expect s.card.listener (streamOf ts)).replies, z.card) ∧
      (s.card.transfers ts).1 =
        [0xff, 0xff, 0xff, 0xff, 0xff, 0xff, 0xff, 0xff, 1, 0xc0, 0xff, 0x80, 0, 0xff, 0xff] ∧
      (s.card.writeChipSelect .high).command = [] ∧
      FakeSdSpiCard.new.transfer probeSpi (some [0x7a]) 8 = (some [0xff], .new) := by
  intro s ts z
  have hstream := (frames_answered [.setResponseDelay 2, .chipSelect .low]).2.1 ts
    (by decide) (by decide) (by decide)
  have hedge := (frames_answered [.setResponseDelay 2, .chipSelect .low]).2.2.1 .high (by decide)
  have haway := (frames_answered []).2.2.2.1 probeSpi (some [0x7a]) 8 (by decide)
  exact ⟨hstream.1, by decide, hedge.1, haway⟩

/-- A reset command, and one byte for its answer. -/
def probe : Chunk := (probeSpi, resetCommand ++ [0xff])

namespace Session

/-- A selected card at rest. -/
structure Idle (a : Account) (s : Session) : Prop where
  sound : s.Sound
  selected : s.card.isSelected = true
  present : s.card.present = true
  rest : s.card.listener = ⟨a, [], []⟩

theorem Idle.chunk {a a' : Account} {frames : List (List Byte)} {t : Chunk} (h : Idle a s)
    (ht : t.Admissible) (hframes : (framing.listen ⟨a, [], []⟩ t.2).frames = frames)
    (hafter : framing.after ⟨a, [], []⟩ t.2 = ⟨a', [], []⟩) :
    Idle a' (s.step t.event) ∧ (s.step t.event).heard = s.heard ++ frames := by
  obtain ⟨his, hpresent, -⟩ := FakeSdSpiCard.exchangeAll_kept s.card t.2
  obtain ⟨-, hlistener⟩ := FakeSdSpiCard.exchangeAll_listen s.card t.2
  have hstep := step_chunk h.selected h.present ht
  have hcard := congrArg Session.card hstep
  rw [← h.sound.valid.listen, h.rest, hframes] at hstep
  refine ⟨⟨h.sound.step _, ?_, ?_, ?_⟩, congrArg Session.heard hstep⟩
  · rw [hcard]
    exact his.trans h.selected
  · rw [hcard]
    exact hpresent.trans h.present
  · rw [hcard]
    exact hlistener.trans (h.rest ▸ hafter)

/-- A card without delay is done with a probe when the probe ends. -/
theorem listen_probe {a : Account} (h : a.responseDelay = 0) :
    (framing.listen ⟨a, [], []⟩ probe.2).frames = [resetCommand] ∧
      framing.after ⟨a, [], []⟩ probe.2 = ⟨accept a resetCommand, [], []⟩ := by
  have hanswer : answer a resetCommand = [0x01] := by
    rw [answer, h, if_pos rfl]
    rfl
  simp only [resetCommand, BitVec.ofNat_eq_ofNat] at hanswer
  simp [Protocol.listen, Protocol.after, Protocol.hear, framing, probe, resetCommand, hanswer,
    Conversation.behind]

theorem Idle.probes {a : Account} (h : Idle a s) (hdelay : a.responseDelay = 0) (n : ℕ) :
    ((List.replicate n probe.event).foldl step s).heard =
      s.heard ++ List.replicate n resetCommand := by
  induction n generalizing s a with
  | zero => exact (List.append_nil _).symm
  | succ n ih =>
    obtain ⟨hframes, hafter⟩ := listen_probe hdelay
    obtain ⟨hidle, hheard⟩ := h.chunk (by decide) hframes hafter
    have hdelay' : (accept a resetCommand).responseDelay = 0 := by
      rw [accept, if_pos rfl]
      exact hdelay
    rw [List.replicate_succ, List.foldl_cons, ih hidle hdelay', hheard, List.append_assoc]
    rfl

end Session

/-- The counters are words of 32 bits, which 2^32 resets wrap. -/
theorem resetCommands_wrap :
    ¬∀ events : List Event,
      let s := events.foldl Session.step .new
      s.card.resetCommands.toNat = s.heard.count resetCommand := by
  intro h
  have hidle : Session.Idle _ (Session.new.step (.chipSelect .low)) :=
    ⟨Session.sound_new.step _, rfl, rfl, rfl⟩
  have hheard := hidle.probes rfl (2 ^ 32)
  have hcount := h (.chipSelect .low :: List.replicate (2 ^ 32) probe.event)
  dsimp only at hcount
  rw [List.foldl_cons, hheard, List.count_append, List.count_replicate_self] at hcount
  exact Nat.not_lt_of_le (Nat.le_add_left _ _) (hcount.symm.le.trans_lt (BitVec.isLt _))

end RooTesting.SdCards
