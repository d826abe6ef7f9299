import RooTesting.ArduinoLedcCalls

/-! # What the Arduino LEDC calls read back

Calls, deadlines and completions one after another. A reading comes from the fade engine or from
the record of the channel, and the signal of the pin was put there by the one or the other. -/
namespace RooTesting.LedcReadings
open Transition ArduinoLedc
open FadeEngine (Engine Request VoltageSignal kChannels period materialize)

/-- A channel is given to a pin once its completion has been taken. -/
def Fresh (b : Board) (frequency index : ℕ) : Prop :=
  frequency ≠ 0 → (b.engine.channels index).state ≠ .pending

/-- A fade that does not start leaves the duty as it is. -/
def Startable (soc : Soc) (b : Board) (c : FadeCall) : Prop :=
  ∀ index, b.forPin soc c.pin = some index → b.fadeActive index = false →
    (b.ensureFadeInterrupt c.ensured).1 = true → (b.channels index).frequency ≠ 0 →
      (b.request index c).accepted c.nowUs = true ∨
      mappedDuty (b.channels index).resolution (b.request index c).startDuty =
        mappedDuty (b.channels index).resolution (b.channels index).duty

/-- No tone and no inversion under a fade, and no channel given out before its completion. -/
def Orderly (soc : Soc) (b : Board) : Happening → Prop
  | .attachChannel pin frequency resolution index claimed nowUs =>
    (b.ledcAttachChannel soc pin frequency resolution index claimed nowUs).1 = true →
      Fresh b frequency index
  | .attach pin frequency resolution claimed nowUs =>
    (b.ledcAttach soc pin frequency resolution claimed nowUs).1 = true →
      ∀ index, b.unused soc = some index → Fresh b frequency index
  | .writeTone pin frequency => frequency ≠ 0 →
    ∀ index, b.forPin soc pin = some index → b.fadeActive index = false
  | .outputInvert pin _ => ∀ index, b.forPin soc pin = some index →
    (b.channels index).frequency ≠ 0 → b.fadeActive index = false
  | .fade c _ | .fadeWithInterrupt c _ _ | .fadeWithInterruptArg c _ _ _ => Startable soc b c
  | _ => True

/-- The pin carries the duty for the channel, at every uptime. -/
def Reads (c : Channel) (pin : Option PinSignal) (duty : ℤ → ℕ) : Prop :=
  ∃ signal, pin = some signal ∧
    ∀ uptimeUs, signal.ticks (period c.resolution) c.inverted uptimeUs = duty uptimeUs

/-- The fade of a channel fits the channel. -/
structure Fading (r : Request) (c : Channel) : Prop where
  resolution : r.resolution = c.resolution
  inverted : r.inverted = c.inverted
  target : mappedDuty c.resolution r.targetDuty = r.targetDuty

/-- What the pin of a channel shows, by the state of the channel in the engine. -/
def Shows (s : FadeEngine.Channel) (c : Channel) (pin : Option PinSignal) : Prop :=
  match s.state with
  | .queued => False
  | .armed => c.attached = true ∧ s.request.pin = c.pin ∧ (c.frequency ≠ 0 → Fading s.request c ∧
    Reads c pin fun uptimeUs => materialize s.request (uptimeUs - s.fadeStartUs))
  | .pending => c.attached = true → c.frequency ≠ 0 →
    mappedDuty c.resolution s.duty = s.duty ∧ Reads c pin fun _ => s.duty
  | .idle | .cancelled => c.attached = true → c.frequency ≠ 0 →
    Reads c pin fun _ => mappedDuty c.resolution c.duty

/-- The tables of the channels and of the pins are those of one relation. -/
structure Owned (soc : Soc) (channels : ℕ → Channel) (pinChannel : ℕ → Option ℕ) : Prop where
  pin_lt : ∀ i, (channels i).attached = true → (channels i).pin < soc.pins
  index_lt : ∀ i, (channels i).attached = true → i < soc.channels
  owner : ∀ i, (channels i).attached = true → pinChannel (channels i).pin = some i
  used : ∀ pin i, pinChannel pin = some i → (channels i).attached = true ∧ (channels i).pin = pin

structure Agrees (soc : Soc) (b : Board) : Prop where
  delivery : b.engine.delivery = []
  draining : b.engine.draining = false
  owned : Owned soc b.channels b.pinChannel
  shows : ∀ i, Shows (b.engine.channels i) (b.channels i) (b.pins (b.channels i).pin)

theorem mappedDuty_idem (resolution duty : ℕ) :
    mappedDuty resolution (mappedDuty resolution duty) = mappedDuty resolution duty := by
  unfold mappedDuty
  grind

theorem period_pos (resolution : ℕ) : 0 < period resolution := Nat.two_pow_pos resolution

theorem reads_buildSignal {c : Channel} (hfrequency : c.frequency ≠ 0) :
    Reads c (some (buildSignal c)) fun _ => mappedDuty c.resolution c.duty := by
  refine ⟨_, rfl, ?_⟩
  intro uptimeUs
  rw [buildSignal, if_neg hfrequency, PinSignal.ticks, if_pos rfl]
  exact FadeEngine.ticks_constant (period_pos _) uptimeUs

theorem reads_endpoint {s : FadeEngine.Channel} {c : Channel} (h : Fading s.request c) :
    Reads c (some (.carrier (s.signal true))) fun _ => s.request.targetDuty := by
  refine ⟨_, rfl, ?_⟩
  intro uptimeUs
  rw [FadeEngine.Channel.signal, PinSignal.ticks, if_pos h.inverted, if_pos rfl, ← h.resolution]
  exact FadeEngine.ticks_constant (period_pos _) uptimeUs

theorem reads_fade {s : FadeEngine.Channel} {c : Channel} (h : Fading s.request c)
    (hduration : 0 < s.request.durationUs) (hnarrow : s.request.Narrow) :
    Reads c (some (.carrier (s.signal false)))
      fun uptimeUs => materialize s.request (uptimeUs - s.fadeStartUs) := by
  refine ⟨_, rfl, ?_⟩
  intro uptimeUs
  rw [FadeEngine.Channel.signal, PinSignal.ticks, if_pos h.inverted, if_neg Bool.false_ne_true,
    ← h.resolution]
  exact FadeEngine.ticks_fade s.request s.fadeStartUs uptimeUs (period_pos _) hduration hnarrow

theorem Reads.congr {c c' : Channel} {pin : Option PinSignal} {duty : ℤ → ℕ}
    (h : Reads c pin duty) (hresolution : c'.resolution = c.resolution)
    (hinverted : c'.inverted = c.inverted) : Reads c' pin duty := by
  unfold Reads
  rw [hresolution, hinverted]
  exact h

/-- A channel that is not attached shows nothing. -/
theorem Shows.detached {s : FadeEngine.Channel} {c c' : Channel} {pin pin' : Option PinSignal}
    (h : Shows s c pin) (hold : c.attached = false) (hnew : c'.attached = false) :
    Shows s c' pin' := by
  unfold Shows at h ⊢
  cases hstate : s.state with
  | queued =>
    rw [hstate] at h
    exact h
  | armed =>
    rw [hstate] at h
    exact absurd h.1 (by rw [hold]; exact Bool.false_ne_true)
  | pending => exact fun hcontra => absurd hcontra (by rw [hnew]; exact Bool.false_ne_true)
  | idle => exact fun hcontra => absurd hcontra (by rw [hnew]; exact Bool.false_ne_true)
  | cancelled => exact fun hcontra => absurd hcontra (by rw [hnew]; exact Bool.false_ne_true)

section Frame

variable {soc : Soc} {b b' : Board}

/-- Two attached channels have two pins. -/
theorem Owned.distinct {channels : ℕ → Channel} {pinChannel : ℕ → Option ℕ}
    (h : Owned soc channels pinChannel) {i j : ℕ} (hi : (channels i).attached = true)
    (hj : (channels j).attached = true) (hpin : (channels i).pin = (channels j).pin) : i = j := by
  have hfirst := h.owner i hi
  rw [hpin, h.owner j hj] at hfirst
  exact (Option.some.inj hfirst).symm

/-- A step on one channel and its pin. -/
theorem Agrees.change (h : Agrees soc b) (index : ℕ) (hdelivery : b'.engine.delivery = [])
    (hdraining : b'.engine.draining = false) (howned : Owned soc b'.channels b'.pinChannel)
    (hengine : ∀ j, j ≠ index → b'.engine.channels j = b.engine.channels j)
    (hchannels : ∀ j, j ≠ index → b'.channels j = b.channels j)
    (hpins : ∀ j, j ≠ index → (b.channels j).attached = true →
      b'.pins (b.channels j).pin = b.pins (b.channels j).pin)
    (hshows : Shows (b'.engine.channels index) (b'.channels index)
      (b'.pins (b'.channels index).pin)) : Agrees soc b' where
  delivery := hdelivery
  draining := hdraining
  owned := howned
  shows j := by
    by_cases hj : j = index
    · subst hj
      exact hshows
    · rw [hengine j hj, hchannels j hj]
      cases hattached : (b.channels j).attached with
      | true =>
        rw [hpins j hj hattached]
        exact h.shows j
      | false => exact (h.shows j).detached hattached hattached

end Frame

section Attach

variable {soc : Soc} {b : Board}

/-- What a cancellation leaves of a channel. -/
structure Freed (b b' : Board) (index : ℕ) : Prop where
  channels : b'.channels = b.channels
  pinChannel : b'.pinChannel = b.pinChannel
  delivery : b'.engine.delivery = []
  draining : b'.engine.draining = false
  engine : ∀ j, j ≠ index → b'.engine.channels j = b.engine.channels j
  armed : (b'.engine.channels index).state ≠ .armed
  queued : (b'.engine.channels index).state ≠ .queued
  pending : (b'.engine.channels index).state = .pending → (b.engine.channels index).state = .pending
  pins : ∀ pin : ℤ, pin ≠ (b.channels index).pin → b'.pins pin = b.pins pin

theorem Agrees.not_queued (h : Agrees soc b) (index : ℕ) :
    (b.engine.channels index).state ≠ .queued := by
  intro hqueued
  have hshows := h.shows index
  unfold Shows at hshows
  rw [hqueued] at hshows
  exact hshows

theorem Agrees.armed (h : Agrees soc b) {index : ℕ}
    (harmed : (b.engine.channels index).state = .armed) :
    (b.channels index).attached = true ∧
      (b.engine.channels index).request.pin = (b.channels index).pin ∧
      ((b.channels index).frequency ≠ 0 → Fading (b.engine.channels index).request
        (b.channels index)) := by
  have hshows := h.shows index
  unfold Shows at hshows
  rw [harmed] at hshows
  exact ⟨hshows.1, hshows.2.1, fun hfrequency => (hshows.2.2 hfrequency).1⟩

theorem Agrees.freed (h : Agrees soc b) (index : ℕ) (nowUs : ℤ) :
    Freed b (b.cancelEngine index nowUs) index := by
  have hqueued := h.not_queued index
  by_cases harmed : (b.engine.channels index).state = .armed
  · obtain ⟨hattached, hpin, -⟩ := h.armed harmed
    have hindex : index < kChannels := (h.owned.index_lt index hattached).trans_le soc.channels_le
    unfold Board.cancelEngine
    rw [if_pos hindex]
    simp only [Engine.cancel, harmed, true_or, if_true, Engine.enqueue, Engine.setChannel,
      h.draining, h.delivery, Bool.not_false, List.nil_append, Board.drain, Board.deliver,
      Function.update_self, Board.write, Bool.false_eq_true, if_false, hpin]
    refine ⟨rfl, rfl, rfl, rfl, ?_, ?_, ?_, ?_, ?_⟩
    · intro j hj
      exact Function.update_of_ne hj ..
    · simp
    · simp
    · simp
    · intro pin hne
      exact Function.update_of_ne hne ..
  · have hsame : b.cancelEngine index nowUs = b := by
      unfold Board.cancelEngine Engine.cancel
      simp [harmed, hqueued]
    rw [hsame]
    exact ⟨rfl, rfl, h.delivery, h.draining, fun _ _ => rfl, harmed, hqueued, id, fun _ _ => rfl⟩

theorem shows_free {s : FadeEngine.Channel} {c : Channel} {pin : Option PinSignal}
    (harmed : s.state ≠ .armed) (hqueued : s.state ≠ .queued) (hc : c.attached = false) :
    Shows s c pin := by
  unfold Shows
  cases hstate : s.state with
  | queued => exact absurd hstate hqueued
  | armed => exact absurd hstate harmed
  | pending => exact fun hcontra => absurd hcontra (by rw [hc]; exact Bool.false_ne_true)
  | idle => exact fun hcontra => absurd hcontra (by rw [hc]; exact Bool.false_ne_true)
  | cancelled => exact fun hcontra => absurd hcontra (by rw [hc]; exact Bool.false_ne_true)

theorem Owned.remove {channels : ℕ → Channel} {pinChannel : ℕ → Option ℕ}
    (h : Owned soc channels pinChannel) {index : ℕ} (hattached : (channels index).attached = true) :
    Owned soc (Function.update channels index {})
      (Function.update pinChannel (channels index).pin none) where
  pin_lt i hi := by
    by_cases heq : i = index
    · subst heq
      simp at hi
    · rw [Function.update_of_ne heq] at hi ⊢
      exact h.pin_lt i hi
  index_lt i hi := by
    by_cases heq : i = index
    · subst heq
      simp at hi
    · rw [Function.update_of_ne heq] at hi
      exact h.index_lt i hi
  owner i hi := by
    by_cases heq : i = index
    · subst heq
      simp at hi
    · rw [Function.update_of_ne heq] at hi ⊢
      rw [Function.update_of_ne (fun hpin => heq (h.distinct hi hattached hpin))]
      exact h.owner i hi
  used pin i hi := by
    by_cases hpin : pin = (channels index).pin
    · rw [hpin, Function.update_self] at hi
      cases hi
    · rw [Function.update_of_ne hpin] at hi
      obtain ⟨hon, hat⟩ := h.used pin i hi
      have hne : i ≠ index := by
        intro heq
        subst heq
        exact hpin hat.symm
      rw [Function.update_of_ne hne]
      exact ⟨hon, hat⟩

/-- `Cancel` of an attached channel, and its fresh state. -/
def release (b : Board) (index : ℕ) (nowUs : ℤ) : Board :=
  (((b.cancelEngine index nowUs).driveLow (b.channels index).pin).setPinChannel
    (b.channels index).pin none).setChannel index {}

theorem Agrees.release (h : Agrees soc b) {index : ℕ} (nowUs : ℤ)
    (hattached : (b.channels index).attached = true) : Agrees soc (release b index nowUs) := by
  have hfreed := h.freed index nowUs
  refine h.change index hfreed.delivery hfreed.draining ?_ hfreed.engine ?_ ?_ ?_
  · unfold LedcReadings.release Board.setChannel Board.setPinChannel Board.driveLow Board.write
    dsimp only
    rw [hfreed.channels, hfreed.pinChannel]
    exact h.owned.remove hattached
  · intro j hj
    unfold LedcReadings.release Board.setChannel Board.setPinChannel Board.driveLow Board.write
    dsimp only
    rw [Function.update_of_ne hj, hfreed.channels]
  · intro j hj hon
    have hpin : ((b.channels j).pin : ℤ) ≠ (b.channels index).pin := by
      intro heq
      exact hj (h.owned.distinct hon hattached (Int.natCast_inj.mp heq))
    unfold LedcReadings.release Board.setChannel Board.setPinChannel Board.driveLow Board.write
    dsimp only
    rw [Function.update_of_ne hpin]
    exact hfreed.pins _ hpin
  · refine shows_free hfreed.armed hfreed.queued ?_
    unfold LedcReadings.release Board.setChannel
    dsimp only
    rw [Function.update_self]

theorem release_pending (h : Agrees soc b) (index : ℕ) (nowUs : ℤ) {j : ℕ}
    (hpending : ((release b index nowUs).engine.channels j).state = .pending) :
    (b.engine.channels j).state = .pending := by
  have hfreed := h.freed index nowUs
  by_cases hj : j = index
  · subst hj
    exact hfreed.pending hpending
  · have hsame : (release b index nowUs).engine.channels j = b.engine.channels j :=
      hfreed.engine j hj
    rw [hsame] at hpending
    exact hpending

theorem release_pinChannel (h : Agrees soc b) (index : ℕ) (nowUs : ℤ) :
    (release b index nowUs).pinChannel =
      Function.update b.pinChannel (b.channels index).pin none := by
  rw [← (h.freed index nowUs).pinChannel]
  rfl

theorem forPin_eq_some {pin index : ℕ} (hpin : b.forPin soc pin = some index) :
    b.pinChannel pin = some index := by
  unfold Board.forPin at hpin
  split at hpin
  · exact hpin
  · cases hpin

theorem Agrees.forPin (h : Agrees soc b) {pin index : ℕ} (hpin : b.forPin soc pin = some index) :
    (b.channels index).attached = true ∧ (b.channels index).pin = pin :=
  h.owned.used pin index (forPin_eq_some hpin)

theorem ledcDetach_release (h : Agrees soc b) {pin index : ℕ} (nowUs : ℤ)
    (hpin : b.forPin soc pin = some index) :
    (b.ledcDetach soc pin nowUs).2 = LedcReadings.release b index nowUs := by
  unfold Board.ledcDetach
  rw [hpin]
  obtain ⟨-, hat⟩ := h.forPin hpin
  unfold LedcReadings.release
  rw [hat]
  rfl

theorem Agrees.ledcDetach (h : Agrees soc b) (pin : ℕ) (nowUs : ℤ) :
    Agrees soc (b.ledcDetach soc pin nowUs).2 := by
  cases hpin : b.forPin soc pin with
  | none =>
    unfold Board.ledcDetach
    rw [hpin]
    exact h
  | some index =>
    rw [ledcDetach_release h nowUs hpin]
    exact h.release nowUs (h.forPin hpin).1

theorem Owned.add {channels : ℕ → Channel} {pinChannel : ℕ → Option ℕ}
    (h : Owned soc channels pinChannel) {index : ℕ} {c : Channel}
    (hfree : (channels index).attached = false) (hunused : pinChannel c.pin = none)
    (hpin : c.pin < soc.pins) (hindex : index < soc.channels) (hc : c.attached = true) :
    Owned soc (Function.update channels index c)
      (Function.update pinChannel c.pin (some index)) where
  pin_lt i hi := by
    by_cases heq : i = index
    · subst heq
      rw [Function.update_self]
      exact hpin
    · rw [Function.update_of_ne heq] at hi ⊢
      exact h.pin_lt i hi
  index_lt i hi := by
    by_cases heq : i = index
    · rw [heq]
      exact hindex
    · rw [Function.update_of_ne heq] at hi
      exact h.index_lt i hi
  owner i hi := by
    by_cases heq : i = index
    · subst heq
      rw [Function.update_self, Function.update_self]
    · rw [Function.update_of_ne heq] at hi ⊢
      have hne : (channels i).pin ≠ c.pin := by
        intro hat
        have howner := h.owner i hi
        rw [hat, hunused] at howner
        cases howner
      rw [Function.update_of_ne hne]
      exact h.owner i hi
  used pin i hi := by
    by_cases hat : pin = c.pin
    · subst hat
      rw [Function.update_self] at hi
      obtain rfl := Option.some.inj hi
      rw [Function.update_self]
      exact ⟨hc, rfl⟩
    · rw [Function.update_of_ne hat] at hi
      obtain ⟨hon, hpin⟩ := h.used pin i hi
      have hne : i ≠ index := by
        intro heq
        rw [heq, hfree] at hon
        cases hon
      rw [Function.update_of_ne hne]
      exact ⟨hon, hpin⟩

theorem Owned.congr {channels channels' : ℕ → Channel} {pinChannel : ℕ → Option ℕ}
    (h : Owned soc channels pinChannel)
    (hattached : ∀ i, (channels' i).attached = (channels i).attached)
    (hpin : ∀ i, (channels i).attached = true → (channels' i).pin = (channels i).pin) :
    Owned soc channels' pinChannel where
  pin_lt i hi := by
    rw [hattached] at hi
    rw [hpin i hi]
    exact h.pin_lt i hi
  index_lt i hi := by
    rw [hattached] at hi
    exact h.index_lt i hi
  owner i hi := by
    rw [hattached] at hi
    rw [hpin i hi]
    exact h.owner i hi
  used pin i hi := by
    obtain ⟨hon, hat⟩ := h.used pin i hi
    rw [hattached, hpin i hon]
    exact ⟨hon, hat⟩

/-- A record that keeps the channel where it is. -/
theorem Owned.update {channels : ℕ → Channel} {pinChannel : ℕ → Option ℕ}
    (h : Owned soc channels pinChannel) {index : ℕ} {c : Channel}
    (hattached : c.attached = (channels index).attached)
    (hpin : (channels index).attached = true → c.pin = (channels index).pin) :
    Owned soc (Function.update channels index c) pinChannel := by
  apply h.congr
  · intro i
    by_cases heq : i = index
    · rw [heq, Function.update_self, hattached]
    · rw [Function.update_of_ne heq]
  · intro i hi
    by_cases heq : i = index
    · subst heq
      rw [Function.update_self, hpin hi]
    · rw [Function.update_of_ne heq]

/-- The fresh state of a channel that is not attached. -/
theorem Agrees.reset (h : Agrees soc b) {index : ℕ}
    (hfree : (b.channels index).attached = false) : Agrees soc (b.setChannel index {}) := by
  refine h.change index h.delivery h.draining ?_ (fun _ _ => rfl) ?_ (fun _ _ _ => rfl) ?_
  · apply h.owned.update
    · rw [hfree]
    · intro hcontra
      rw [hfree] at hcontra
      cases hcontra
  · intro j hj
    exact Function.update_of_ne hj ..
  · refine (h.shows index).detached hfree ?_
    unfold Board.setChannel
    dsimp only
    rw [Function.update_self]

/-- A channel is taken away from the pin it was on, if any. -/
def vacate (b : Board) (index : ℕ) (nowUs : ℤ) : Board :=
  if (b.channels index).attached = true then release b index nowUs else b.setChannel index {}

theorem Agrees.vacate (h : Agrees soc b) (index : ℕ) (nowUs : ℤ) :
    Agrees soc (vacate b index nowUs) := by
  unfold LedcReadings.vacate
  by_cases hattached : (b.channels index).attached = true
  · rw [if_pos hattached]
    exact h.release nowUs hattached
  · rw [if_neg hattached]
    exact h.reset (Bool.not_eq_true _ ▸ hattached)

theorem vacate_attached (b : Board) (index : ℕ) (nowUs : ℤ) :
    ((vacate b index nowUs).channels index).attached = false := by
  unfold vacate release Board.setChannel
  split
  · dsimp only
    rw [Function.update_self]
  · dsimp only
    rw [Function.update_self]

theorem vacate_unused (h : Agrees soc b) (index : ℕ) (nowUs : ℤ) {pin : ℕ}
    (hunused : b.pinChannel pin = none) : (vacate b index nowUs).pinChannel pin = none := by
  unfold vacate
  split
  · rw [release_pinChannel h index nowUs, Function.update_apply]
    split
    · rfl
    · exact hunused
  · exact hunused

theorem vacate_pending (h : Agrees soc b) (index : ℕ) (nowUs : ℤ) {j : ℕ}
    (hpending : ((vacate b index nowUs).engine.channels j).state = .pending) :
    (b.engine.channels j).state = .pending := by
  unfold vacate at hpending
  split at hpending
  · exact release_pending h index nowUs hpending
  · exact hpending

/-- What `install` finds of the channel does not matter. -/
theorem install_evict (h : Agrees soc b) (pin frequency resolution index : ℕ) (claimed : Bool)
    (nowUs : ℤ) : (b.evict soc index nowUs).install pin frequency resolution index claimed nowUs =
      (vacate b index nowUs).install pin frequency resolution index claimed nowUs := by
  have hreset : ∀ v : Board, (v.setChannel index {}).install pin frequency resolution index claimed
      nowUs = v.install pin frequency resolution index claimed nowUs := by
    intro v
    unfold Board.install Board.setChannel
    simp only [Function.update_idem]
  unfold Board.evict vacate release
  by_cases hattached : (b.channels index).attached = true
  · rw [if_pos hattached, hreset]
    dsimp only
    rw [if_pos ⟨hattached, h.owned.pin_lt index hattached⟩]
  · rw [if_neg hattached, hreset]
    dsimp only
    rw [if_neg (fun hcontra => hattached hcontra.1)]

theorem Agrees.install (h : Agrees soc b) {pin frequency resolution index : ℕ} {claimed : Bool}
    {nowUs : ℤ} (hfree : (b.channels index).attached = false) (hunused : b.pinChannel pin = none)
    (hpin : pin < soc.pins) (hindex : index < soc.channels)
    (hfresh : claimed = true → Fresh b frequency index) :
    Agrees soc (b.install pin frequency resolution index claimed nowUs).2 := by
  unfold Board.install
  cases claimed with
  | false =>
    have hsame : Function.update b.pinChannel pin none = b.pinChannel := by
      rw [← hunused, Function.update_eq_self]
    have hreset := h.reset hfree
    simp only [Bool.false_eq_true, if_false, Board.setPinChannel]
    rw [show (b.setChannel index {}).pinChannel = b.pinChannel from rfl, hsame]
    exact hreset
  | true =>
    rw [if_pos rfl]
    dsimp only
    refine h.change index h.delivery h.draining ?_ (fun _ _ => rfl) ?_ ?_ ?_
    · exact h.owned.add (c := ⟨true, pin, resolution, frequency, 0, false, nowUs, none, .null, none⟩)
        hfree hunused hpin hindex rfl
    · intro j hj
      exact Function.update_of_ne hj ..
    · intro j hj hon
      unfold Board.publish Board.setPinChannel Board.setChannel Board.write
      dsimp only
      rw [Function.update_self]
      refine Function.update_of_ne ?_ ..
      intro heq
      have howner := h.owned.owner j hon
      rw [Int.natCast_inj.mp heq, hunused] at howner
      cases howner
    · unfold Board.publish Board.setPinChannel Board.setChannel Board.write
      dsimp only
      rw [Function.update_self, Function.update_self]
      unfold Shows
      cases hstate : (b.engine.channels index).state with
      | queued => exact absurd hstate (h.not_queued index)
      | armed =>
        have hon := (h.armed hstate).1
        rw [hfree] at hon
        cases hon
      | pending => exact fun _ hfrequency => absurd hstate (hfresh rfl hfrequency)
      | idle => exact fun _ hfrequency => reads_buildSignal hfrequency
      | cancelled => exact fun _ hfrequency => reads_buildSignal hfrequency

theorem forPin_of_used {pin : ℕ} (hpin : pin < soc.pins) : b.forPin soc pin = b.pinChannel pin := by
  unfold Board.forPin
  rw [if_pos hpin]

/-- A pin in use is detached first. -/
theorem attach_detached (h : Agrees soc b) {pin : ℕ} (nowUs : ℤ) (hpin : pin < soc.pins) {v : Board}
    (hv : v = if b.pinChannel pin ≠ none then (b.ledcDetach soc pin nowUs).2 else b) :
    Agrees soc v ∧ v.pinChannel pin = none ∧
      ∀ j, (v.engine.channels j).state = .pending → (b.engine.channels j).state = .pending := by
  subst hv
  cases hused : b.pinChannel pin with
  | none =>
    rw [if_neg (by simp)]
    exact ⟨h, hused, fun _ => id⟩
  | some index =>
    have hfor : b.forPin soc pin = some index := (forPin_of_used hpin).trans hused
    rw [if_pos (by simp), ledcDetach_release h nowUs hfor]
    obtain ⟨hon, hat⟩ := h.forPin hfor
    refine ⟨h.release nowUs hon, ?_, fun j => release_pending h index nowUs⟩
    rw [release_pinChannel h index nowUs, hat, Function.update_self]

theorem Agrees.ledcAttachChannel (h : Agrees soc b) {pin frequency resolution index : ℕ}
    {claimed : Bool} {nowUs : ℤ}
    (hfresh : (b.ledcAttachChannel soc pin frequency resolution index claimed nowUs).1 = true →
      Fresh b frequency index) :
    Agrees soc (b.ledcAttachChannel soc pin frequency resolution index claimed nowUs).2 := by
  unfold Board.ledcAttachChannel at hfresh ⊢
  by_cases hchecks : soc.isOutputPin pin = false ∨ soc.channels ≤ index ∨ resolution = 0 ∨
      soc.timerBitWidth < resolution
  · rw [if_pos hchecks]
    exact h
  · rw [if_neg hchecks] at hfresh ⊢
    rw [not_or, not_or] at hchecks
    obtain ⟨houtput, hindex, -⟩ := hchecks
    have hpin : pin < soc.pins := soc.output_lt pin (by simpa using houtput)
    obtain ⟨hv, hunused, hpending⟩ := attach_detached h nowUs hpin rfl
    dsimp only at hfresh ⊢
    rw [install_evict hv] at hfresh ⊢
    refine (hv.vacate index nowUs).install (vacate_attached _ _ _)
      (vacate_unused hv index nowUs hunused) hpin (by omega) ?_
    intro hclaimed hfrequency hcontra
    refine hfresh ?_ hfrequency (hpending index (vacate_pending hv index nowUs hcontra))
    rw [Board.install, if_pos hclaimed]

theorem Agrees.ledcAttach (h : Agrees soc b) {pin frequency resolution : ℕ} {claimed : Bool}
    {nowUs : ℤ}
    (hfresh : (b.ledcAttach soc pin frequency resolution claimed nowUs).1 = true →
      ∀ index, b.unused soc = some index → Fresh b frequency index) :
    Agrees soc (b.ledcAttach soc pin frequency resolution claimed nowUs).2 := by
  unfold Board.ledcAttach at hfresh ⊢
  cases hunused : b.unused soc with
  | none => exact h
  | some index =>
    rw [hunused] at hfresh
    exact h.ledcAttachChannel fun hattached => hfresh hattached index rfl

end Attach

section Fades

variable {soc : Soc} {b : Board}

theorem fadeActive_false (h : Agrees soc b) {index : ℕ}
    (hattached : (b.channels index).attached = true) (hactive : b.fadeActive index = false) :
    (b.engine.channels index).state = .idle ∨ (b.engine.channels index).state = .cancelled := by
  have hindex := (h.owned.index_lt index hattached).trans_le soc.channels_le
  unfold Board.fadeActive Engine.snapshot at hactive
  rw [if_neg (by omega)] at hactive
  cases hstate : (b.engine.channels index).state with
  | idle => exact Or.inl rfl
  | cancelled => exact Or.inr rfl
  | armed => simp [hstate] at hactive
  | queued => simp [hstate] at hactive
  | pending => simp [hstate] at hactive

/-- A channel without a fade gets a new record, and publishes it; under a fade its frequency has
become zero. -/
theorem Agrees.republish (h : Agrees soc b) {index : ℕ} {c : Channel}
    (hon : (b.channels index).attached = true) (hattached : c.attached = true)
    (hpin : c.pin = (b.channels index).pin)
    (hfade : c.frequency ≠ 0 → b.fadeActive index = false) :
    Agrees soc (b.republish index c) := by
  refine h.change index h.delivery h.draining ?_ (fun _ _ => rfl) ?_ ?_ ?_
  · exact h.owned.update (hattached.trans hon.symm) fun _ => hpin
  · intro j hj
    exact Function.update_of_ne hj ..
  · intro j hj hother
    unfold Board.republish Board.publish Board.setChannel Board.write
    dsimp only
    rw [Function.update_self, hpin]
    refine Function.update_of_ne ?_ ..
    intro heq
    exact hj (h.owned.distinct hother hon (Int.natCast_inj.mp heq))
  · unfold Board.republish Board.publish Board.setChannel Board.write
    dsimp only
    rw [Function.update_self, Function.update_self]
    by_cases hfrequency : c.frequency = 0
    · unfold Shows
      cases hstate : (b.engine.channels index).state with
      | queued => exact absurd hstate (h.not_queued index)
      | armed =>
        obtain ⟨-, hat, -⟩ := h.armed hstate
        exact ⟨hattached, by rw [hat, hpin], fun hcontra => absurd hfrequency hcontra⟩
      | pending => exact fun _ hcontra => absurd hfrequency hcontra
      | idle => exact fun _ hcontra => absurd hfrequency hcontra
      | cancelled => exact fun _ hcontra => absurd hfrequency hcontra
    · unfold Shows
      rcases fadeActive_false h hon (hfade hfrequency) with hstate | hstate
      · rw [hstate]
        exact fun _ _ => reads_buildSignal hfrequency
      · rw [hstate]
        exact fun _ _ => reads_buildSignal hfrequency

theorem Agrees.ledcWrite (h : Agrees soc b) (pin duty : ℕ) :
    Agrees soc (b.ledcWrite soc pin duty).2 := by
  unfold Board.ledcWrite
  cases hpin : b.forPin soc pin with
  | none => exact h
  | some index =>
    dsimp only
    by_cases hactive : b.fadeActive index = true
    · rw [if_pos hactive]
      exact h
    · rw [if_neg hactive]
      have hon := (h.forPin hpin).1
      exact h.republish hon hon rfl fun _ => Bool.not_eq_true _ ▸ hactive

theorem Agrees.ledcWriteChannel (h : Agrees soc b) (index duty : ℕ) :
    Agrees soc (b.ledcWriteChannel soc index duty).2 := by
  unfold Board.ledcWriteChannel
  split
  · exact h
  · rename_i hchecks
    rw [not_or, not_or] at hchecks
    obtain ⟨-, hon, hactive⟩ := hchecks
    have hattached : (b.channels index).attached = true := by simpa using hon
    exact h.republish hattached hattached rfl fun _ => by simpa using hactive

theorem Agrees.ledcWriteTone (h : Agrees soc b) {pin frequency : ℕ}
    (hok : frequency ≠ 0 → ∀ index, b.forPin soc pin = some index → b.fadeActive index = false) :
    Agrees soc (b.ledcWriteTone soc pin frequency).2 := by
  unfold Board.ledcWriteTone
  cases hpin : b.forPin soc pin with
  | none => exact h
  | some index =>
    have hon := (h.forPin hpin).1
    exact h.republish hon hon rfl fun hfrequency => hok hfrequency index hpin

theorem Agrees.ledcChangeFrequency (h : Agrees soc b) (pin frequency resolution : ℕ) (nowUs : ℤ) :
    Agrees soc (b.ledcChangeFrequency soc pin frequency resolution nowUs).2 := by
  unfold Board.ledcChangeFrequency
  cases hpin : b.forPin soc pin with
  | none => exact h
  | some index =>
    dsimp only
    split
    · exact h
    · rename_i hchecks
      rw [not_or, not_or] at hchecks
      have hon := (h.forPin hpin).1
      exact h.republish hon hon rfl fun _ => by simpa using hchecks.2.2

theorem Agrees.ledcOutputInvert (h : Agrees soc b) {pin : ℕ} {inverted : Bool}
    (hok : ∀ index, b.forPin soc pin = some index → (b.channels index).frequency ≠ 0 →
      b.fadeActive index = false) : Agrees soc (b.ledcOutputInvert soc pin inverted).2 := by
  unfold Board.ledcOutputInvert
  cases hpin : b.forPin soc pin with
  | none => exact h
  | some index =>
    have hon := (h.forPin hpin).1
    exact h.republish hon hon rfl (hok index hpin)

/-- The fade of a channel moves on, and its pin with it. -/
theorem Agrees.fade (h : Agrees soc b) {b' : Board} {index : ℕ} {c : Channel}
    {s : FadeEngine.Channel} {signal : VoltageSignal}
    (hon : (b.channels index).attached = true) (hattached : c.attached = true)
    (hpin : c.pin = (b.channels index).pin) (hdelivery : b'.engine.delivery = [])
    (hdraining : b'.engine.draining = false) (hpinChannel : b'.pinChannel = b.pinChannel)
    (hchannels : b'.channels = Function.update b.channels index c)
    (hengine : b'.engine.channels = Function.update b.engine.channels index s)
    (hpins : b'.pins = Function.update b.pins ((b.channels index).pin : ℤ) (some (.carrier signal)))
    (hshows : Shows s c (some (.carrier signal))) : Agrees soc b' := by
  refine h.change index hdelivery hdraining ?_ ?_ ?_ ?_ ?_
  · rw [hchannels, hpinChannel]
    exact h.owned.update (hattached.trans hon.symm) fun _ => hpin
  · intro j hj
    rw [hengine, Function.update_of_ne hj]
  · intro j hj
    rw [hchannels, Function.update_of_ne hj]
  · intro j hj hother
    rw [hpins]
    refine Function.update_of_ne ?_ ..
    intro heq
    exact hj (h.owned.distinct hother hon (Int.natCast_inj.mp heq))
  · rw [hengine, hchannels, hpins, Function.update_self, Function.update_self, hpin,
      Function.update_self]
    exact hshows

/-- The deadline of a fade puts the pin to the target. -/
theorem Agrees.deadline (h : Agrees soc b) (index generation : ℕ) :
    Agrees soc (b.deadline index generation) := by
  unfold Board.deadline Engine.deadline
  dsimp only
  by_cases hfire : (b.engine.channels index).generation = generation ∧
      (b.engine.channels index).state = .armed
  · obtain ⟨rfl, harmed⟩ := hfire
    obtain ⟨hon, hat, hfading⟩ := h.armed harmed
    simp only [harmed, and_self, if_true, Engine.enqueue, Engine.setChannel, h.draining, h.delivery,
      Bool.not_false, List.nil_append, Board.drain, Board.deliver, Function.update_self,
      Board.write, Bool.false_eq_true, if_false, Engine.finalize, Function.update_idem, hat]
    refine h.fade (c := b.channels index) hon hon rfl rfl rfl rfl ?_ rfl rfl ?_
    · exact (Function.update_eq_self index b.channels).symm
    · exact fun _ hfrequency =>
        ⟨(hfading hfrequency).target, reads_endpoint (hfading hfrequency)⟩
  · rw [if_neg hfire]
    exact h

/-- A record that is not published. -/
theorem Agrees.record (h : Agrees soc b) {index : ℕ} {c : Channel}
    (hattached : c.attached = (b.channels index).attached)
    (hpin : c.pin = (b.channels index).pin)
    (hshows : Shows (b.engine.channels index) c (b.pins (b.channels index).pin)) :
    Agrees soc (b.setChannel index c) := by
  refine h.change index h.delivery h.draining ?_ (fun _ _ => rfl) ?_ (fun _ _ _ => rfl) ?_
  · exact h.owned.update hattached fun _ => hpin
  · intro j hj
    exact Function.update_of_ne hj ..
  · unfold Board.setChannel
    dsimp only
    rw [Function.update_self, hpin]
    exact hshows

/-- What a reading does not look at. -/
theorem Shows.congr {s : FadeEngine.Channel} {c c' : Channel} {pin : Option PinSignal}
    (h : Shows s c pin) (hattached : c'.attached = c.attached) (hpin : c'.pin = c.pin)
    (hresolution : c'.resolution = c.resolution) (hfrequency : c'.frequency = c.frequency)
    (hinverted : c'.inverted = c.inverted)
    (hduty : c.frequency ≠ 0 →
      mappedDuty c.resolution c'.duty = mappedDuty c.resolution c.duty) : Shows s c' pin := by
  have hreads : ∀ duty, Reads c pin duty → Reads c' pin duty :=
    fun duty hreads => hreads.congr hresolution hinverted
  unfold Shows at h ⊢
  rw [hattached, hpin, hfrequency, hresolution]
  cases hstate : s.state with
  | queued =>
    rw [hstate] at h
    exact h
  | armed =>
    rw [hstate] at h
    obtain ⟨hon, hat, hfade⟩ := h
    refine ⟨hon, hat, ?_⟩
    intro hne
    obtain ⟨hfading, hshown⟩ := hfade hne
    exact ⟨⟨hfading.resolution.trans hresolution.symm, hfading.inverted.trans hinverted.symm,
      by rw [hresolution]; exact hfading.target⟩, hreads _ hshown⟩
  | pending =>
    rw [hstate] at h
    intro hon hne
    exact ⟨(h hon hne).1, hreads _ (h hon hne).2⟩
  | idle =>
    rw [hstate] at h
    intro hon hne
    rw [hduty hne]
    exact hreads _ (h hon hne)
  | cancelled =>
    rw [hstate] at h
    intro hon hne
    rw [hduty hne]
    exact hreads _ (h hon hne)

theorem Agrees.callbackReturns (h : Agrees soc b) (index : ℕ) :
    Agrees soc (b.callbackReturns index) :=
  h.record rfl rfl ((h.shows index).congr rfl rfl rfl rfl rfl fun _ => rfl)

/-- A completion that has been taken: the duty of the channel becomes what its pin shows. -/
theorem Agrees.finishFade (h : Agrees soc b) (index : ℕ) : Agrees soc (b.finishFade index) := by
  unfold Board.finishFade Engine.takeCompletion
  dsimp only
  by_cases hpending : index < kChannels ∧ (b.engine.channels index).state = .pending
  · rw [if_pos hpending]
    have hshows := h.shows index
    unfold Shows at hshows
    rw [hpending.2] at hshows
    dsimp only
    by_cases hon : (b.channels index).attached = true
    · rw [if_neg (by simpa using hon)]
      refine h.change index h.delivery h.draining ?_ ?_ ?_ (fun _ _ _ => rfl) ?_
      · exact h.owned.update rfl fun _ => rfl
      · intro j hj
        exact Function.update_of_ne hj ..
      · intro j hj
        exact Function.update_of_ne hj ..
      · simp only [Board.setChannel, Engine.setChannel, Function.update_self, Shows]
        intro _ hfrequency
        obtain ⟨hsettled, hreads⟩ := hshows hon hfrequency
        rw [hsettled]
        exact hreads.congr rfl rfl
    · have hfree : (b.channels index).attached = false := Bool.not_eq_true _ ▸ hon
      rw [if_pos hfree]
      refine h.change index h.delivery h.draining h.owned ?_ (fun _ _ => rfl) (fun _ _ _ => rfl) ?_
      · intro j hj
        exact Function.update_of_ne hj ..
      · simp only [Engine.setChannel, Function.update_self]
        exact shows_free nofun nofun hfree
  · rw [if_neg hpending]
    exact h

theorem Agrees.ensure (h : Agrees soc b) (ensured : Bool) :
    Agrees soc (b.ensureFadeInterrupt ensured).2 := by
  unfold Board.ensureFadeInterrupt
  split
  · exact h
  · split
    · exact ⟨h.delivery, h.draining, h.owned, h.shows⟩
    · exact h

theorem ensure_ready (ensured : Bool) :
    (b.ensureFadeInterrupt ensured).1 = (b.fadeInterrupt || ensured) := by
  unfold Board.ensureFadeInterrupt
  cases b.fadeInterrupt with
  | true => rfl
  | false => cases ensured <;> rfl

theorem ensure_channels (ensured : Bool) :
    (b.ensureFadeInterrupt ensured).2.channels = b.channels ∧
      (b.ensureFadeInterrupt ensured).2.engine.channels = b.engine.channels := by
  unfold Board.ensureFadeInterrupt
  split
  · exact ⟨rfl, rfl⟩
  · split
    · exact ⟨rfl, rfl⟩
    · exact ⟨rfl, rfl⟩

/-- The products of a fade of an `int` of milliseconds fit 64 bits. -/
theorem request_narrow {index : ℕ} {c : FadeCall} (hint : c.durationMs ≤ intMax)
    (haccepted : (b.request index c).accepted c.nowUs = true) : (b.request index c).Narrow := by
  have hresolution : (b.request index c).resolution ≤ 20 := by
    simp only [Request.accepted, Bool.and_eq_true, Bool.not_eq_true', Bool.or_eq_false_iff,
      decide_eq_false_iff_not] at haccepted
    omega
  have hperiod : period (b.request index c).resolution ≤ 2 ^ 20 :=
    Nat.pow_le_pow_right (by decide) hresolution
  have hstart : (b.request index c).startDuty ≤ period (b.request index c).resolution :=
    mappedDuty_le _ _
  have htarget : (b.request index c).targetDuty ≤ period (b.request index c).resolution :=
    mappedDuty_le _ _
  have hdistance : (b.request index c).distance ≤ 2 ^ 20 := by
    unfold Request.distance
    omega
  have hduration : (b.request index c).durationUs ≤ 2 ^ 31 * 1000 := by
    change c.durationMs.toNat * 1000 ≤ _
    unfold intMax at hint
    omega
  exact (Nat.mul_le_mul hdistance hduration).trans (by decide)

/-- A fade starts, or leaves the duty as it is. -/
theorem Agrees.startRequest (h : Agrees soc b) {index : ℕ} {c : FadeCall} {alarm : ℕ}
    {callback : Option Function} {arg : Argument} (hon : (b.channels index).attached = true)
    (hactive : b.fadeActive index = false) (hint : c.durationMs ≤ intMax)
    (hok : (b.channels index).frequency ≠ 0 → (b.request index c).accepted c.nowUs = true ∨
      mappedDuty (b.channels index).resolution (b.request index c).startDuty =
        mappedDuty (b.channels index).resolution (b.channels index).duty) :
    Agrees soc (b.startRequest index c alarm callback arg).2 := by
  have hstate := fadeActive_false h hon hactive
  by_cases haccepted : (b.request index c).accepted c.nowUs = true
  · have hsettled := mappedDuty_idem (b.channels index).resolution c.targetDuty
    have hfading : ∀ state : Channel, state.resolution = (b.channels index).resolution →
        state.inverted = (b.channels index).inverted → Fading (b.request index c) state :=
      fun state hresolution hinverted =>
        ⟨hresolution.symm, hinverted.symm, by rw [hresolution]; exact hsettled⟩
    unfold Board.startRequest
    dsimp only
    unfold Board.startEngine
    rw [if_pos haccepted]
    have hchannel : (b.request index c).channel = index := rfl
    have hpin : (b.request index c).pin = (b.channels index).pin := rfl
    unfold Engine.start
    simp only [hchannel, Board.setChannel]
    rw [if_pos hstate]
    cases himmediate : (b.request index c).immediate with
    | true =>
      simp only [if_true, Option.map_some, Engine.enqueue, Engine.setChannel, h.draining, h.delivery,
        Bool.not_false, List.nil_append, Board.drain, Board.deliver, Function.update_self,
        Bool.false_eq_true, if_false, Engine.finalize, and_self, Function.update_idem, Board.write,
        hpin]
      refine h.fade hon ?_ ?_ rfl rfl rfl rfl rfl rfl ?_
      · exact hon
      · rfl
      · intro _ _
        exact ⟨hsettled, reads_endpoint (hfading _ rfl rfl)⟩
    | false =>
      simp only [Bool.false_eq_true, if_false, Option.map_some, Engine.enqueue, Engine.setChannel,
        h.draining, h.delivery, Bool.not_false, List.nil_append, if_true, Engine.storeAlarm,
        Function.update_self, Function.update_idem, Board.drain, Board.deliver, Board.write, hpin]
      refine h.fade hon ?_ ?_ rfl rfl rfl rfl rfl rfl ?_
      · exact hon
      · rfl
      · refine ⟨hon, rfl, ?_⟩
        intro _
        have hduration : 0 < (b.request index c).durationUs := by
          simp only [Request.immediate, Bool.or_eq_false_iff, decide_eq_false_iff_not] at himmediate
          omega
        exact ⟨hfading _ rfl rfl, reads_fade (hfading _ rfl rfl) hduration
          (request_narrow hint haccepted)⟩
  · have hnone : ∀ state, (b.setChannel index state).startEngine (b.request index c) c.nowUs alarm =
        none := by
      intro state
      unfold Board.startEngine
      rw [if_neg haccepted]
    unfold Board.startRequest
    dsimp only
    rw [hnone]
    refine h.record rfl rfl ((h.shows index).congr rfl rfl rfl rfl rfl ?_)
    intro hfrequency
    exact (hok hfrequency).resolve_left haccepted

theorem Agrees.startFade (h : Agrees soc b) {c : FadeCall} {alarm : ℕ}
    {callback : Option Function} {arg : Argument} (hint : c.durationMs ≤ intMax)
    (hok : Startable soc b c) : Agrees soc (b.startFade soc c alarm callback arg).2 := by
  unfold Board.startFade
  split
  · exact h
  · cases hpin : b.forPin soc c.pin with
    | none => exact h
    | some index =>
      dsimp only
      by_cases hactive : b.fadeActive index = true
      · rw [if_pos hactive]
        exact h
      · rw [if_neg hactive]
        obtain ⟨hchannels, hengine⟩ := ensure_channels (b := b) c.ensured
        have hready := h.ensure c.ensured
        by_cases hensured : (b.ensureFadeInterrupt c.ensured).1 = true
        · rw [if_pos hensured]
          have hrequest : (b.ensureFadeInterrupt c.ensured).2.request index c = b.request index c := by
            unfold Board.request
            rw [hchannels]
          have hgate : (b.ensureFadeInterrupt c.ensured).2.fadeActive index = b.fadeActive index := by
            unfold Board.fadeActive Engine.snapshot
            rw [hengine]
          refine hready.startRequest ?_ ?_ hint ?_
          · rw [hchannels]
            exact (h.forPin hpin).1
          · rw [hgate]
            exact Bool.not_eq_true _ ▸ hactive
          · rw [hchannels, hrequest]
            exact hok index hpin (Bool.not_eq_true _ ▸ hactive) hensured
        · rw [if_neg hensured]
          exact hready

theorem Agrees.ledcFadeWithInterrupt (h : Agrees soc b) {c : FadeCall} {alarm f : ℕ}
    (hint : c.durationMs ≤ intMax) (hok : Startable soc b c) :
    Agrees soc (b.ledcFadeWithInterrupt soc c alarm f).2 := by
  unfold Board.ledcFadeWithInterrupt
  cases hpin : b.forPin soc c.pin with
  | none => exact h
  | some index =>
    dsimp only
    split
    · exact h
    · have hrecord := h.record (c := { b.channels index with noArgumentCallback := some f }) rfl rfl
        ((h.shows index).congr rfl rfl rfl rfl rfl fun _ => rfl)
      refine hrecord.startFade hint ?_
      intro index' hpin' hactive hensured hfrequency
      obtain rfl : index = index' := Option.some.inj (hpin.symm.trans hpin')
      have hrequest : (b.setChannel index
          { b.channels index with noArgumentCallback := some f }).request index c =
            b.request index c := by
        unfold Board.request Board.setChannel
        simp
      rw [hrequest]
      unfold Board.setChannel at hfrequency ⊢
      dsimp only at hfrequency ⊢
      rw [Function.update_self] at hfrequency ⊢
      refine hok index hpin hactive ?_ hfrequency
      rw [ensure_ready] at hensured ⊢
      exact hensured

end Fades

theorem happen_agrees (soc : Soc) : PreservesWhen (happen soc) (Orderly soc) (Agrees soc) := by
  intro b e b' hok hstep h
  cases e with
  | attachChannel pin frequency resolution index claimed nowUs =>
    obtain rfl := Option.some.inj hstep
    exact h.ledcAttachChannel hok
  | attach pin frequency resolution claimed nowUs =>
    obtain rfl := Option.some.inj hstep
    exact h.ledcAttach hok
  | detach pin nowUs =>
    obtain rfl := Option.some.inj hstep
    exact h.ledcDetach pin nowUs
  | write pin duty =>
    obtain rfl := Option.some.inj hstep
    exact h.ledcWrite pin duty
  | writeChannel index duty =>
    obtain rfl := Option.some.inj hstep
    exact h.ledcWriteChannel index duty
  | writeTone pin frequency =>
    obtain rfl := Option.some.inj hstep
    exact h.ledcWriteTone hok
  | changeFrequency pin frequency resolution nowUs =>
    obtain rfl := Option.some.inj hstep
    exact h.ledcChangeFrequency pin frequency resolution nowUs
  | outputInvert pin inverted =>
    obtain rfl := Option.some.inj hstep
    exact h.ledcOutputInvert hok
  | fade c alarm =>
    simp only [happen, Option.ite_none_right_eq_some] at hstep
    obtain ⟨hint, hstep⟩ := hstep
    obtain rfl := Option.some.inj hstep
    exact h.startFade hint hok
  | fadeWithInterrupt c alarm callback =>
    simp only [happen, Option.ite_none_right_eq_some] at hstep
    obtain ⟨hint, hstep⟩ := hstep
    cases callback with
    | none =>
      obtain rfl := Option.some.inj hstep
      exact h.startFade hint hok
    | some f =>
      obtain rfl := Option.some.inj hstep
      exact h.ledcFadeWithInterrupt hint hok
  | fadeWithInterruptArg c alarm callback arg =>
    simp only [happen, Option.ite_none_right_eq_some] at hstep
    obtain ⟨hint, hstep⟩ := hstep
    obtain rfl := Option.some.inj hstep
    exact h.startFade hint hok
  | deadline index generation =>
    obtain rfl := Option.some.inj hstep
    exact h.deadline index generation
  | finishFade index =>
    obtain rfl := Option.some.inj hstep
    exact h.finishFade index
  | callbackReturns index =>
    obtain rfl := Option.some.inj hstep
    exact h.callbackReturns index

/-- The reading of an attached channel is what its pin carries. -/
theorem Agrees.ledcRead {soc : Soc} {b : Board} (h : Agrees soc b) {index : ℕ}
    (hon : (b.channels index).attached = true) (hfrequency : (b.channels index).frequency ≠ 0) :
    Reads (b.channels index) (b.pins (b.channels index).pin)
      fun uptimeUs => b.ledcRead soc (b.channels index).pin uptimeUs := by
  have hindex := (h.owned.index_lt index hon).trans_le soc.channels_le
  have hpin : b.forPin soc (b.channels index).pin = some index :=
    (forPin_of_used (h.owned.pin_lt index hon)).trans (h.owned.owner index hon)
  have hshows := h.shows index
  unfold Shows at hshows
  unfold Board.ledcRead
  simp only [hpin, Engine.snapshot, if_neg (Nat.not_le.mpr hindex)]
  cases hstate : (b.engine.channels index).state with
  | queued => exact absurd hstate (h.not_queued index)
  | armed =>
    rw [hstate] at hshows
    exact (hshows.2.2 hfrequency).2
  | pending =>
    rw [hstate] at hshows
    exact (hshows hon hfrequency).2
  | idle =>
    rw [hstate] at hshows
    exact hshows hon hfrequency
  | cancelled =>
    rw [hstate] at hshows
    exact hshows hon hfrequency

def smallSoc : Soc where
  pins := 8
  channels := 3
  timerBitWidth := 20
  isOutputPin := fun pin => decide (pin < 6)
  output_lt := by
    intro pin hpin
    have := of_decide_eq_true hpin
    omega
  channels_le := by decide

/-- A fade from 200 ticks to none in two milliseconds on an inverted pin. -/
def fadeDown : List Happening :=
  [.attach 4 1000 8 true 0, .outputInvert 4 true, .fade ⟨4, 200, 0, 2, true, 0⟩ 1]

theorem fadeDown_orderly : Meets (happen smallSoc) (Orderly smallSoc) Board.initial fadeDown := by
  refine Meets.cons (fun _ _ _ _ => nofun) rfl (Meets.cons ?_ rfl (Meets.cons ?_ rfl trivial))
  · intro index hindex _
    obtain rfl : 0 = index := Option.some.inj hindex
    rfl
  · intro index hindex _ _ _
    obtain rfl : 0 = index := Option.some.inj hindex
    exact Or.inl (by decide)

/-- What is read from pin 4 behind some calls, and the ticks that the pin carries. -/
def readings (hs : List Happening) (uptimeUs : ℤ) : Option (ℕ × ℕ × Option ℤ) :=
  (run (happen smallSoc) Board.initial hs).map fun b =>
    (b.engine.delivery.length, b.ledcRead smallSoc 4 uptimeUs,
      (b.pins 4).map (PinSignal.ticks 256 (b.channels 0).inverted uptimeUs))

end RooTesting.LedcReadings
