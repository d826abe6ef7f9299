import RooTesting.ArduinoLedc
import RooTesting.Periman

/-! # Who owns the pins of the LEDC channels

The channel of a pin, the pin of a channel and the assignment of the peripheral manager are three
tables of one relation. The calls of the driver keep them together; a peripheral that takes a pin
of the driver's changes one of them only, since the driver registers no callback for its bus. -/
namespace RooTesting.LedcOwnership
open Transition Periman ArduinoLedc

structure Board extends Soc where
  isValidPin : ℕ → Bool
  valid_of_output : ∀ pin, isOutputPin pin = true → isValidPin pin = true

/-- The tables, and a record of what the driver wrote to pins: the pin with its assignment at
that time. -/
structure Tables where
  channels : ℕ → Channel
  pinChannel : ℕ → Option ℕ
  periman : Manager
  driven : List (ℕ × PinAssignment)

def Tables.initial : Tables := ⟨fun _ => {}, fun _ => none, .initial, []⟩

namespace Tables

variable (b : Board) (s : Tables)

def assignment (pin : ℕ) : PinAssignment := s.periman.pinAssignments pin

def drive (pin : ℕ) : Tables := { s with driven := (pin, s.assignment pin) :: s.driven }

def setChannel (index : ℕ) (c : Channel) : Tables :=
  { s with channels := Function.update s.channels index c }

def setPinChannel (pin : ℕ) (index : Option ℕ) : Tables :=
  { s with pinChannel := Function.update s.pinChannel pin index }

def clearPinBus (pin : ℕ) : Tables :=
  { s with periman := (perimanClearPinBus b.isValidPin s.periman pin).2 }

def publish (index : ℕ) : Tables := s.drive (s.channels index).pin

def forPin (pin : ℕ) : Option ℕ := if pin < b.pins then s.pinChannel pin else none

def ledcDetach (pin : ℕ) : Bool × Tables :=
  match s.forPin b pin with
  | none => (false, s)
  | some index =>
    (true, (((s.drive pin).setChannel index {}).setPinChannel pin none).clearPinBus b pin)

/-- The part of `ledcAttachChannel` that takes the channel away from the pin it was on. -/
def evict (index : ℕ) : Tables :=
  let state := s.channels index
  if state.attached ∧ state.pin < b.pins then
    ((s.drive state.pin).setPinChannel state.pin none).clearPinBus b state.pin
  else s

/-- The part of `ledcAttachChannel` that gives the channel to the pin. -/
def install (pin frequency resolution index : ℕ) (nowUs : ℤ) : Bool × Tables :=
  let state : Channel := {
    attached := true
    pin := pin
    resolution := resolution
    frequency := frequency
    carrierOriginUs := nowUs }
  let s := (s.setChannel index state).setPinChannel pin (some index)
  let claimed := perimanSetPinBus b.isValidPin s.periman pin .ledc (.ledc index) 0 index
  let s := { s with periman := claimed.2 }
  if claimed.1 then (true, s.publish index)
  else (false, (s.setChannel index {}).setPinChannel pin none)

def ledcAttachChannel (pin frequency resolution index : ℕ) (nowUs : ℤ) : Bool × Tables :=
  if b.isOutputPin pin = false ∨ b.channels ≤ index ∨ resolution = 0 ∨
      b.timerBitWidth < resolution then (false, s)
  else
    let s := if s.pinChannel pin ≠ none then (s.ledcDetach b pin).2 else s
    (s.evict b index).install b pin frequency resolution index nowUs

def ledcAttach (pin frequency resolution : ℕ) (nowUs : ℤ) : Bool × Tables :=
  match (List.range b.channels).find? fun index => !(s.channels index).attached with
  | none => (false, s)
  | some index => s.ledcAttachChannel b pin frequency resolution index nowUs

/-- A call that changes the channel of a pin and publishes it. -/
def republish (pin : ℕ) (refused : Bool) (change : Channel → Channel) : Bool × Tables :=
  match s.forPin b pin with
  | none => (false, s)
  | some index =>
    if refused then (false, s)
    else (true, (s.setChannel index (change (s.channels index))).publish index)

/-- `fading` is `FadeActive` of the channel. -/
def ledcWrite (pin duty : ℕ) (fading : Bool) : Bool × Tables :=
  s.republish b pin fading fun c => { c with duty := duty }

def ledcWriteChannel (index duty : ℕ) (fading : Bool) : Bool × Tables :=
  if b.channels ≤ index ∨ !(s.channels index).attached ∨ fading then (false, s)
  else (true, (s.setChannel index { s.channels index with duty := duty }).publish index)

def ledcWriteTone (pin frequency : ℕ) : Bool × Tables :=
  s.republish b pin false fun c =>
    { c with frequency := frequency, duty := if frequency ≠ 0 then 2 ^ (c.resolution - 1) else 0 }

def ledcChangeFrequency (pin frequency resolution : ℕ) (fading : Bool) (nowUs : ℤ) :
    Bool × Tables :=
  s.republish b pin (resolution = 0 || decide (b.timerBitWidth < resolution) || fading) fun c =>
    { c with frequency := frequency, resolution := resolution, carrierOriginUs := nowUs }

def ledcOutputInvert (pin : ℕ) (inverted : Bool) : Bool × Tables :=
  s.republish b pin false fun c => { c with inverted := inverted }

/-- `ledcFade` and its relatives up to the engine's first signal. `refused` covers a negative
duration, a running fade, an interrupt that could not be allocated and a refusal of the engine.
The duty and the callbacks are those that the call leaves in the channel. -/
def ledcFade (pin duty : ℕ) (refused : Bool) (callback : Option Function) (arg : Argument)
    (noArgument : Option ℕ) : Bool × Tables :=
  match s.forPin b pin with
  | none => (false, s)
  | some index =>
    let state := s.channels index
    let s := s.setChannel index { state with
      duty := duty
      callback := callback
      callbackArg := arg
      noArgumentCallback := noArgument }
    if refused then (false, s) else (true, s.publish index)

end Tables

inductive Call where
  | attachChannel (pin frequency resolution index : ℕ) (nowUs : ℤ)
  | attach (pin frequency resolution : ℕ) (nowUs : ℤ)
  | detach (pin : ℕ)
  | write (pin duty : ℕ) (fading : Bool)
  | writeChannel (index duty : ℕ) (fading : Bool)
  | writeTone (pin frequency : ℕ)
  | changeFrequency (pin frequency resolution : ℕ) (fading : Bool) (nowUs : ℤ)
  | outputInvert (pin : ℕ) (inverted : Bool)
  | fade (pin duty : ℕ) (refused : Bool) (callback : Option Function) (arg : Argument)
      (noArgument : Option ℕ)

def Tables.call (b : Board) (s : Tables) : Call → Bool × Tables
  | .attachChannel pin frequency resolution index nowUs =>
    s.ledcAttachChannel b pin frequency resolution index nowUs
  | .attach pin frequency resolution nowUs => s.ledcAttach b pin frequency resolution nowUs
  | .detach pin => s.ledcDetach b pin
  | .write pin duty fading => s.ledcWrite b pin duty fading
  | .writeChannel index duty fading => s.ledcWriteChannel b index duty fading
  | .writeTone pin frequency => s.ledcWriteTone b pin frequency
  | .changeFrequency pin frequency resolution fading nowUs =>
    s.ledcChangeFrequency b pin frequency resolution fading nowUs
  | .outputInvert pin inverted => s.ledcOutputInvert b pin inverted
  | .fade pin duty refused callback arg noArgument =>
    s.ledcFade b pin duty refused callback arg noArgument

/-- A call of the driver, or another peripheral at work with its own types of bus. -/
inductive Action where
  | ledc (c : Call)
  | setPinBus (pin : ℕ) (type : BusType) (bus : Bus) (busNumber busChannel : ℤ)
  | setBusDeinit (type : BusType) (f : Option (Bus → Bool))

def step (b : Board) (s : Tables) : Action → Option Tables
  | .ledc c => some (s.call b c).2
  | .setPinBus pin type bus busNumber busChannel =>
    if type = .ledc then none
    else some { s with
      periman := (perimanSetPinBus b.isValidPin s.periman pin type bus busNumber busChannel).2 }
  | .setBusDeinit type f =>
    if type = .ledc then none else some { s with periman := (perimanSetBusDeinit s.periman type f).2 }

/-- The three tables agree, and the driver has written to its own pins only. -/
structure Owned (b : Board) (s : Tables) : Prop where
  attached : ∀ pin index, s.pinChannel pin = some index ↔
    index < b.channels ∧ (s.channels index).attached = true ∧ (s.channels index).pin = pin
  reported : ∀ pin index, s.pinChannel pin = some index ↔
    (s.assignment pin).type = .ledc ∧ (s.assignment pin).bus = .ledc index
  driven : ∀ d ∈ s.driven, d.2.type = .ledc ∧ ∃ index, d.2.bus = .ledc index

/-- No two pins are on one channel, and no pin is on two. -/
def Exclusive (b : Board) (s : Tables) : Prop :=
  (∀ pin pin' index, s.pinChannel pin = some index → s.pinChannel pin' = some index → pin = pin') ∧
  ∀ index index', index < b.channels → index' < b.channels →
    (s.channels index).attached = true → (s.channels index').attached = true →
    (s.channels index).pin = (s.channels index').pin → index = index'

theorem Owned.exclusive {b : Board} {s : Tables} (h : Owned b s) : Exclusive b s := by
  constructor
  · intro pin pin' index hpin hpin'
    exact ((h.attached pin index).mp hpin).2.2.symm.trans ((h.attached pin' index).mp hpin').2.2
  · intro index index' hindex hindex' hattached hattached' hpin
    have hown := (h.attached _ index).mpr ⟨hindex, hattached, rfl⟩
    have hown' := (h.attached _ index').mpr ⟨hindex', hattached', hpin.symm⟩
    exact Option.some.inj (hown.symm.trans hown')

/-- The pin that another peripheral asks for is not the driver's. -/
def Foreign (b : Board) (s : Tables) : Action → Prop
  | .setPinBus pin type _ _ _ => b.isValidPin pin = true → type ≠ .max → s.pinChannel pin = none
  | _ => True

/-- What holds whatever the other peripherals do. -/
structure Backed (b : Board) (s : Tables) : Prop where
  noCallback : s.periman.deinitCallbacks .ledc = none
  output : ∀ pin index, s.pinChannel pin = some index → b.isOutputPin pin = true

section Tables

variable {b : Board} {s s' : Tables} {pin index : ℕ}

theorem forPin_eq_some : s.forPin b pin = some index ↔ pin < b.pins ∧ s.pinChannel pin = some index := by
  rw [Tables.forPin]
  split
  · rename_i hlt
    exact ⟨fun h => ⟨hlt, h⟩, fun h => h.2⟩
  · rename_i hge
    exact ⟨nofun, fun h => absurd h.1 hge⟩

/-- The pin of a channel is given up. -/
theorem Owned.release (h : Owned b s) (hpin : s.pinChannel pin = some index) {c : Channel}
    (hc : c.attached = false) (hchannels : s'.channels = Function.update s.channels index c)
    (hpinChannel : s'.pinChannel = Function.update s.pinChannel pin none)
    (hperiman : s'.periman.pinAssignments =
      Function.update s.periman.pinAssignments pin .free)
    (hdriven : s'.driven = (pin, s.assignment pin) :: s.driven) : Owned b s' := by
  obtain ⟨hindex, hattached, hown⟩ := (h.attached pin index).mp hpin
  obtain ⟨htype, hbus⟩ := (h.reported pin index).mp hpin
  refine ⟨?_, ?_, ?_⟩
  · intro p i
    rw [hpinChannel, hchannels]
    by_cases hi : i = index
    · subst hi
      rw [Function.update_self, hc]
      refine iff_of_false ?_ (fun hright => by cases hright.2.1)
      by_cases hp : p = pin
      · rw [hp, Function.update_self]
        nofun
      · rw [Function.update_of_ne hp]
        intro hleft
        exact hp (((h.attached p i).mp hleft).2.2.symm.trans hown)
    · rw [Function.update_of_ne hi]
      by_cases hp : p = pin
      · subst hp
        rw [Function.update_self]
        refine iff_of_false nofun fun hright => ?_
        have hother := (h.attached p i).mpr hright
        exact hi (Option.some.inj (hother.symm.trans hpin))
      · rw [Function.update_of_ne hp]
        exact h.attached p i
  · intro p i
    rw [Tables.assignment, hpinChannel, hperiman]
    by_cases hp : p = pin
    · subst hp
      rw [Function.update_self, Function.update_self]
      exact iff_of_false nofun nofun
    · rw [Function.update_of_ne hp, Function.update_of_ne hp]
      exact h.reported p i
  · rw [hdriven]
    exact List.forall_mem_cons.mpr ⟨⟨htype, index, hbus⟩, h.driven⟩

/-- A free channel is given to a free pin. -/
theorem Owned.take (h : Owned b s) (hpin : s.pinChannel pin = none)
    (hfree : (s.channels index).attached = false) (hindex : index < b.channels) {c : Channel}
    {a : PinAssignment} (hc : c.attached = true) (hcpin : c.pin = pin) (htype : a.type = .ledc)
    (hbus : a.bus = .ledc index) (hchannels : s'.channels = Function.update s.channels index c)
    (hpinChannel : s'.pinChannel = Function.update s.pinChannel pin (some index))
    (hperiman : s'.periman.pinAssignments = Function.update s.periman.pinAssignments pin a)
    (hdriven : s'.driven = (pin, a) :: s.driven) : Owned b s' := by
  refine ⟨?_, ?_, ?_⟩
  · intro p i
    rw [hpinChannel, hchannels]
    by_cases hi : i = index
    · subst hi
      rw [Function.update_self]
      by_cases hp : p = pin
      · subst hp
        rw [Function.update_self]
        exact iff_of_true rfl ⟨hindex, hc, hcpin⟩
      · rw [Function.update_of_ne hp]
        refine iff_of_false (fun hleft => ?_) fun hright => hp (hright.2.2.symm.trans hcpin)
        cases hfree.symm.trans ((h.attached p i).mp hleft).2.1
    · rw [Function.update_of_ne hi]
      by_cases hp : p = pin
      · subst hp
        rw [Function.update_self]
        refine iff_of_false (fun hleft => hi (Option.some.inj hleft).symm) fun hright => ?_
        cases hpin.symm.trans ((h.attached p i).mpr hright)
      · rw [Function.update_of_ne hp]
        exact h.attached p i
  · intro p i
    rw [Tables.assignment, hpinChannel, hperiman]
    by_cases hp : p = pin
    · subst hp
      rw [Function.update_self, Function.update_self, htype, hbus]
      simp
    · rw [Function.update_of_ne hp, Function.update_of_ne hp]
      exact h.reported p i
  · rw [hdriven]
    exact List.forall_mem_cons.mpr ⟨⟨htype, index, hbus⟩, h.driven⟩

/-- A channel changes, and stays where it is. -/
theorem Owned.change (h : Owned b s) {c : Channel}
    (hc : c.attached = (s.channels index).attached)
    (hcpin : c.attached = true → c.pin = (s.channels index).pin)
    (hchannels : s'.channels = Function.update s.channels index c)
    (hpinChannel : s'.pinChannel = s.pinChannel) (hperiman : s'.periman = s.periman)
    (hdriven : ∀ d ∈ s'.driven, d ∈ s.driven ∨
      ∃ p i, s.pinChannel p = some i ∧ d = (p, s.assignment p)) : Owned b s' := by
  refine ⟨?_, ?_, ?_⟩
  · intro p i
    rw [hpinChannel, h.attached p i, hchannels]
    by_cases hi : i = index
    · subst hi
      rw [Function.update_self, ← hc]
      refine and_congr_right fun _ => and_congr_right fun hattached => ?_
      rw [hcpin hattached]
    · rw [Function.update_of_ne hi]
  · intro p i
    rw [Tables.assignment, hpinChannel, hperiman]
    exact h.reported p i
  · intro d hd
    obtain hd | ⟨p, i, hp, rfl⟩ := hdriven d hd
    · exact h.driven d hd
    · obtain ⟨htype, hbus⟩ := (h.reported p i).mp hp
      exact ⟨htype, i, hbus⟩

/-- The bus of the driver has no callback, so that its pins are let go. -/
theorem clearPinBus_owned (hb : Backed b s) (h : Owned b s) (hpin : s.pinChannel pin = some index) :
    (perimanClearPinBus b.isValidPin s.periman pin).2.pinAssignments =
      Function.update s.periman.pinAssignments pin .free := by
  have htype : (s.periman.pinAssignments pin).type = .ledc := ((h.reported pin index).mp hpin).1
  rw [perimanClearPinBus_eq (b.valid_of_output pin (hb.output pin index hpin))]
  rw [htype]
  exact hb.noCallback

theorem ledcDetach_owned (hb : Backed b s) (h : Owned b s) (pin : ℕ) :
    Owned b (s.ledcDetach b pin).2 ∧ (s.ledcDetach b pin).2.forPin b pin = none := by
  rw [Tables.ledcDetach]
  cases hpin : s.forPin b pin with
  | none => exact ⟨h, hpin⟩
  | some index =>
    obtain ⟨hlt, hown⟩ := forPin_eq_some.mp hpin
    constructor
    · exact h.release hown rfl rfl rfl (clearPinBus_owned (s := s) hb h hown) rfl
    · simp [Tables.forPin, Tables.clearPinBus, Tables.setPinChannel]

theorem Backed.keep (hb : Backed b s)
    (hperiman : s'.periman.deinitCallbacks .ledc = s.periman.deinitCallbacks .ledc)
    (hpins : ∀ p i, s'.pinChannel p = some i → s.pinChannel p = some i ∨ b.isOutputPin p = true) :
    Backed b s' := by
  refine ⟨hperiman.trans hb.noCallback, fun p i hp => ?_⟩
  obtain hp | hp := hpins p i hp
  · exact hb.output p i hp
  · exact hp

theorem ledcDetach_backed (hb : Backed b s) (pin : ℕ) : Backed b (s.ledcDetach b pin).2 := by
  rw [Tables.ledcDetach]
  cases s.forPin b pin with
  | none => exact hb
  | some index =>
    refine hb.keep (congrFun perimanClearPinBus_deinitCallbacks _) fun p i hp => .inl ?_
    change Function.update s.pinChannel pin none p = some i at hp
    rw [Function.update_apply] at hp
    split at hp
    · cases hp
    · exact hp

theorem evict_backed (hb : Backed b s) (index : ℕ) : Backed b (s.evict b index) := by
  rw [Tables.evict]
  split
  · refine hb.keep (congrFun perimanClearPinBus_deinitCallbacks _) fun p i hp => .inl ?_
    change Function.update s.pinChannel (s.channels index).pin none p = some i at hp
    rw [Function.update_apply] at hp
    split at hp
    · cases hp
    · exact hp
  · exact hb

/-- With the channel reset, which the rest of the call does, the pin that it was on is free. -/
theorem evict_owned (hb : Backed b s) (h : Owned b s) (index : ℕ) (hindex : index < b.channels) :
    Owned b ((s.evict b index).setChannel index {}) := by
  rw [Tables.evict]
  split
  · rename_i hattached
    have hown := (h.attached _ index).mpr ⟨hindex, hattached.1, rfl⟩
    exact h.release hown rfl rfl rfl (clearPinBus_owned (s := s) hb h hown) rfl
  · rename_i hfree
    refine h.change (c := {}) ?_ nofun rfl rfl rfl fun d hd => .inl hd
    cases hattached : (s.channels index).attached with
    | false => rfl
    | true =>
      have hown := (h.attached _ index).mpr ⟨hindex, hattached, rfl⟩
      exact absurd ⟨hattached, b.output_lt _ (hb.output _ _ hown)⟩ hfree

theorem evict_pinChannel (hpin : s.pinChannel pin = none) : (s.evict b index).pinChannel pin = none := by
  rw [Tables.evict]
  split
  · change Function.update s.pinChannel (s.channels index).pin none pin = none
    rw [Function.update_apply, hpin, ite_self]
  · exact hpin

/-- The installation of a channel that was reset before, or will be. -/
theorem install_owned (h : Owned b (s.setChannel index {})) (hpin : s.pinChannel pin = none)
    (hindex : index < b.channels) (frequency resolution : ℕ) (nowUs : ℤ) :
    Owned b (s.install b pin frequency resolution index nowUs).2 := by
  have hfree : ((s.setChannel index {}).channels index).attached = false := by
    change (Function.update s.channels index {} index).attached = false
    rw [Function.update_self]
  have hset := perimanSetPinBus_cases b.isValidPin s.periman pin .ledc (.ledc index) 0 index
  simp only [Tables.install]
  split
  · rename_i hclaimed
    obtain hset | ⟨hset, -, -⟩ := hset
    · cases (congrArg Prod.fst hset).symm.trans hclaimed
    have hassigned := congrArg (fun r => r.2.pinAssignments) hset
    let state : Channel := {
      attached := true
      pin := pin
      resolution := resolution
      frequency := frequency
      carrierOriginUs := nowUs }
    refine h.take (c := state) (a := ⟨.ledc, .ledc index, 0, index⟩) hpin hfree hindex rfl rfl rfl
      rfl ?_ rfl hassigned ?_
    · exact (Function.update_idem _ _ _).symm
    · have hown := congrFun hassigned pin
      simp only [Function.update_self] at hown
      have hstate : Function.update s.channels index state index = state := Function.update_self ..
      change ((Function.update s.channels index state index).pin,
        (perimanSetPinBus b.isValidPin s.periman pin .ledc (.ledc index) 0 index).2.pinAssignments
          (Function.update s.channels index state index).pin) :: s.driven = _
      rw [hstate]
      exact congrArg (fun a => (pin, a) :: s.driven) hown
  · rename_i hclaimed
    obtain hset | ⟨hset, -, -⟩ := hset
    swap
    · exact absurd (congrArg Prod.fst hset) hclaimed
    refine h.change (c := {}) (by rw [hfree]) nofun ?_ ?_ (congrArg Prod.snd hset)
      fun d hd => .inl hd
    · change Function.update (Function.update s.channels index _) index {} =
        Function.update (Function.update s.channels index _) index {}
      rw [Function.update_idem, Function.update_idem]
    · change Function.update (Function.update s.pinChannel pin _) pin none = s.pinChannel
      rw [Function.update_idem, ← hpin]
      exact Function.update_eq_self ..

theorem install_backed (hb : Backed b s) (hpin : b.isOutputPin pin = true)
    (frequency resolution index : ℕ) (nowUs : ℤ) :
    Backed b (s.install b pin frequency resolution index nowUs).2 := by
  have hpins : ∀ (j : Option ℕ) (p i : ℕ), Function.update s.pinChannel pin j p = some i →
      s.pinChannel p = some i ∨ b.isOutputPin p = true := by
    intro j p i hp
    rw [Function.update_apply] at hp
    split at hp
    · rename_i heq
      exact .inr (heq ▸ hpin)
    · exact .inl hp
  simp only [Tables.install]
  split
  · exact hb.keep (congrFun perimanSetPinBus_deinitCallbacks _) (hpins (some index))
  · refine hb.keep (congrFun perimanSetPinBus_deinitCallbacks _) ?_
    intro p i hp
    change Function.update (Function.update s.pinChannel pin (some index)) pin none p = some i at hp
    rw [Function.update_idem] at hp
    exact hpins none p i hp

theorem ledcAttachChannel_owned (hb : Backed b s) (h : Owned b s)
    (pin frequency resolution index : ℕ) (nowUs : ℤ) :
    Owned b (s.ledcAttachChannel b pin frequency resolution index nowUs).2 := by
  rw [Tables.ledcAttachChannel]
  split
  · exact h
  · rename_i hchecks
    simp only [not_or, Bool.not_eq_false, Nat.not_le] at hchecks
    obtain ⟨houtput, hindex, -⟩ := hchecks
    have hlt := b.output_lt pin houtput
    dsimp only
    split
    · have hdetached := ledcDetach_backed hb pin
      obtain ⟨howned, hfree⟩ := ledcDetach_owned hb h pin
      have hpin : (s.ledcDetach b pin).2.pinChannel pin = none := by
        simpa [Tables.forPin, hlt] using hfree
      exact install_owned (evict_owned hdetached howned index hindex) (evict_pinChannel hpin) hindex
        frequency resolution nowUs
    · rename_i hpin
      rw [not_not] at hpin
      exact install_owned (evict_owned hb h index hindex) (evict_pinChannel hpin) hindex
        frequency resolution nowUs

theorem ledcAttachChannel_backed (hb : Backed b s) (pin frequency resolution index : ℕ)
    (nowUs : ℤ) : Backed b (s.ledcAttachChannel b pin frequency resolution index nowUs).2 := by
  rw [Tables.ledcAttachChannel]
  split
  · exact hb
  · rename_i hchecks
    simp only [not_or, Bool.not_eq_false] at hchecks
    apply install_backed _ hchecks.1
    apply evict_backed
    split
    · exact ledcDetach_backed hb pin
    · exact hb

/-- What the calls that publish a channel do: nothing, or a change of a channel that stays where
it is, with a signal on the pin of an attached one. -/
structure Republishes (b : Board) (s s' : Tables) : Prop where
  pinChannel : s'.pinChannel = s.pinChannel
  periman : s'.periman = s.periman
  channels : s'.channels = s.channels ∨ ∃ index c, c.attached = (s.channels index).attached ∧
    c.pin = (s.channels index).pin ∧ s'.channels = Function.update s.channels index c
  driven : s'.driven = s.driven ∨ ∃ index, index < b.channels ∧
    (s.channels index).attached = true ∧
    s'.driven = ((s.channels index).pin, s.assignment (s.channels index).pin) :: s.driven

theorem Republishes.refl : Republishes b s s := ⟨rfl, rfl, .inl rfl, .inl rfl⟩

theorem Republishes.owned (hr : Republishes b s s') (h : Owned b s) : Owned b s' := by
  have hdriven : ∀ d ∈ s'.driven, d ∈ s.driven ∨
      ∃ p i, s.pinChannel p = some i ∧ d = (p, s.assignment p) := by
    obtain hsame | ⟨index, hindex, hattached, hnew⟩ := hr.driven
    · exact fun d hd => .inl (hsame ▸ hd)
    · intro d hd
      rw [hnew, List.mem_cons] at hd
      obtain rfl | hd := hd
      · exact .inr ⟨_, index, (h.attached _ index).mpr ⟨hindex, hattached, rfl⟩, rfl⟩
      · exact .inl hd
  obtain hsame | ⟨index, c, hattached, hpin, hnew⟩ := hr.channels
  · have hfirst : (s.channels 0).attached = (s.channels 0).attached := rfl
    refine h.change hfirst (fun _ => rfl) ?_ hr.pinChannel hr.periman hdriven
    rw [hsame, Function.update_eq_self]
  · exact h.change hattached (fun _ => hpin) hnew hr.pinChannel hr.periman hdriven

theorem Republishes.backed (hr : Republishes b s s') (hb : Backed b s) : Backed b s' :=
  hb.keep (by rw [hr.periman]) fun p i hp => .inl (hr.pinChannel ▸ hp)

theorem publish_republishes {c : Channel} (hindex : index < b.channels)
    (hattached : (s.channels index).attached = true)
    (hc : c.attached = (s.channels index).attached) (hpin : c.pin = (s.channels index).pin) :
    Republishes b s ((s.setChannel index c).publish index) := by
  refine ⟨rfl, rfl, .inr ⟨index, c, hc, hpin, rfl⟩, .inr ⟨index, hindex, hattached, ?_⟩⟩
  have hchannel : Function.update s.channels index c index = c := Function.update_self ..
  change ((Function.update s.channels index c index).pin,
    s.assignment (Function.update s.channels index c index).pin) :: s.driven = _
  rw [hchannel, hpin]

/-- The channel of a pin is attached, so that what the call publishes is on a pin of its own. -/
theorem republish_republishes (h : Owned b s) (pin : ℕ) (refused : Bool)
    (change : Channel → Channel) (hchange : ∀ c, (change c).attached = c.attached ∧
      (change c).pin = c.pin) : Republishes b s (s.republish b pin refused change).2 := by
  rw [Tables.republish]
  cases hpin : s.forPin b pin with
  | none => exact .refl
  | some index =>
    dsimp only
    split
    · exact .refl
    · obtain ⟨hindex, hattached, -⟩ := (h.attached _ _).mp (forPin_eq_some.mp hpin).2
      exact publish_republishes hindex hattached (hchange _).1 (hchange _).2

theorem ledcWriteChannel_republishes (index duty : ℕ) (fading : Bool) :
    Republishes b s (s.ledcWriteChannel b index duty fading).2 := by
  rw [Tables.ledcWriteChannel]
  split
  · exact .refl
  · rename_i hchecks
    simp only [not_or, Nat.not_le, Bool.not_eq_eq_eq_not, Bool.not_true, Bool.not_eq_false] at hchecks
    exact publish_republishes hchecks.1 hchecks.2.1 rfl rfl

theorem ledcFade_republishes (h : Owned b s) (pin duty : ℕ) (refused : Bool)
    (callback : Option Function) (arg : Argument) (noArgument : Option ℕ) :
    Republishes b s (s.ledcFade b pin duty refused callback arg noArgument).2 := by
  rw [Tables.ledcFade]
  cases hpin : s.forPin b pin with
  | none => exact .refl
  | some index =>
    dsimp only
    split
    · exact ⟨rfl, rfl, .inr ⟨index, { s.channels index with
        duty := duty
        callback := callback
        callbackArg := arg
        noArgumentCallback := noArgument }, rfl, rfl, rfl⟩, .inl rfl⟩
    · obtain ⟨hindex, hattached, -⟩ := (h.attached _ _).mp (forPin_eq_some.mp hpin).2
      exact publish_republishes hindex hattached rfl rfl

/-- The calls of the driver keep its pins. -/
theorem call_owned (hb : Backed b s) (h : Owned b s) (c : Call) : Owned b (s.call b c).2 := by
  cases c with
  | attachChannel => exact ledcAttachChannel_owned hb h ..
  | attach pin frequency resolution nowUs =>
    simp only [Tables.call, Tables.ledcAttach]
    split
    · exact h
    · exact ledcAttachChannel_owned hb h ..
  | detach pin => exact (ledcDetach_owned hb h pin).1
  | write | writeTone | changeFrequency | outputInvert =>
    apply Republishes.owned _ h
    apply republish_republishes h
    exact fun _ => ⟨rfl, rfl⟩
  | writeChannel => exact (ledcWriteChannel_republishes ..).owned h
  | fade => exact (ledcFade_republishes h ..).owned h

theorem republish_backed (hb : Backed b s) (pin : ℕ) (refused : Bool)
    (change : Channel → Channel) : Backed b (s.republish b pin refused change).2 := by
  rw [Tables.republish]
  split
  · exact hb
  split
  · exact hb
  · exact ⟨hb.noCallback, hb.output⟩

theorem call_backed (hb : Backed b s) (c : Call) : Backed b (s.call b c).2 := by
  cases c with
  | attachChannel => exact ledcAttachChannel_backed hb ..
  | attach pin frequency resolution nowUs =>
    simp only [Tables.call, Tables.ledcAttach]
    split
    · exact hb
    · exact ledcAttachChannel_backed hb ..
  | detach pin => exact ledcDetach_backed hb pin
  | write | writeTone | changeFrequency | outputInvert => exact republish_backed hb ..
  | writeChannel => exact (ledcWriteChannel_republishes ..).backed hb
  | fade =>
    simp only [Tables.call, Tables.ledcFade]
    split
    · exact hb
    split
    · exact ⟨hb.noCallback, hb.output⟩
    · exact ⟨hb.noCallback, hb.output⟩

theorem setPinBus_backed (hb : Backed b s) (pin : ℕ) (type : BusType) (bus : Bus)
    (busNumber busChannel : ℤ) : Backed b { s with
      periman := (perimanSetPinBus b.isValidPin s.periman pin type bus busNumber busChannel).2 } :=
  hb.keep (congrFun perimanSetPinBus_deinitCallbacks _) fun _ _ hp => .inl hp

theorem step_backed : Preserves (step b) (Backed b) := by
  intro s a s' hstep hb
  cases a with
  | ledc c =>
    cases hstep
    exact call_backed hb c
  | setPinBus pin type bus busNumber busChannel =>
    simp only [step] at hstep
    split at hstep
    · cases hstep
    · cases hstep
      exact setPinBus_backed hb ..
  | setBusDeinit type f =>
    simp only [step] at hstep
    split at hstep
    · cases hstep
    · rename_i htype
      cases hstep
      refine hb.keep ?_ fun _ _ hp => .inl hp
      simp only [perimanSetBusDeinit]
      split
      · rfl
      · exact Function.update_of_ne (Ne.symm htype) ..

/-- Another peripheral leaves the driver's tables together exactly when it asks for a pin that is
not the driver's. -/
theorem setPinBus_owned (hb : Backed b s) (h : Owned b s) {type : BusType} (htype : type ≠ .ledc)
    (pin : ℕ) (bus : Bus) (busNumber busChannel : ℤ) :
    Owned b { s with
      periman := (perimanSetPinBus b.isValidPin s.periman pin type bus busNumber busChannel).2 } ↔
    Foreign b s (.setPinBus pin type bus busNumber busChannel) := by
  constructor
  · intro h' hvalid hmax
    by_contra hpin
    obtain ⟨index, hindex⟩ := Option.ne_none_iff_exists'.mp hpin
    have howner : (s.periman.pinAssignments pin).type = .ledc := ((h.reported pin index).mp hindex).1
    have hset := perimanSetPinBus_eq bus busNumber busChannel hvalid hmax
      (by rw [howner]; exact hb.noCallback)
    have hreported := ((h'.reported pin index).mp hindex).1
    simp only [Tables.assignment, hset, Function.update_self] at hreported
    exact htype hreported
  · intro hforeign
    obtain hset | ⟨hset, hvalid, hmax⟩ :=
      perimanSetPinBus_cases b.isValidPin s.periman pin type bus busNumber busChannel
    · rw [hset]
      exact ⟨h.attached, h.reported, h.driven⟩
    · have hpin := hforeign hvalid hmax
      rw [hset]
      refine ⟨h.attached, fun p i => ?_, h.driven⟩
      simp only [Tables.assignment]
      by_cases hp : p = pin
      · subst hp
        rw [Function.update_self]
        exact iff_of_false (by rw [hpin]; nofun) fun hright => htype hright.1
      · rw [Function.update_of_ne hp]
        exact h.reported p i

theorem step_owned {a : Action} (hb : Backed b s) (h : Owned b s) (hstep : step b s a = some s') :
    Owned b s' ↔ Foreign b s a := by
  cases a with
  | ledc c =>
    cases hstep
    exact iff_of_true (call_owned hb h c) trivial
  | setPinBus pin type bus busNumber busChannel =>
    simp only [step] at hstep
    split at hstep
    · cases hstep
    · rename_i htype
      cases hstep
      exact setPinBus_owned hb h htype ..
  | setBusDeinit type f =>
    simp only [step] at hstep
    split at hstep
    · cases hstep
    · cases hstep
      refine iff_of_true ⟨h.attached, fun p i => ?_, h.driven⟩ trivial
      rw [h.reported p i]
      simp only [Tables.assignment, perimanSetBusDeinit]
      split <;> rfl

end Tables

/-- The three tables agree all along a run, and the driver writes to its own pins, exactly when no
other peripheral asks for a pin that is the driver's. -/
theorem pins_owned (b : Board) (actions : List Action) {s : Tables}
    (hrun : run (step b) .initial actions = some s) :
    (∀ n s', run (step b) .initial (actions.take n) = some s' → Owned b s' ∧ Exclusive b s') ↔
      Meets (step b) (Foreign b) .initial actions := by
  have hstart : Owned b .initial := by
    refine ⟨fun pin index => ?_, fun pin index => ?_, nofun⟩
    · exact iff_of_false nofun fun h => by cases h.2.1
    · exact iff_of_false nofun fun h => by cases h.1
  rw [← always_iff_meets (step_backed (b := b))
    (fun s a s' _ hb h hstep => step_owned hb h hstep) hrun ⟨rfl, nofun⟩ hstart]
  constructor
  · exact fun h n s' hn => (h n s' hn).1
  · exact fun h n s' hn => ⟨h n s' hn, (h n s' hn).exclusive⟩

/-- A board with two channels and eight pins, all of them outputs. -/
def small : Board where
  pins := 8
  channels := 2
  timerBitWidth := 20
  isOutputPin := fun pin => pin < 8
  output_lt := fun _ h => of_decide_eq_true h
  channels_le := by decide
  isValidPin := fun pin => pin < 8
  valid_of_output := fun _ h => h

/-- The second channel moves from one pin to another, and another peripheral has a third pin. -/
def moves : List Action :=
  [.ledc (.attach 4 1000 8 0), .ledc (.attachChannel 5 1000 8 1 0),
    .setPinBus 6 (.other 0) .null 0 0, .ledc (.attachChannel 7 1000 8 1 0), .ledc (.write 7 3 false),
    .ledc (.detach 4)]

theorem pins_owned_moves : ∃ s, run (step small) .initial moves = some s ∧
    ∀ n s', run (step small) .initial (moves.take n) = some s' →
      Owned small s' ∧ Exclusive small s' := by
  have hcheck : check (step small) (fun s a => match a with
      | .setPinBus pin _ _ _ _ => s.pinChannel pin = none
      | _ => true) .initial moves = true := by decide +kernel
  obtain ⟨s, hs⟩ := Option.isSome_iff_exists.mp
    (show (run (step small) .initial moves).isSome = true by decide +kernel)
  refine ⟨s, hs, (pins_owned small moves hs).mpr ?_⟩
  refine Meets.of_check (I := fun _ => True) (fun _ _ _ _ _ _ => trivial) ?_ trivial hcheck
  intro s a _ htest
  cases a with
  | setPinBus => exact fun _ _ => of_decide_eq_true htest
  | _ => trivial

/-- Another peripheral takes a pin of the driver's, which still writes to it. -/
def takeover : List Action :=
  [.ledc (.attach 4 1000 8 0), .setPinBus 4 .uartTx (.uart 1) 1 (-1), .ledc (.write 4 3 false)]

theorem takeover_writes : ¬ ∀ (b : Board) (actions : List Action) (s : Tables),
    run (step b) .initial actions = some s → Owned b s := by
  intro h
  have hrun : (run (step small) .initial takeover).map (fun s => (s.driven.head?.map fun d => d.2.type)) =
      some (some .uartTx) := by decide +kernel
  obtain ⟨s, hs, hdriven⟩ := Option.map_eq_some_iff.mp hrun
  obtain ⟨d, hd, htype⟩ := Option.map_eq_some_iff.mp hdriven
  have hown := (h small takeover s hs).driven d (List.mem_of_head? hd)
  cases htype.symm.trans hown.1

end RooTesting.LedcOwnership
