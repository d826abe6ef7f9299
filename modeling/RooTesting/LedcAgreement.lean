import RooTesting.LedcDurations
import RooTesting.LedcErrors

/-! # The duty of the driver and the duty of the pin

Calls, deadlines and interrupts one after another. Between them the pin of every
configured channel carries the signal of its fade, or the steady signal of its duty; the
duty that the driver reports is then the duty of that signal. -/
namespace RooTesting.LedcDriver
open Transition
open FadeEngine (Engine Request Completion Delivery materialize)

inductive Happening where
  | call (m : Moment) (c : Call)
  | awaken (gate : ℕ)
  | deadline (index generation : ℕ)
  | interrupt

def Board.happen (b : Board) : Happening → Option Board
  | .call m c => some (b.perform m c).2
  | .awaken gate => b.awaken gate
  | .deadline index generation => some (b.deadline index generation)
  | .interrupt => some b.interrupt

def modeOf (index : ℕ) : ℕ := index / channelMax

/-- The fade of a channel fits the channel and its timer. -/
structure Fading (timer : TimerState) (c : ChannelState) (r : Request) : Prop where
  configured : c.configured = true
  valid : validOutput timer r.targetDuty c.hpoint = true
  pin : r.pin = c.config.gpioNum
  frequency : r.frequencyHz = timer.config.freqHz
  resolution : r.resolution = timer.config.dutyResolution
  origin : r.carrierOriginUs = timer.carrierOriginUs
  phase : r.pulseStartPhase = c.hpoint / (FadeEngine.period timer.config.dutyResolution : ℚ)
  inverted : r.inverted = c.config.outputInvert

/-- What the pin of a channel shows. -/
def Shows (b : Board) (index : ℕ) : Prop :=
  let c := b.driver.channels index
  let s := b.driver.engine.channels index
  let timer := b.driver.timerOf (modeOf index) c
  match s.state with
  | .idle | .cancelled => c.configured = true →
    b.pins c.config.gpioNum = some (b.driver.buildSignal (modeOf index) c)
  | .armed => Fading timer c s.request ∧ 0 < s.request.durationUs ∧
    b.pins c.config.gpioNum = some (s.signal false)
  | .pending => Fading timer c s.request ∧ s.duty = s.request.targetDuty ∧
    b.pins c.config.gpioNum = some (s.signal true)
  | .queued => False

structure Agrees (b : Board) : Prop where
  delivery : b.driver.engine.delivery = []
  draining : b.driver.engine.draining = false
  distinct : ∀ i j, (b.driver.channels i).configured = true →
    (b.driver.channels j).configured = true →
    (b.driver.channels i).config.gpioNum = (b.driver.channels j).config.gpioNum → i = j
  shows : ∀ index, Shows b index

/-- A channel without a fade. -/
def Driver.steady (d : Driver) (index : ℕ) : Prop :=
  (d.engine.channels index).state ≠ .armed ∧ (d.engine.channels index).state ≠ .pending

/-- Channels keep to pins of their own, nothing is reconfigured under a fade, and the
fade service stays while a fade runs. A call that the driver refuses may ask for anything. -/
def Orderly (b : Board) : Happening → Prop
  | .call _ (.timerConfig (some config) originUs) =>
    (b.driver.timerConfig (some config) originUs).1 = .ok → ∀ index,
      b.driver.usesTimer config.speedMode config.timerNum index = true → b.driver.steady index
  | .call _ (.channelConfig (some config)) => (b.driver.channelConfig (some config)).1 = .ok →
    b.driver.steady (fadeIndex config.speedMode config.channel) ∧
      (config.deconfigure = false → ∀ index, index ≠ fadeIndex config.speedMode config.channel →
        (b.driver.channels index).configured = true →
        (b.driver.channels index).config.gpioNum ≠ config.gpioNum)
  | .call _ .fadeFuncUninstall => b.driver.fadeInstalled = true →
    ∀ index, (b.driver.engine.channels index).state ≠ .armed
  | _ => True

/-- The output of a channel is the same. -/
structure SameOutput (c c' : ChannelState) : Prop where
  configured : c'.configured = c.configured
  config : c'.config = c.config
  duty : c'.duty = c.duty
  hpoint : c'.hpoint = c.hpoint

theorem SameOutput.refl (c : ChannelState) : SameOutput c c := ⟨rfl, rfl, rfl, rfl⟩

theorem SameOutput.trans {c c' c'' : ChannelState} (h : SameOutput c c')
    (h' : SameOutput c' c'') : SameOutput c c'' :=
  ⟨h'.configured.trans h.configured, h'.config.trans h.config, h'.duty.trans h.duty,
    h'.hpoint.trans h.hpoint⟩

section Frame

variable {b b' : Board}

theorem buildSignal_congr {d d' : Driver} {mode : ℕ} {c c' : ChannelState} (hc : SameOutput c c')
    (ht : d'.timerOf mode c' = d.timerOf mode c) : d'.buildSignal mode c' = d.buildSignal mode c := by
  simp only [Driver.buildSignal, ht, hc.configured, hc.config, hc.duty, hc.hpoint]

theorem Fading.congr {timer : TimerState} {c c' : ChannelState} {r : Request}
    (h : Fading timer c r) (hc : SameOutput c c') : Fading timer c' r where
  configured := hc.configured.trans h.configured
  valid := by rw [hc.hpoint]; exact h.valid
  pin := by rw [hc.config]; exact h.pin
  frequency := h.frequency
  resolution := h.resolution
  origin := h.origin
  phase := by rw [hc.hpoint]; exact h.phase
  inverted := by rw [hc.config]; exact h.inverted

/-- A step that leaves the output, the timer, the fade and the pin of a channel alone. -/
theorem Shows.congr {index : ℕ} (h : Shows b index)
    (hc : SameOutput (b.driver.channels index) (b'.driver.channels index))
    (ht : b'.driver.timerOf (modeOf index) (b'.driver.channels index) =
      b.driver.timerOf (modeOf index) (b.driver.channels index))
    (he : b'.driver.engine.channels index = b.driver.engine.channels index)
    (hp : (b.driver.channels index).configured = true →
      b'.pins (b.driver.channels index).config.gpioNum =
        b.pins (b.driver.channels index).config.gpioNum) : Shows b' index := by
  unfold Shows at h ⊢
  simp only [he, ht, hc.configured, hc.config, buildSignal_congr hc ht] at h ⊢
  cases hstate : (b.driver.engine.channels index).state <;> simp only [hstate] at h ⊢
  · intro hconfigured
    rw [hp hconfigured]
    exact h hconfigured
  · obtain ⟨hfading, hduration, hpin⟩ := h
    exact ⟨hfading.congr hc, hduration, by rw [hp hfading.configured]; exact hpin⟩
  · obtain ⟨hfading, hduty, hpin⟩ := h
    exact ⟨hfading.congr hc, hduty, by rw [hp hfading.configured]; exact hpin⟩
  · intro hconfigured
    rw [hp hconfigured]
    exact h hconfigured

theorem boardStart_agrees : Agrees boardStart where
  delivery := rfl
  draining := rfl
  distinct _ _ h := by simp [boardStart, start] at h
  shows index := by
    intro h
    simp [boardStart, start] at h

/-- A step in which no channel's output, timer, fade or pin changes. -/
theorem Agrees.congr (h : Agrees b) (hdelivery : b'.driver.engine.delivery = [])
    (hdraining : b'.driver.engine.draining = false)
    (hc : ∀ index, SameOutput (b.driver.channels index) (b'.driver.channels index))
    (ht : b'.driver.timers = b.driver.timers)
    (he : b'.driver.engine.channels = b.driver.engine.channels) (hp : b'.pins = b.pins) :
    Agrees b' where
  delivery := hdelivery
  draining := hdraining
  distinct i j hi hj hpin := by
    rw [(hc i).configured] at hi
    rw [(hc j).configured] at hj
    rw [(hc i).config, (hc j).config] at hpin
    exact h.distinct i j hi hj hpin
  shows index := by
    refine (h.shows index).congr (hc index) ?_ (by rw [he]) fun _ => by rw [hp]
    simp only [Driver.timerOf, ht, (hc index).config]

end Frame

section Publish

variable {b : Board}

theorem publish_pins_of_not {publications : List Publication} {pin : ℤ}
    (h : ∀ q ∈ publications, q.pin ≠ pin) : (b.publish publications).pins pin = b.pins pin := by
  induction publications generalizing b with
  | nil => rfl
  | cons p publications ih =>
    refine (ih fun q hq => h q (List.mem_cons_of_mem _ hq)).trans ?_
    exact Function.update_of_ne (Ne.symm (h p List.mem_cons_self)) ..

/-- Everything published to the pin is one signal, which is published or is there. -/
theorem publish_pins {publications : List Publication} {pin : ℤ} {signal : FadeEngine.VoltageSignal}
    (hall : ∀ q ∈ publications, q.pin = pin → q.signal = signal)
    (hsome : b.pins pin = some signal ∨ ∃ q ∈ publications, q.pin = pin) :
    (b.publish publications).pins pin = some signal := by
  induction publications generalizing b with
  | nil => simpa [Board.publish] using hsome
  | cons p publications ih =>
    have htail : ∀ q ∈ publications, q.pin = pin → q.signal = signal :=
      fun q hq => hall q (List.mem_cons_of_mem _ hq)
    by_cases hp : p.pin = pin
    · refine ih htail (Or.inl ?_)
      rw [hall p List.mem_cons_self hp, hp]
      exact Function.update_self ..
    · refine ih htail ?_
      rcases hsome with hpin | ⟨q, hq, hqpin⟩
      · exact Or.inl ((Function.update_of_ne (Ne.symm hp) ..).trans hpin)
      · rcases List.mem_cons.mp hq with rfl | hq
        · exact absurd hqpin hp
        · exact Or.inr ⟨q, hq, hqpin⟩

end Publish

section Calls

variable {b : Board}

theorem Agrees.setChannel (h : Agrees b) {index : ℕ} {c : ChannelState}
    (hc : SameOutput (b.driver.channels index) c) :
    Agrees { b with driver := b.driver.setChannel index c } := by
  refine h.congr h.delivery h.draining (fun j => ?_) rfl rfl rfl
  by_cases hj : j = index
  · subst hj
    simpa [Driver.setChannel] using hc
  · simpa [Driver.setChannel, Function.update_of_ne hj] using SameOutput.refl _

/-- A channel without a fade gets a new output, and publishes it. -/
theorem Agrees.rebind (h : Agrees b) {index : ℕ} {c : ChannelState}
    (hsteady : b.driver.steady index) (hfree : c.configured = true → ∀ j, j ≠ index →
      (b.driver.channels j).configured = true →
        (b.driver.channels j).config.gpioNum ≠ c.config.gpioNum)
    (silenced : List Publication) (hsilenced : ∀ q ∈ silenced,
      (b.driver.channels index).configured = true ∧
        q.pin = (b.driver.channels index).config.gpioNum ∧
        (c.configured = true → q.pin ≠ c.config.gpioNum)) :
    Agrees (Board.publish { b with driver := b.driver.setChannel index c }
      (silenced ++ (b.driver.setChannel index c).addPublication (modeOf index) c)) := by
  have hpins : ∀ q ∈ (b.driver.setChannel index c).addPublication (modeOf index) c,
      c.configured = true ∧ q = ⟨c.config.gpioNum,
        (b.driver.setChannel index c).buildSignal (modeOf index) c⟩ := by
    intro q hq
    unfold Driver.addPublication at hq
    split at hq
    · rename_i hconfigured
      exact ⟨hconfigured, List.mem_singleton.mp hq⟩
    · cases hq
  constructor
  · rw [publish_driver]
    exact h.delivery
  · rw [publish_driver]
    exact h.draining
  · intro i j hi hj hpin
    rw [publish_driver] at hi hj hpin
    simp only [Driver.setChannel] at hi hj hpin
    by_cases hii : i = index <;> by_cases hjj : j = index
    · rw [hii, hjj]
    · subst hii
      rw [Function.update_self] at hi hpin
      rw [Function.update_of_ne hjj] at hj hpin
      exact absurd hpin.symm (hfree hi j hjj hj)
    · subst hjj
      rw [Function.update_self] at hj hpin
      rw [Function.update_of_ne hii] at hi hpin
      exact absurd hpin (hfree hj i hii hi)
    · rw [Function.update_of_ne hii] at hi hpin
      rw [Function.update_of_ne hjj] at hj hpin
      exact h.distinct i j hi hj hpin
  · intro j
    by_cases hj : j = index
    · subst hj
      have hshow : c.configured = true →
          (Board.publish { b with driver := b.driver.setChannel j c }
            (silenced ++ (b.driver.setChannel j c).addPublication (modeOf j) c)).pins
            c.config.gpioNum = some ((b.driver.setChannel j c).buildSignal (modeOf j) c) := by
        intro hconfigured
        apply publish_pins
        · intro q hq hqpin
          rcases List.mem_append.mp hq with hq | hq
          · exact absurd hqpin ((hsilenced q hq).2.2 hconfigured)
          · rw [(hpins q hq).2]
        · right
          have hmem : ⟨c.config.gpioNum, (b.driver.setChannel j c).buildSignal (modeOf j) c⟩ ∈
              (b.driver.setChannel j c).addPublication (modeOf j) c := by
            simp [Driver.addPublication, hconfigured]
          exact ⟨_, List.mem_append_right _ hmem, rfl⟩
      unfold Shows
      simp only [publish_driver]
      have hchannel : (b.driver.setChannel j c).channels j = c := by
        simp [Driver.setChannel]
      rw [hchannel]
      have hengine : (b.driver.setChannel j c).engine = b.driver.engine := rfl
      rw [hengine]
      have hold := h.shows j
      unfold Shows at hold
      obtain ⟨harmed, hpending⟩ := hsteady
      cases hstate : (b.driver.engine.channels j).state <;> simp only [hstate] at hold ⊢
      · exact hshow
      · exact absurd hstate harmed
      · exact absurd hstate hpending
      · exact hshow
    · have hother : (b.driver.setChannel index c).channels j = b.driver.channels j := by
        simp [Driver.setChannel, Function.update_of_ne hj]
      refine (h.shows j).congr ?_ ?_ ?_ fun hconfigured => publish_pins_of_not fun q hq => ?_
      · rw [publish_driver, hother]
        exact SameOutput.refl _
      · rw [publish_driver, hother]
        rfl
      · rw [publish_driver]
        rfl
      · rcases List.mem_append.mp hq with hq | hq
        · obtain ⟨hon, hpin, -⟩ := hsilenced q hq
          intro heq
          exact hj (h.distinct j index hconfigured hon (heq.symm.trans hpin))
        · obtain ⟨hon, rfl⟩ := hpins q hq
          exact Ne.symm (hfree hon j hj hconfigured)

/-- What `ledc_timer_config` publishes for the channels of a timer. -/
def timerPublications (d : Driver) (mode timer : ℕ) : List Publication :=
  (List.range channelMax).flatMap fun channel =>
    if d.usesTimer mode timer (fadeIndex mode channel) then
      d.addPublication mode (d.channels (fadeIndex mode channel))
    else []

theorem modeOf_fadeIndex {mode channel : ℕ} (h : channel < channelMax) :
    modeOf (fadeIndex mode channel) = mode := by
  unfold modeOf fadeIndex
  unfold channelMax at h ⊢
  omega

theorem usesTimer_iff {d : Driver} {mode timer index : ℕ} :
    d.usesTimer mode timer index = true ↔ modeOf index = mode ∧
      (d.channels index).configured = true ∧ (d.channels index).config.timerSel = timer := by
  simp [Driver.usesTimer, modeOf, and_assoc]

theorem mem_timerPublications {d : Driver} {mode timer : ℕ} {q : Publication} :
    q ∈ timerPublications d mode timer ↔ ∃ index, d.usesTimer mode timer index = true ∧
      q = ⟨(d.channels index).config.gpioNum, d.buildSignal (modeOf index) (d.channels index)⟩ := by
  simp only [timerPublications, List.mem_flatMap, List.mem_range]
  constructor
  · rintro ⟨channel, hchannel, hq⟩
    split at hq
    · rename_i huses
      obtain ⟨hmode, hconfigured, htimer⟩ := usesTimer_iff.mp huses
      rw [Driver.addPublication, if_pos hconfigured] at hq
      refine ⟨fadeIndex mode channel, huses, ?_⟩
      rw [hmode]
      exact List.mem_singleton.mp hq
    · cases hq
  · rintro ⟨index, huses, rfl⟩
    obtain ⟨hmode, hconfigured, htimer⟩ := usesTimer_iff.mp huses
    have hindex : fadeIndex mode (index % channelMax) = index := by
      unfold modeOf channelMax at hmode
      unfold fadeIndex channelMax
      omega
    refine ⟨index % channelMax, Nat.mod_lt _ (by decide), ?_⟩
    rw [hindex, if_pos huses, Driver.addPublication, if_pos hconfigured, hmode]
    exact List.mem_singleton_self _

/-- A timer without fades changes, and its channels with it. -/
theorem Agrees.retime (h : Agrees b) {mode timer : ℕ} {d : Driver}
    (htimers : ∀ key, key ≠ (mode, timer) → d.timers key = b.driver.timers key)
    (hengine : d.engine = b.driver.engine)
    (hkept : ∀ j, (d.channels j).configured = (b.driver.channels j).configured ∧
      (d.channels j).config = (b.driver.channels j).config)
    (hothers : ∀ j, b.driver.usesTimer mode timer j = false → d.channels j = b.driver.channels j)
    (hsteady : ∀ j, b.driver.usesTimer mode timer j = true → b.driver.steady j) :
    Agrees (Board.publish { b with driver := d } (timerPublications d mode timer)) := by
  have huses : ∀ j, d.usesTimer mode timer j = b.driver.usesTimer mode timer j := by
    intro j
    simp only [Driver.usesTimer, (hkept j).1, (hkept j).2]
  have hdistinct : ∀ i j, (d.channels i).configured = true → (d.channels j).configured = true →
      (d.channels i).config.gpioNum = (d.channels j).config.gpioNum → i = j := by
    intro i j hi hj hpin
    rw [(hkept i).1] at hi
    rw [(hkept j).1] at hj
    rw [(hkept i).2, (hkept j).2] at hpin
    exact h.distinct i j hi hj hpin
  constructor
  · rw [publish_driver]
    exact hengine ▸ h.delivery
  · rw [publish_driver]
    exact hengine ▸ h.draining
  · rw [publish_driver]
    exact hdistinct
  · intro j
    cases hj : b.driver.usesTimer mode timer j with
    | true =>
      obtain ⟨hmode, hconfigured, htimer⟩ := usesTimer_iff.mp ((huses j).trans hj)
      have hshow : (Board.publish { b with driver := d } (timerPublications d mode timer)).pins
          (d.channels j).config.gpioNum = some (d.buildSignal (modeOf j) (d.channels j)) := by
        apply publish_pins
        · intro q hq hqpin
          obtain ⟨i, hi, rfl⟩ := mem_timerPublications.mp hq
          rw [hdistinct i j (usesTimer_iff.mp hi).2.1 hconfigured hqpin]
        · exact Or.inr ⟨_, mem_timerPublications.mpr ⟨j, (huses j).trans hj, rfl⟩, rfl⟩
      unfold Shows
      simp only [publish_driver, hengine]
      have hold := h.shows j
      unfold Shows at hold
      obtain ⟨harmed, hpending⟩ := hsteady j hj
      cases hstate : (b.driver.engine.channels j).state <;> simp only [hstate] at hold ⊢
      · exact fun _ => hshow
      · exact absurd hstate harmed
      · exact absurd hstate hpending
      · exact fun _ => hshow
    | false =>
      have hsame : d.channels j = b.driver.channels j := hothers j hj
      by_cases hconfigured : (b.driver.channels j).configured = true
      · have hkey : (modeOf j, (b.driver.channels j).config.timerSel) ≠ (mode, timer) := by
          intro heq
          obtain ⟨hmode, htimer⟩ := Prod.mk.inj heq
          rw [usesTimer_iff.mpr ⟨hmode, hconfigured, htimer⟩] at hj
          cases hj
        refine (h.shows j).congr ?_ ?_ ?_ fun _ => publish_pins_of_not fun q hq => ?_
        · rw [publish_driver]
          exact hsame ▸ SameOutput.refl _
        · rw [publish_driver, hsame]
          exact htimers _ hkey
        · rw [publish_driver]
          exact congrArg (fun e => e.channels j) hengine
        · obtain ⟨i, hi, rfl⟩ := mem_timerPublications.mp hq
          intro heq
          have hij : i = j := hdistinct i j (usesTimer_iff.mp hi).2.1
            ((hkept j).1.trans hconfigured) (heq.trans (by rw [hsame]))
          rw [hij, huses, hj] at hi
          cases hi
      · have hold := h.shows j
        unfold Shows at hold ⊢
        simp only [publish_driver, hengine, hsame]
        cases hstate : (b.driver.engine.channels j).state <;> simp only [hstate] at hold ⊢
        · exact fun hon => absurd hon hconfigured
        · exact absurd hold.1.configured hconfigured
        · exact absurd hold.1.configured hconfigured
        · exact fun hon => absurd hon hconfigured

theorem Agrees.timerConfig (h : Agrees b) {config : Option TimerConfig} {originUs : ℤ}
    (hsteady : ∀ c, config = some c → (b.driver.timerConfig config originUs).1 = .ok → ∀ j,
      b.driver.usesTimer c.speedMode c.timerNum j = true → b.driver.steady j) :
    Agrees (b.commit (b.driver.timerConfig config originUs)).2 := by
  by_cases hok : (b.driver.timerConfig config originUs).1 = .ok
  swap
  · rw [Board.commit, timerConfig_error hok]
    exact h
  replace hsteady := fun c hc => hsteady c hc hok
  unfold Driver.timerConfig
  cases config with
  | none => exact h
  | some config =>
    dsimp only
    split
    · exact h
    split
    · exact h
    have hkeys : ∀ t key, key ≠ (config.speedMode, config.timerNum) →
        (b.driver.setTimer config.speedMode config.timerNum t).timers key =
          b.driver.timers key := fun t key hkey => Function.update_of_ne hkey ..
    split
    · exact h.retime (hkeys _) rfl (fun _ => ⟨rfl, rfl⟩) (fun _ _ => rfl) (hsteady _ rfl)
    split
    · refine h.retime (hkeys _) rfl (fun j => ?_) (fun j hj => ?_) (hsteady _ rfl)
      · dsimp only
        split <;> exact ⟨rfl, rfl⟩
      · exact if_neg (by rw [Bool.not_eq_true]; exact hj)
    · exact h.retime (hkeys _) rfl (fun _ => ⟨rfl, rfl⟩) (fun _ _ => rfl) (hsteady _ rfl)

theorem Agrees.channelConfig (h : Agrees b) {config : Option ChannelConfig}
    (horderly : ∀ c, config = some c → (b.driver.channelConfig config).1 = .ok →
      b.driver.steady (fadeIndex c.speedMode c.channel) ∧
        (c.deconfigure = false → ∀ j, j ≠ fadeIndex c.speedMode c.channel →
          (b.driver.channels j).configured = true →
          (b.driver.channels j).config.gpioNum ≠ c.gpioNum)) :
    Agrees (b.commit (b.driver.channelConfig config)).2 := by
  by_cases hok : (b.driver.channelConfig config).1 = .ok
  swap
  · rw [Board.commit, channelConfig_error hok]
    exact h
  have hsteady := fun c hc => (horderly c hc hok).1
  have hfree := fun c hc => (horderly c hc hok).2
  unfold Driver.channelConfig
  cases config with
  | none => exact h
  | some config =>
    dsimp only
    split
    · exact h
    rename_i hargs
    have hmode : modeOf (fadeIndex config.speedMode config.channel) = config.speedMode := by
      apply modeOf_fadeIndex
      simpa [validChannel] using (by simp_all : validChannel config.channel = true)
    split
    · exact h
    by_cases hdeconfigure : config.deconfigure = true
    · rw [if_pos hdeconfigure]
      have hrebind := h.rebind (c := {}) (hsteady _ rfl) (fun hon => by cases hon)
        (if (b.driver.channels (fadeIndex config.speedMode config.channel)).configured
          then [⟨(b.driver.channels (fadeIndex config.speedMode config.channel)).config.gpioNum,
            .zero⟩] else []) ?_
      · simpa [Driver.addPublication, Board.commit] using hrebind
      · intro q hq
        split at hq
        · rename_i hconfigured
          obtain rfl := List.mem_singleton.mp hq
          exact ⟨hconfigured, rfl, fun hon => by cases hon⟩
        · cases hq
    rw [if_neg hdeconfigure]
    replace hfree := hfree _ rfl (by simpa using hdeconfigure)
    split
    · exact h
    · have hrebind := h.rebind (c := {
        b.driver.channels (fadeIndex config.speedMode config.channel) with
          configured := true
          config := config
          pendingDuty := config.duty
          pendingHpoint := config.hpoint.toNat
          duty := config.duty
          hpoint := config.hpoint.toNat }) (hsteady _ rfl) (fun _ => hfree)
        (if (b.driver.channels (fadeIndex config.speedMode config.channel)).configured &&
            (b.driver.channels (fadeIndex config.speedMode config.channel)).config.gpioNum ≠
              config.gpioNum
          then [⟨(b.driver.channels (fadeIndex config.speedMode config.channel)).config.gpioNum,
            .zero⟩] else []) ?_
      · rw [hmode] at hrebind
        exact hrebind
      · intro q hq
        split at hq
        · rename_i hmoved
          rw [Bool.and_eq_true, decide_eq_true_eq] at hmoved
          obtain rfl := List.mem_singleton.mp hq
          exact ⟨hmoved.1, rfl, fun _ => hmoved.2⟩
        · cases hq

theorem Agrees.settle (h : Agrees b) {d : Driver} (hd : d = b.driver ∨ ∃ index c,
    SameOutput (b.driver.channels index) c ∧ d = b.driver.setChannel index c) :
    Agrees { b with driver := d } := by
  rcases hd with rfl | ⟨index, c, hc, rfl⟩
  · exact h
  · exact h.setChannel hc

theorem steady_of_not_gateHeld {d : Driver} {index : ℕ} (hindex : index < FadeEngine.kChannels)
    (h : ¬(d.engine.snapshot index 0).gateHeld = true) : d.steady index := by
  unfold Engine.snapshot at h
  rw [if_neg (by omega)] at h
  simp only [Bool.or_eq_true, decide_eq_true_eq, not_or] at h
  exact ⟨h.1.1, h.2⟩

/-- The ticks of the signals a pin may carry. -/
theorem ticks_steady {d : Driver} {mode : ℕ} {c : ChannelState} {nowUs : ℤ}
    (hon : c.configured = true) (hvalid : validOutput (d.timerOf mode c) c.duty c.hpoint = true) :
    (c.duty : ℤ) = (d.buildSignal mode c).ticks
      (FadeEngine.period (d.timerOf mode c).config.dutyResolution) nowUs := by
  unfold Driver.buildSignal
  simp only [hon, hvalid, Bool.not_true, Bool.or_false, Bool.false_eq_true, if_false]
  exact (FadeEngine.ticks_constant (Nat.two_pow_pos _) nowUs).symm

theorem fadeIndex_lt {mode channel : ℕ} (hmode : validMode mode = true)
    (hchannel : validChannel channel = true) : fadeIndex mode channel < FadeEngine.kChannels := by
  have hmode' : mode < speedModeMax := by simpa [validMode] using hmode
  have hchannel' : channel < channelMax := by simpa [validChannel] using hchannel
  unfold speedModeMax at hmode'
  unfold channelMax at hchannel'
  unfold fadeIndex channelMax FadeEngine.kChannels
  omega

/-- A new duty on a channel without a fade. -/
theorem Agrees.output (h : Agrees b) {mode channel : ℕ} (hmode : validMode mode = true)
    (hchannel : validChannel channel = true)
    (hon : (b.driver.channels (fadeIndex mode channel)).configured = true)
    (hgate : ¬(b.driver.engine.snapshot (fadeIndex mode channel) 0).gateHeld = true)
    {c : ChannelState}
    (hconfig : c.config = (b.driver.channels (fadeIndex mode channel)).config) :
    Agrees (Board.publish { b with driver := b.driver.setChannel (fadeIndex mode channel) c }
      ((b.driver.setChannel (fadeIndex mode channel) c).addPublication mode c)) := by
  have hrebind := h.rebind (c := c) (steady_of_not_gateHeld (fadeIndex_lt hmode hchannel) hgate)
    (fun _ j hj hjon heq => hj (h.distinct _ _ hjon hon (by rw [heq, hconfig]))) []
    (fun q hq => by cases hq)
  rw [modeOf_fadeIndex (by simpa [validChannel] using hchannel)] at hrebind
  exact hrebind

theorem Agrees.updateDuty (h : Agrees b) {mode channel : ℕ} :
    Agrees (b.commit (b.driver.updateDuty mode channel)).2 := by
  unfold Driver.updateDuty
  dsimp only
  split
  · exact h
  rename_i hargs
  split
  · exact h
  rename_i hon
  split
  · exact h
  rename_i hgate
  split
  · exact h
  simp only [Bool.or_eq_true, Bool.not_eq_true', not_or, Bool.not_eq_false] at hargs hon
  exact h.output hargs.1 hargs.2 hon hgate rfl

theorem Agrees.setDutyAndUpdate (h : Agrees b) {mode channel duty hpoint : ℕ} :
    Agrees (b.commit (b.driver.setDutyAndUpdate mode channel duty hpoint)).2 := by
  unfold Driver.setDutyAndUpdate
  dsimp only
  split
  · exact h
  rename_i hargs
  split
  · exact h
  rename_i hon
  split
  · exact h
  split
  · exact h
  rename_i hgate
  simp only [Bool.or_eq_true, Bool.not_eq_true', not_or, Bool.not_eq_false] at hargs hon
  exact h.output hargs.1 hargs.2 hon hgate rfl

theorem setDuty_output {d : Driver} {mode channel duty : ℕ} :
    (d.setDuty mode channel duty).2 = d ∨ ∃ index c, SameOutput (d.channels index) c ∧
      (d.setDuty mode channel duty).2 = d.setChannel index c := by
  unfold Driver.setDuty
  dsimp only
  split
  · exact Or.inl rfl
  split
  · exact Or.inl rfl
  split
  · exact Or.inl rfl
  · refine Or.inr ⟨_, _, ?_, rfl⟩
    exact ⟨rfl, rfl, rfl, rfl⟩

theorem setDutyWithHpoint_output {d : Driver} {mode channel duty hpoint : ℕ} :
    (d.setDutyWithHpoint mode channel duty hpoint).2 = d ∨ ∃ index c,
      SameOutput (d.channels index) c ∧
        (d.setDutyWithHpoint mode channel duty hpoint).2 = d.setChannel index c := by
  unfold Driver.setDutyWithHpoint
  dsimp only
  split
  · exact Or.inl rfl
  split
  · exact Or.inl rfl
  split
  · exact Or.inl rfl
  · refine Or.inr ⟨_, _, ?_, rfl⟩
    exact ⟨rfl, rfl, rfl, rfl⟩

theorem cbRegister_output {d : Driver} {mode channel userArg : ℕ} {cbs : Option (Option ℕ)} :
    (d.cbRegister mode channel cbs userArg).2 = d ∨ ∃ index c, SameOutput (d.channels index) c ∧
      (d.cbRegister mode channel cbs userArg).2 = d.setChannel index c := by
  unfold Driver.cbRegister
  split
  · exact Or.inl rfl
  split
  · exact Or.inl rfl
  dsimp only
  split
  · exact Or.inl rfl
  · refine Or.inr ⟨_, _, ?_, rfl⟩
    exact ⟨rfl, rfl, rfl, rfl⟩

theorem setFadeWithTime_output {d : Driver} {mode channel targetDuty : ℕ} {ms : ℤ} :
    (d.setFadeWithTime mode channel targetDuty ms).2 = d ∨ ∃ index c,
      SameOutput (d.channels index) c ∧
        (d.setFadeWithTime mode channel targetDuty ms).2 = d.setChannel index c := by
  unfold Driver.setFadeWithTime
  split
  · exact Or.inl rfl
  dsimp only
  split
  · exact Or.inl rfl
  split
  · exact Or.inl rfl
  · refine Or.inr ⟨_, _, ?_, rfl⟩
    exact ⟨rfl, rfl, rfl, rfl⟩

theorem Agrees.fadeFuncInstall (h : Agrees b) {alloc : Except EspErr ℕ} {enabled : Bool} :
    Agrees (b.settle (b.driver.fadeFuncInstall alloc enabled)).2 := by
  unfold Driver.fadeFuncInstall
  split
  · exact h
  split
  · exact h
  split
  · exact h.congr h.delivery h.draining (fun _ => SameOutput.refl _) rfl rfl rfl
  · exact h

end Calls

section Fades

variable {b b' : Board} {m : Moment} {r : Request}

/-- The fade of one channel moves on, and its pin with it. -/
theorem Agrees.fade (h : Agrees b) {index : ℕ} {s : FadeEngine.Channel}
    {signal : FadeEngine.VoltageSignal} (hdelivery : b'.driver.engine.delivery = [])
    (hdraining : b'.driver.engine.draining = false)
    (hchannels : b'.driver.channels = b.driver.channels)
    (htimers : b'.driver.timers = b.driver.timers)
    (hengine : b'.driver.engine.channels = Function.update b.driver.engine.channels index s)
    (hfading : Fading (b.driver.timerOf (modeOf index) (b.driver.channels index))
      (b.driver.channels index) s.request)
    (hpins : b'.pins = Function.update b.pins s.request.pin (some signal))
    (hstate : s.state = .armed ∧ 0 < s.request.durationUs ∧ signal = s.signal false ∨
      s.state = .pending ∧ s.duty = s.request.targetDuty ∧ signal = s.signal true) :
    Agrees b' := by
  refine ⟨hdelivery, hdraining, by rw [hchannels]; exact h.distinct, fun j => ?_⟩
  by_cases hj : j = index
  · subst hj
    have hpin : b'.pins (b.driver.channels j).config.gpioNum = some signal := by
      rw [hpins, ← hfading.pin]
      exact Function.update_self ..
    unfold Shows
    simp only [hchannels, hengine, Function.update_self, Driver.timerOf, htimers] at hfading ⊢
    rcases hstate with ⟨harmed, hduration, rfl⟩ | ⟨hpending, hduty, rfl⟩
    · simp only [harmed]
      exact ⟨hfading, hduration, hpin⟩
    · simp only [hpending]
      exact ⟨hfading, hduty, hpin⟩
  · refine (h.shows j).congr ?_ ?_ ?_ fun hconfigured => ?_
    · rw [hchannels]
      exact SameOutput.refl _
    · simp only [Driver.timerOf, hchannels, htimers]
    · rw [hengine]
      exact Function.update_of_ne hj ..
    · rw [hpins, hfading.pin]
      refine Function.update_of_ne ?_ ..
      intro heq
      exact hj (h.distinct j index hconfigured hfading.configured heq)

/-- A started fade runs, or is already at its end. -/
theorem Agrees.startEngine (h : Agrees b) (hstart : b.startEngine m r = some b')
    (hfading : Fading (b.driver.timerOf (modeOf r.channel) (b.driver.channels r.channel))
      (b.driver.channels r.channel) r) : Agrees b' := by
  unfold Board.startEngine at hstart
  split at hstart
  swap
  · cases hstart
  obtain ⟨⟨generation, drainNow, e⟩, hsection, rfl⟩ := Option.map_eq_some_iff.mp hstart
  unfold Engine.start at hsection
  dsimp only at hsection
  split at hsection
  swap
  · cases hsection
  have hduration : r.immediate = false → 0 < r.durationUs := by
    intro hfalse
    simp only [Request.immediate, Bool.or_eq_false_iff, decide_eq_false_iff_not] at hfalse
    omega
  cases himmediate : r.immediate with
  | true =>
    simp only [himmediate, if_true, Engine.enqueue, Engine.setChannel, h.draining, h.delivery,
      Bool.not_false, List.nil_append, Option.some.injEq, Prod.mk.injEq] at hsection
    obtain ⟨rfl, rfl, rfl⟩ := hsection
    simp only [if_true, Board.drain, Board.deliver, Function.update_self, Bool.false_eq_true,
      if_false, Engine.finalize, and_self, Engine.setChannel, Function.update_idem]
    refine h.fade rfl rfl rfl rfl rfl hfading rfl ?_
    exact Or.inr ⟨rfl, rfl, rfl⟩
  | false =>
    simp only [himmediate, Bool.false_eq_true, if_false, Engine.enqueue, Engine.setChannel,
      h.draining, h.delivery, Bool.not_false, List.nil_append, Option.some.injEq,
      Prod.mk.injEq] at hsection
    obtain ⟨rfl, rfl, rfl⟩ := hsection
    simp only [Bool.false_eq_true, if_false, if_true, Engine.storeAlarm, Function.update_self,
      Engine.setChannel, Function.update_idem, Board.drain, Board.deliver]
    refine h.fade rfl rfl rfl rfl rfl hfading rfl ?_
    exact Or.inl ⟨rfl, hduration himmediate, rfl⟩

/-- Only gates and semaphores differ. -/
structure SameFades (d d' : Driver) : Prop where
  outputs : ∀ j, SameOutput (d.channels j) (d'.channels j)
  targets : ∀ j, (d'.channels j).fadeTarget = (d.channels j).fadeTarget
  timers : d'.timers = d.timers
  engine : d'.engine = d.engine

theorem SameFades.agrees {d : Driver} (hd : SameFades b.driver d) (h : Agrees b) :
    Agrees { b with driver := d } :=
  h.congr (by rw [hd.engine]; exact h.delivery) (by rw [hd.engine]; exact h.draining) hd.outputs
    hd.timers (by rw [hd.engine]) rfl

theorem SameFades.trans {d d' d'' : Driver} (h : SameFades d d') (h' : SameFades d' d'') :
    SameFades d d'' where
  outputs j := (h.outputs j).trans (h'.outputs j)
  targets j := (h'.targets j).trans (h.targets j)
  timers := h'.timers.trans h.timers
  engine := h'.engine.trans h.engine

theorem take_fades {d d' : Driver} {gate : ℕ} (h : d.take gate = some d') : SameFades d d' := by
  unfold Driver.take at h
  split at h
  · obtain rfl := Option.some.inj h
    exact ⟨fun _ => SameOutput.refl _, fun _ => rfl, rfl, rfl⟩
  · cases h

theorem ensureGate_fades {d d' : Driver} {index gate : ℕ} {created : Bool}
    (h : d.ensureGate index created = some (gate, d')) : SameFades d d' := by
  unfold Driver.ensureGate at h
  split at h
  · obtain ⟨-, rfl⟩ := Prod.mk.inj (Option.some.inj h)
    exact ⟨fun _ => SameOutput.refl _, fun _ => rfl, rfl, rfl⟩
  · split at h
    · obtain ⟨-, rfl⟩ := Prod.mk.inj (Option.some.inj h)
      refine ⟨fun j => ?_, fun j => ?_, rfl, rfl⟩
      · by_cases hj : j = index
        · subst hj
          simpa [Driver.give, Driver.setChannel] using ⟨rfl, rfl, rfl, rfl⟩
        · simpa [Driver.give, Driver.setChannel, Function.update_of_ne hj] using SameOutput.refl _
      · by_cases hj : j = index
        · subst hj
          simp [Driver.give, Driver.setChannel]
        · simp [Driver.give, Driver.setChannel, Function.update_of_ne hj]
    · cases h

theorem request_fading {d : Driver} {mode channel : ℕ} (hchannel : validChannel channel = true)
    (hon : (d.channels (fadeIndex mode channel)).configured = true)
    (hvalid : validOutput (d.timerOf mode (d.channels (fadeIndex mode channel)))
      (d.channels (fadeIndex mode channel)).fadeTarget
      (d.channels (fadeIndex mode channel)).hpoint = true) :
    Fading (d.timerOf (modeOf (d.request mode channel).channel)
      (d.channels (d.request mode channel).channel)) (d.channels (d.request mode channel).channel)
      (d.request mode channel) := by
  have hmode : modeOf (d.request mode channel).channel = mode :=
    modeOf_fadeIndex (by simpa [validChannel] using hchannel)
  rw [hmode]
  exact ⟨hon, hvalid, rfl, rfl, rfl, rfl, rfl, rfl⟩

/-- A fade that is going to start fits its channel. -/
theorem fadeStart_fading {d d' : Driver} {mode channel gate : ℕ} {fadeMode : FadeMode}
    {created : Bool} (h : d.fadeStart mode channel fadeMode created = .ok (gate, r, d')) :
    SameFades d d' ∧ Fading (d'.timerOf (modeOf r.channel) (d'.channels r.channel))
      (d'.channels r.channel) r := by
  unfold Driver.fadeStart at h
  split at h
  · cases h
  rename_i hargs
  dsimp only at h
  split at h
  · cases h
  rename_i hstate
  split at h
  · cases h
  rename_i hvalid
  simp only [Bool.or_eq_true, Bool.not_eq_true', not_or, Bool.not_eq_false] at hargs hstate hvalid
  split at h
  · cases h
  rename_i gate' taken hgate
  obtain ⟨⟨gate₀, d₀⟩, hensure, htake⟩ := Option.bind_eq_some_iff.mp hgate
  obtain ⟨d₁, htaken, hd₁⟩ := Option.map_eq_some_iff.mp htake
  obtain ⟨rfl, rfl⟩ := Prod.mk.inj hd₁
  obtain ⟨-, h⟩ := Prod.mk.inj (Except.ok.inj h)
  obtain ⟨rfl, rfl⟩ := Prod.mk.inj h
  have hfades : SameFades d d₁ := (ensureGate_fades hensure).trans (take_fades htaken)
  refine ⟨hfades, request_fading hargs.1.2 ?_ ?_⟩
  · rw [(hfades.outputs _).configured]
    exact hstate.2
  · simp only [Driver.timerOf, hfades.timers, (hfades.outputs _).config, hfades.targets,
      (hfades.outputs _).hpoint]
    exact hvalid

theorem Agrees.fadeStart (h : Agrees b) {mode channel : ℕ} {fadeMode : FadeMode}
    {created : Bool} : Agrees (b.fadeStart m mode channel fadeMode created).2 := by
  unfold Board.fadeStart
  split
  · exact h
  rename_i gate request d hsection
  obtain ⟨hfades, hfading⟩ := fadeStart_fading hsection
  have hd : Agrees { b with driver := d } := hfades.agrees h
  split
  · exact hd.congr hd.delivery hd.draining (fun _ => SameOutput.refl _) rfl rfl rfl
  · rename_i b' hstart
    have hb' : Agrees b' := hd.startEngine hstart hfading
    split
    · split
      · exact hb'.congr hb'.delivery hb'.draining (fun _ => SameOutput.refl _) rfl rfl rfl
      · exact hb'
    · exact hb'

/-- A call that has waited changes its gate alone. -/
theorem Agrees.awaken (h : Agrees b) {gate : ℕ} (hawaken : b.awaken gate = some b') :
    Agrees b' := by
  unfold Board.awaken at hawaken
  split at hawaken
  · obtain ⟨d, htake, rfl⟩ := Option.map_eq_some_iff.mp hawaken
    have hd : Agrees { b with driver := d } := (take_fades htake).agrees h
    exact hd.congr hd.delivery hd.draining (fun _ => SameOutput.refl _) rfl rfl rfl
  · cases hawaken

/-- The deadline of a fade puts the pin to the target. -/
theorem Agrees.deadline (h : Agrees b) (index generation : ℕ) :
    Agrees (b.deadline index generation) := by
  unfold Board.deadline Engine.deadline
  dsimp only
  by_cases hfire : (b.driver.engine.channels index).generation = generation ∧
      (b.driver.engine.channels index).state = .armed
  · have hold := h.shows index
    unfold Shows at hold
    simp only [hfire.2] at hold
    obtain ⟨rfl, harmed⟩ := hfire
    simp only [harmed, and_self, if_true, Engine.enqueue, Engine.setChannel, h.draining, h.delivery,
      Bool.not_false, List.nil_append, Board.drain, Board.deliver, Function.update_self,
      Bool.false_eq_true, if_false, Engine.finalize, Function.update_idem]
    refine h.fade rfl rfl rfl rfl rfl hold.1 rfl ?_
    exact Or.inr ⟨rfl, rfl, rfl⟩
  · rw [if_neg hfire]
    exact h

/-- The fade of a channel ends in the duty that its pin shows already. -/
theorem endpoint_signal {d : Driver} {mode : ℕ} {c : ChannelState} {s : FadeEngine.Channel}
    (hfading : Fading (d.timerOf mode c) c s.request) (hduty : c.duty = s.request.targetDuty) :
    d.buildSignal mode c = s.signal true := by
  unfold Driver.buildSignal FadeEngine.Channel.signal
  simp only [hfading.configured, hduty, hfading.valid, hfading.frequency, hfading.resolution,
    hfading.origin, hfading.phase, hfading.inverted, Bool.not_true, Bool.or_false,
    Bool.false_eq_true, if_false, if_true]

/-- The interrupt service takes a completion: the duty of the channel becomes the target. -/
theorem Agrees.complete (h : Agrees b) {index : ℕ}
    (hpending : (b.driver.engine.channels index).state = .pending) :
    Agrees { b with driver := { b.driver with
      engine := b.driver.engine.setChannel index { b.driver.engine.channels index with
        state := .idle
        alarm := 0 }
      channels := Function.update b.driver.channels index { b.driver.channels index with
        duty := (b.driver.engine.channels index).duty
        pendingDuty := (b.driver.engine.channels index).duty } } } := by
  have hold := h.shows index
  unfold Shows at hold
  simp only [hpending] at hold
  obtain ⟨hfading, hduty, hpin⟩ := hold
  have hkept : ∀ j, (Function.update b.driver.channels index { b.driver.channels index with
      duty := (b.driver.engine.channels index).duty
      pendingDuty := (b.driver.engine.channels index).duty } j).configured =
        (b.driver.channels j).configured ∧
      (Function.update b.driver.channels index { b.driver.channels index with
        duty := (b.driver.engine.channels index).duty
        pendingDuty := (b.driver.engine.channels index).duty } j).config =
        (b.driver.channels j).config := by
    intro j
    by_cases hj : j = index
    · subst hj
      simp
    · simp [Function.update_of_ne hj]
  refine ⟨h.delivery, h.draining, fun i j hi hj heq => ?_, fun j => ?_⟩
  · simp only [(hkept _).1, (hkept _).2] at hi hj heq
    exact h.distinct i j hi hj heq
  · by_cases hj : j = index
    · subst hj
      unfold Shows
      simp only [Engine.setChannel, Function.update_self]
      intro _
      rw [endpoint_signal (s := b.driver.engine.channels j) ?_ hduty]
      · exact hpin
      · exact ⟨hfading.configured, hfading.valid, hfading.pin, hfading.frequency,
          hfading.resolution, hfading.origin, hfading.phase, hfading.inverted⟩
    · refine (h.shows j).congr ?_ ?_ ?_ fun _ => rfl
      · simp only [Function.update_of_ne hj]
        exact SameOutput.refl _
      · simp only [Function.update_of_ne hj]
        rfl
      · simp only [Engine.setChannel, Function.update_of_ne hj]

theorem Agrees.serve (h : Agrees b) (index : ℕ) : Agrees (b.serve index) := by
  unfold Board.serve Engine.takeCompletion
  dsimp only
  by_cases hpending : index < FadeEngine.kChannels ∧
      (b.driver.engine.channels index).state = .pending
  · rw [if_pos hpending]
    have hdone := h.complete hpending.2
    unfold Driver.publishCompletion
    dsimp only
    split
    · exact hdone.congr hdone.delivery hdone.draining (fun _ => SameOutput.refl _) rfl rfl rfl
    · exact hdone
  · rw [if_neg hpending]
    exact h

theorem Agrees.interrupt (h : Agrees b) : Agrees b.interrupt := by
  unfold Board.interrupt
  generalize List.range FadeEngine.kChannels = indices
  induction indices generalizing b with
  | nil => exact h
  | cons index indices ih => exact ih (h.serve index)

theorem clearCallbacks_agrees (h : Agrees b) (index : ℕ) :
    Agrees { b with driver := b.driver.clearCallbacks index } :=
  h.setChannel ⟨rfl, rfl, rfl, rfl⟩

/-- Without a running fade there is nothing to cancel. -/
theorem cancelEngine_idle (h : Agrees b) {index : ℕ}
    (hidle : (b.driver.engine.channels index).state ≠ .armed) : b.cancelEngine m index = b := by
  have hqueued : (b.driver.engine.channels index).state ≠ .queued := by
    intro hqueued
    have hold := h.shows index
    unfold Shows at hold
    simp only [hqueued] at hold
  unfold Board.cancelEngine Engine.cancel
  dsimp only
  split
  · rw [if_neg (by simp [hidle, hqueued])]
  · rfl

theorem Agrees.uninstall (h : Agrees b) (hidle : b.driver.fadeInstalled = true →
      ∀ index, (b.driver.engine.channels index).state ≠ .armed) : Agrees (b.uninstall m) := by
  unfold Board.uninstall
  split
  · rename_i hinstalled
    have hloop : ∀ (indices : List ℕ) (b : Board), Agrees b →
        (∀ index, (b.driver.engine.channels index).state ≠ .armed) →
        Agrees (indices.foldl (fun b index =>
          let b := b.cancelEngine m index
          { b with driver := b.driver.clearCallbacks index }) b) := by
      intro indices
      induction indices with
      | nil => exact fun b hb _ => hb
      | cons index indices ih =>
        intro b hb hb'
        rw [List.foldl_cons, cancelEngine_idle hb (hb' index)]
        exact ih _ (clearCallbacks_agrees hb index) hb'
    have hend := hloop (List.range FadeEngine.kChannels) b h (hidle hinstalled)
    exact hend.congr hend.delivery hend.draining (fun _ => SameOutput.refl _) rfl rfl rfl
  · exact h

end Fades

/-- An orderly step keeps the driver and the pins in agreement. -/
theorem happen_agrees : PreservesWhen Board.happen Orderly Agrees := by
  intro b e b' hok hstep h
  cases e with
  | deadline index generation =>
    obtain rfl := Option.some.inj hstep
    exact h.deadline index generation
  | interrupt =>
    obtain rfl := Option.some.inj hstep
    exact h.interrupt
  | awaken gate => exact h.awaken hstep
  | call m c =>
    obtain rfl := Option.some.inj hstep
    cases c with
    | timerConfig config originUs =>
      refine h.timerConfig fun c hc => ?_
      subst hc
      exact hok
    | channelConfig config =>
      refine h.channelConfig fun c hc => ?_
      subst hc
      exact hok
    | fadeFuncInstall alloc enabled => exact h.fadeFuncInstall
    | cbRegister mode channel cbs userArg => exact h.settle cbRegister_output
    | setDuty mode channel duty => exact h.settle setDuty_output
    | setDutyWithHpoint mode channel duty hpoint => exact h.settle setDutyWithHpoint_output
    | updateDuty mode channel => exact h.updateDuty
    | setDutyAndUpdate mode channel duty hpoint => exact h.setDutyAndUpdate
    | setFadeWithTime mode channel targetDuty ms => exact h.settle setFadeWithTime_output
    | fadeStart mode channel fadeMode created => exact h.fadeStart
    | setFadeTimeAndStart mode channel targetDuty ms fadeMode created =>
      have hset : Agrees { b with
          driver := (b.driver.setFadeWithTime mode channel targetDuty ms).2 } :=
        h.settle setFadeWithTime_output
      simp only [Board.perform]
      split
      · exact h
      · split
        · exact hset.fadeStart
        · exact hset
    | fadeFuncUninstall => exact h.uninstall hok

theorem happen_short : Preserves Board.happen fun b => ShortFades b.driver := by
  intro b e b' hstep h
  cases e with
  | call m c =>
    obtain rfl := Option.some.inj hstep
    exact perform_short h m c
  | awaken gate => exact awaken_short h hstep
  | deadline index generation =>
    obtain rfl := Option.some.inj hstep
    exact deadline_short h index generation
  | interrupt =>
    obtain rfl := Option.some.inj hstep
    exact interrupt_short h

/-- The duty that the driver reports is the duty of the signal on the pin, in ticks of the
timer rounded towards the start of a fade. -/
theorem Agrees.getDuty {b : Board} (h : Agrees b) (hshort : ShortFades b.driver)
    {mode channel : ℕ} (hmode : validMode mode = true)
    (hchannel : validChannel channel = true) (nowUs : ℤ)
    (hon : (b.driver.channels (fadeIndex mode channel)).configured = true)
    (hvalid : b.driver.steady (fadeIndex mode channel) →
      validOutput (b.driver.timerOf mode (b.driver.channels (fadeIndex mode channel)))
        (b.driver.channels (fadeIndex mode channel)).duty
        (b.driver.channels (fadeIndex mode channel)).hpoint = true) :
    ∃ signal, b.pins (b.driver.channels (fadeIndex mode channel)).config.gpioNum = some signal ∧
      (b.driver.getDuty mode channel nowUs : ℤ) = signal.ticks
        (FadeEngine.period (b.driver.timerOf mode
          (b.driver.channels (fadeIndex mode channel))).config.dutyResolution) nowUs := by
  have hshows := h.shows (fadeIndex mode channel)
  have hindex := fadeIndex_lt hmode hchannel
  have hscale : ∀ n, 0 < FadeEngine.period n := fun n => Nat.two_pow_pos n
  unfold Shows at hshows
  rw [modeOf_fadeIndex (by simpa [validChannel] using hchannel)] at hshows
  simp only [Driver.getDuty, hmode, hchannel, hon, Engine.snapshot, Nat.not_le.mpr hindex,
    Bool.not_true, Bool.or_false, Bool.false_eq_true, if_false]
  cases hstate : (b.driver.engine.channels (fadeIndex mode channel)).state <;>
    simp only [hstate] at hshows ⊢
  · exact ⟨_, hshows hon, ticks_steady hon (hvalid (by simp [Driver.steady, hstate]))⟩
  · obtain ⟨hfading, hduration, hpin⟩ := hshows
    refine ⟨_, hpin, ?_⟩
    rw [← hfading.resolution]
    exact (FadeEngine.ticks_fade _ _ nowUs (hscale _) hduration (hshort.narrow _)).symm
  · obtain ⟨hfading, hduty, hpin⟩ := hshows
    refine ⟨_, hpin, ?_⟩
    rw [← hfading.resolution, if_pos (by simp), hduty]
    exact (FadeEngine.ticks_constant (hscale _) nowUs).symm
  · exact ⟨_, hshows hon, ticks_steady hon (hvalid (by simp [Driver.steady, hstate]))⟩

/-- In every run that keeps to `Orderly`, for every configured channel that runs a fade
or whose duty fits its timer, the reported duty is the duty of the signal on the pin at every uptime. -/
theorem duty_pin_agree {hs : List Happening} {b : Board}
    (h : run Board.happen boardStart hs = some b) (hok : Meets Board.happen Orderly boardStart hs)
    {mode channel : ℕ} (hmode : validMode mode = true) (hchannel : validChannel channel = true)
    (hon : (b.driver.channels (fadeIndex mode channel)).configured = true)
    (hvalid : b.driver.steady (fadeIndex mode channel) →
      validOutput (b.driver.timerOf mode (b.driver.channels (fadeIndex mode channel)))
        (b.driver.channels (fadeIndex mode channel)).duty
        (b.driver.channels (fadeIndex mode channel)).hpoint = true) (nowUs : ℤ) :
    b.driver.engine.delivery = [] ∧
    ∃ signal, b.pins (b.driver.channels (fadeIndex mode channel)).config.gpioNum = some signal ∧
      (b.driver.getDuty mode channel nowUs : ℤ) = signal.ticks
        (FadeEngine.period (b.driver.timerOf mode
          (b.driver.channels (fadeIndex mode channel))).config.dutyResolution) nowUs := by
  have hagrees := happen_agrees.run hok h boardStart_agrees
  have hshort := happen_short.run h boardStart_short
  exact ⟨hagrees.delivery, hagrees.getDuty hshort hmode hchannel nowUs hon hvalid⟩

/-- A fade from three ticks to none in two milliseconds, which its call waits for, and a
frequency that the driver refuses under way. -/
def fadeDown : List Happening :=
  [.call ⟨false, 0, 0, true⟩ (.timerConfig (some { dutyResolution := 8, freqHz := 5000 }) 0),
    .call ⟨false, 0, 0, true⟩ (.channelConfig (some { gpioNum := 2, duty := 3 })),
    .call ⟨false, 0, 0, true⟩ (.fadeFuncInstall (.ok 1) true),
    .call ⟨false, 0, 1, true⟩ (.setFadeTimeAndStart 0 0 0 2 .waitDone true),
    .call ⟨false, 500, 0, true⟩ (.timerConfig (some { dutyResolution := 8, freqHz := 0 }) 0)]

theorem fadeDown_orderly : Meets Board.happen Orderly boardStart fadeDown := by
  refine ⟨fun _ index h => ?_, fun b hb => ?_⟩
  · simp [boardStart, start, Driver.usesTimer] at h
  obtain rfl := Option.some.inj hb
  refine ⟨fun _ => ⟨⟨by decide, by decide⟩, fun _ index _ h => by cases h⟩, fun b _ => ?_⟩
  refine ⟨trivial, fun b _ => ⟨trivial, fun b _ => ⟨fun hok => ?_, fun b _ => trivial⟩⟩⟩
  cases hok

/-- Half way down, one tick and a half are two ticks. -/
theorem duty_pin_agree_fadeDown : ∃ b, run Board.happen boardStart fadeDown = some b ∧
    ∃ signal, b.pins 2 = some signal ∧ (b.driver.getDuty 0 0 1000 : ℤ) = signal.ticks 256 1000 := by
  refine ⟨_, rfl, ?_⟩
  exact (@duty_pin_agree fadeDown _ rfl fadeDown_orderly 0 0 rfl rfl rfl (fun _ => rfl) 1000).2

/-- Rounded down it would be one tick. -/
theorem floor_duty_fadeDown :
    ¬∀ (hs : List Happening) (b : Board), run Board.happen boardStart hs = some b →
      Meets Board.happen Orderly boardStart hs → b.driver.engine.delivery = [] →
      ∀ mode channel, validMode mode = true → validChannel channel = true →
        (b.driver.channels (fadeIndex mode channel)).configured = true →
        (b.driver.timerOf mode (b.driver.channels (fadeIndex mode channel))).configured = true →
        ∀ (nowUs : ℤ) frequencyHz duty originUs phase inverted,
          b.pins (b.driver.channels (fadeIndex mode channel)).config.gpioNum =
            some (.square frequencyHz duty originUs phase inverted) →
          (b.driver.getDuty mode channel nowUs : ℤ) = ⌊duty.activeDuty nowUs *
            FadeEngine.period (b.driver.timerOf mode
              (b.driver.channels (fadeIndex mode channel))).config.dutyResolution⌋ := by
  intro h
  have hfloor := h fadeDown _ rfl fadeDown_orderly rfl 0 0 rfl rfl rfl rfl 1000 _ _ _ _ _ rfl
  revert hfloor
  decide +kernel

end RooTesting.LedcDriver
