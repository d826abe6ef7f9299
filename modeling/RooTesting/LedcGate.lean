import RooTesting.LedcThreads

/-! # The gate of a channel

The gate of a channel is held by the fade engine, by a call between taking the gate and
starting the engine, or by the interrupt service between a completion and its give; and
by nobody else. -/
namespace RooTesting.LedcDriver
open Transition Threads
open FadeEngine (Engine Request Completion)

/-- Frames that hold the gate of their channel. -/
def Frame.gated : Frame → Bool
  | .startEngine .. | .publishCompletion _ => true
  | _ => false

def Frame.holds (index : ℕ) : Frame → Bool
  | .startEngine _ request _ => request.channel = index
  | .publishCompletion completion => completion.channel = index
  | _ => false

def gated (l : Local) : List Frame := l.stack.filter Frame.gated

/-- How often a thread holds the gate of a channel. -/
def tokens (index : ℕ) (l : Local) : ℕ := (gated l).countP (Frame.holds index)

/-- No wait for the end of a fade takes the gate of a channel again, no uninstall meets a
fade under way, and no channel is deconfigured while its gate is taken. -/
def Keeps (d : Driver) (l : Local) : Event → Prop
  | .call (.channelConfig (some config)) =>
    config.deconfigure = true → validMode config.speedMode = true →
      validChannel config.channel = true →
      d.gateAvailable (fadeIndex config.speedMode config.channel) = true
  | .clock _ => ∀ index rest, l.stack = .cancel index :: rest → l.active = false →
      index < FadeEngine.kChannels →
      (d.engine.channels index).state ≠ .armed ∧ (d.engine.channels index).state ≠ .queued
  | .resume => ∀ gate rest, l.stack = .waitDone gate :: rest → d.semaphores gate = true →
      ∀ index, (d.channels index).gate ≠ some gate
  | _ => True

/-- Nothing about any gate changes. -/
structure SameGates (d d' : Driver) : Prop where
  gate : ∀ index, (d'.channels index).gate = (d.channels index).gate
  semaphores : ∀ index gate, (d.channels index).gate = some gate →
    d'.semaphores gate = d.semaphores gate
  count : d'.semaphoreCount = d.semaphoreCount
  held : ∀ index, gateHeld d'.engine index = gateHeld d.engine index

section EngineSections

variable {e e' : Engine}

theorem gateHeld_congr {index : ℕ} (h : (e'.channels index).state = (e.channels index).state) :
    gateHeld e' index = gateHeld e index := by
  simp [gateHeld, h]

theorem gateHeld_update {index : ℕ} {c : FadeEngine.Channel} {b : Bool} {q : List FadeEngine.Delivery}
    {draining notifier : Bool}
    (h : b = (c.state = .armed || c.state = .queued || c.state = .pending)) (j : ℕ) :
    gateHeld ⟨Function.update e.channels index c, q, draining, notifier⟩ j =
      if j = index then b else gateHeld e j := by
  by_cases hj : j = index
  · subst hj
    simp [gateHeld, h]
  · simp [gateHeld, hj]

theorem gateHeld_start {r : Request} {nowUs : ℤ} {generation : ℕ} {drainNow : Bool}
    (h : e.start r nowUs = some (generation, drainNow, e')) (j : ℕ) :
    gateHeld e' j = if j = r.channel then true else gateHeld e j := by
  unfold Engine.start at h
  dsimp only at h
  split at h
  · split at h
    · obtain ⟨-, -, rfl⟩ := Option.some.inj h
      exact gateHeld_update (by simp_all) j
    · obtain ⟨-, -, rfl⟩ := Option.some.inj h
      exact gateHeld_update (by simp_all) j
  · cases h

/-- An idle channel accepts a fade. -/
theorem start_isSome {r : Request} (nowUs : ℤ) (h : gateHeld e r.channel = false) :
    (e.start r nowUs).isSome := by
  have hfree : (e.channels r.channel).state = .idle ∨ (e.channels r.channel).state = .cancelled := by
    revert h
    unfold gateHeld
    cases (e.channels r.channel).state <;> simp
  unfold Engine.start
  dsimp only
  rw [if_pos hfree]
  split <;> rfl

theorem gateHeld_deadline {index generation : ℕ} {drainNow : Bool}
    (h : e.deadline index generation = some (drainNow, e')) (j : ℕ) :
    gateHeld e' j = gateHeld e j := by
  unfold Engine.deadline at h
  dsimp only at h
  split at h
  · rename_i hc
    obtain ⟨-, rfl⟩ := Option.some.inj h
    refine (gateHeld_update (e := e) (b := true) (by simp) j).trans ?_
    split
    · subst j
      simp [gateHeld, hc.2]
    · rfl
  · cases h

theorem gateHeld_storeAlarm (channel generation alarm j : ℕ) :
    gateHeld (e.storeAlarm channel generation alarm) j = gateHeld e j := by
  unfold Engine.storeAlarm
  dsimp only
  split
  · refine gateHeld_congr ?_
    by_cases hj : j = channel
    · subst hj
      simp
    · simp [Function.update_of_ne hj]
  · rfl

theorem gateHeld_finalize (item : FadeEngine.Delivery) (j : ℕ) :
    gateHeld (e.finalize item).2 j = gateHeld e j := by
  unfold Engine.finalize
  dsimp only
  split
  · rename_i hc
    refine (gateHeld_update (e := e) (b := true) (by simp) j).trans ?_
    split
    · subst j
      simp [gateHeld, hc.2]
    · rfl
  · rfl

theorem gateHeld_takeCompletion {index : ℕ} {completion : Completion}
    (h : e.takeCompletion index = some (completion, e')) :
    completion.channel = index ∧ gateHeld e index = true ∧
      ∀ j, gateHeld e' j = if j = index then false else gateHeld e j := by
  unfold Engine.takeCompletion at h
  dsimp only at h
  split at h
  · rename_i hc
    obtain ⟨rfl, rfl⟩ := Prod.mk.inj (Option.some.inj h)
    exact ⟨rfl, by simp [gateHeld, hc.2], fun j => gateHeld_update (by simp) j⟩
  · cases h

theorem cancel_eq_none {index : ℕ} (nowUs : ℤ) (harmed : (e.channels index).state ≠ .armed)
    (hqueued : (e.channels index).state ≠ .queued) : e.cancel index nowUs = none := by
  simp [Engine.cancel, harmed, hqueued]

theorem gateHeld_cancel {index : ℕ} {nowUs : ℤ} {alarm : ℕ} {drainNow : Bool}
    (h : e.cancel index nowUs = some (alarm, drainNow, e')) (j : ℕ) :
    gateHeld e' j = if j = index then false else gateHeld e j := by
  unfold Engine.cancel at h
  dsimp only at h
  split at h
  · obtain ⟨-, -, rfl⟩ := Option.some.inj h
    exact gateHeld_update (by simp) j
  · cases h

theorem cancel_isSome {index : ℕ} (nowUs : ℤ)
    (h : (e.channels index).state = .armed ∨ (e.channels index).state = .queued) :
    (e.cancel index nowUs).isSome := by
  unfold Engine.cancel
  dsimp only
  rw [if_pos h]
  rfl

/-- Nothing that the engine does by itself takes or gives a gate. -/
theorem gateHeld_resume {active : Bool} {f : FadeEngine.Frame} {rest : List FadeEngine.Frame}
    {l : FadeEngine.Local} (h : FadeEngine.resume e active rest f = some (e', l)) (j : ℕ) :
    gateHeld e' j = gateHeld e j := by
  cases f with
  | startAlarm channel generation drainNow => cases h
  | cancelAlarm alarm drainNow => cases h; rfl
  | drain => cases h; rfl
  | loop =>
    simp only [FadeEngine.resume] at h
    rcases FadeEngine.pop_cases (e := e) with ⟨hpop, -⟩ | ⟨item, items, -, -, hpop | hpop⟩
    all_goals
      rw [hpop] at h
      cases h
      rfl
  | write item => cases h; rfl
  | finalize item =>
    cases h
    exact gateHeld_finalize item j
  | notify => cases h; rfl
  | relinquish => cases h; rfl

end EngineSections

namespace SameGates

variable {d d' : Driver}

theorem refl (d : Driver) : SameGates d d := ⟨fun _ => rfl, fun _ _ _ => rfl, rfl, fun _ => rfl⟩

theorem of_engine {e : Engine} (h : ∀ j, gateHeld e j = gateHeld d.engine j) :
    SameGates d { d with engine := e } :=
  ⟨fun _ => rfl, fun _ _ _ => rfl, rfl, h⟩

/-- A channel may be rewritten but for its gate. -/
theorem setChannel {index : ℕ} {c : ChannelState} (h : c.gate = (d.channels index).gate) :
    SameGates d (d.setChannel index c) := by
  refine ⟨fun j => ?_, fun _ _ _ => rfl, rfl, fun _ => rfl⟩
  by_cases hj : j = index
  · subst hj
    simpa [Driver.setChannel] using h
  · simp [Driver.setChannel, Function.update_of_ne hj]

theorem available (h : SameGates d d') (index : ℕ) :
    d'.gateAvailable index = d.gateAvailable index := by
  unfold Driver.gateAvailable
  rw [h.gate]
  cases hg : (d.channels index).gate with
  | none => rfl
  | some gate => exact h.semaphores index gate hg

theorem timerConfig (config : Option TimerConfig) (originUs : ℤ) :
    SameGates d (d.timerConfig config originUs).2.1 := by
  unfold Driver.timerConfig
  split
  · exact .refl d
  split
  · exact .refl d
  split
  · exact .refl d
  dsimp only
  split
  · exact ⟨fun _ => rfl, fun _ _ _ => rfl, rfl, fun _ => rfl⟩
  split
  · refine ⟨fun j => ?_, fun _ _ _ => rfl, rfl, fun _ => rfl⟩
    dsimp only
    split <;> rfl
  · exact ⟨fun _ => rfl, fun _ _ _ => rfl, rfl, fun _ => rfl⟩

theorem fadeFuncInstall (alloc : Except EspErr ℕ) (enabled : Bool) :
    SameGates d (d.fadeFuncInstall alloc enabled).2 := by
  unfold Driver.fadeFuncInstall
  split
  · exact .refl d
  split
  · exact .refl d
  split
  · exact ⟨fun _ => rfl, fun _ _ _ => rfl, rfl, fun _ => rfl⟩
  · exact .refl d

theorem cbRegister (mode channel : ℕ) (cbs : Option (Option ℕ)) (userArg : ℕ) :
    SameGates d (d.cbRegister mode channel cbs userArg).2 := by
  unfold Driver.cbRegister
  dsimp only
  repeat' split
  all_goals first | exact .refl d | exact .setChannel rfl

theorem setDuty (mode channel duty : ℕ) : SameGates d (d.setDuty mode channel duty).2 := by
  unfold Driver.setDuty
  dsimp only
  repeat' split
  all_goals first | exact .refl d | exact .setChannel rfl

theorem setDutyWithHpoint (mode channel duty hpoint : ℕ) :
    SameGates d (d.setDutyWithHpoint mode channel duty hpoint).2 := by
  unfold Driver.setDutyWithHpoint
  dsimp only
  repeat' split
  all_goals first | exact .refl d | exact .setChannel rfl

theorem updateDuty (mode channel : ℕ) : SameGates d (d.updateDuty mode channel).2.1 := by
  unfold Driver.updateDuty
  dsimp only
  repeat' split
  all_goals first | exact .refl d | exact .setChannel rfl

theorem setDutyAndUpdate (mode channel duty hpoint : ℕ) :
    SameGates d (d.setDutyAndUpdate mode channel duty hpoint).2.1 := by
  unfold Driver.setDutyAndUpdate
  dsimp only
  repeat' split
  all_goals first | exact .refl d | exact .setChannel rfl

theorem setFadeWithTime (mode channel targetDuty : ℕ) (desiredFadeTimeMs : ℤ) :
    SameGates d (d.setFadeWithTime mode channel targetDuty desiredFadeTimeMs).2 := by
  unfold Driver.setFadeWithTime
  dsimp only
  repeat' split
  all_goals first | exact .refl d | exact .setChannel rfl

end SameGates

/-- A section that takes the gate of a channel, which it may have created. -/
structure Takes (d : Driver) (index gate : ℕ) (d' : Driver) : Prop where
  available : d.gateAvailable index = true
  source : (d.channels index).gate = some gate ∧ d'.semaphoreCount = d.semaphoreCount ∨
    (d.channels index).gate = none ∧ gate = d.semaphoreCount ∧
      d'.semaphoreCount = d.semaphoreCount + 1
  gates : ∀ j, (d'.channels j).gate = if j = index then some gate else (d.channels j).gate
  semaphores : ∀ g, d'.semaphores g = if g = gate then false else d.semaphores g
  held : ∀ j, gateHeld d'.engine j = gateHeld d.engine j

/-- What a step does to the gates and to the frames that hold them. -/
inductive Effect (d : Driver) (l : Local) : Driver → Local → Prop where
  | quiet {d' l'} (hd : SameGates d d') (hl : gated l' = gated l) : Effect d l d' l'
  | take {d' l' gate request fadeMode} (ht : Takes d request.channel gate d')
      (hl : gated l' = .startEngine gate request fadeMode :: gated l) : Effect d l d' l'
  | drop {l'} (index : ℕ) (h : d.gateAvailable index = true) (hl : gated l' = gated l) :
      Effect d l (d.setChannel index {}) l'
  | refuse {l' gate request fadeMode}
      (hl : gated l = .startEngine gate request fadeMode :: gated l') : Effect d l (d.give gate) l'
  | hold {e l' gate request fadeMode}
      (he : ∀ j, gateHeld e j = if j = request.channel then true else gateHeld d.engine j)
      (hl : gated l = .startEngine gate request fadeMode :: gated l') :
      Effect d l { d with engine := e } l'
  | complete {e l' completion} (hheld : gateHeld d.engine completion.channel = true)
      (he : ∀ j, gateHeld e j = if j = completion.channel then false else gateHeld d.engine j)
      (hl : gated l' = .publishCompletion completion :: gated l) :
      Effect d l { d with engine := e } l'
  | give {l' completion} (hl : gated l = .publishCompletion completion :: gated l') :
      Effect d l (d.publishCompletion completion).2 l'

section Effects

variable {d d' : Driver} {l l' : Local}

theorem takes_of_ensureGate {index gate : ℕ} {created : Bool} {d₁ : Driver}
    (hensure : d.ensureGate index created = some (gate, d₁)) (htake : d₁.take gate = some d') :
    Takes d index gate d' := by
  unfold Driver.take at htake
  split at htake
  · rename_i havail
    obtain rfl := Option.some.inj htake
    unfold Driver.ensureGate at hensure
    split at hensure
    · rename_i gate hgate
      obtain ⟨rfl, rfl⟩ := Option.some.inj hensure
      refine ⟨by simpa [Driver.gateAvailable, hgate] using havail, Or.inl ⟨hgate, rfl⟩,
        fun j => ?_, fun g => by simp [Function.update_apply], fun _ => rfl⟩
      split
      · subst j
        exact hgate
      · rfl
    · rename_i hgate
      split at hensure
      · obtain ⟨rfl, rfl⟩ := Option.some.inj hensure
        refine ⟨by simp [Driver.gateAvailable, hgate], Or.inr ⟨hgate, rfl, rfl⟩,
          fun j => ?_, fun g => ?_, fun _ => rfl⟩
        · simp only [Driver.give, Driver.setChannel, Function.update_apply]
          split <;> rfl
        · simp only [Driver.give, Driver.setChannel, Function.update_apply]
          split <;> rfl
      · cases hensure
  · cases htake

theorem takes_of_fadeStart {mode channel gate : ℕ} {fadeMode : FadeMode} {created : Bool}
    {request : Request}
    (h : d.fadeStart mode channel fadeMode created = .ok (gate, request, d')) :
    request.channel = fadeIndex mode channel ∧ Takes d (fadeIndex mode channel) gate d' := by
  unfold Driver.fadeStart at h
  dsimp only at h
  repeat (split at h; · cases h)
  rename_i hg
  obtain ⟨⟨gate₁, d₁⟩, hensure, hg⟩ := Option.bind_eq_some_iff.mp hg
  obtain ⟨d₂, htake, hg⟩ := Option.map_eq_some_iff.mp hg
  cases hg
  cases h
  exact ⟨rfl, takes_of_ensureGate hensure htake⟩

theorem gated_push (l : Local) (fs : List Frame) :
    gated (l.push fs) = fs.filter Frame.gated ++ gated l := by
  simp [gated, Local.push]

/-- The frames of the engine hold no gate. -/
theorem gated_ofEngine (l : FadeEngine.Local) (rest : List Frame) :
    gated (.ofEngine l rest) = rest.filter Frame.gated := by
  simp [gated, Local.ofEngine, List.filter_append, List.filter_map, Function.comp_def, Frame.gated]

theorem effect_beginFade {mode channel : ℕ} {fadeMode : FadeMode} {created : Bool}
    (hl : gated l' = (beginFade d mode channel fadeMode created).2.filter Frame.gated ++ gated l) :
    Effect d l (beginFade d mode channel fadeMode created).1 l' := by
  unfold beginFade at hl ⊢
  cases h : d.fadeStart mode channel fadeMode created with
  | error e => exact .quiet (.refl d) (by simpa [h] using hl)
  | ok r =>
    obtain ⟨gate, request, d'⟩ := r
    obtain ⟨hchannel, ht⟩ := takes_of_fadeStart h
    rw [h] at hl
    exact .take (hchannel ▸ ht) hl

theorem effect_channelConfig {config : Option ChannelConfig}
    (hok : Keeps d l (.call (.channelConfig config))) :
    Effect d l (d.channelConfig config).2.1
      (l.push [.publish (d.channelConfig config).2.2]) := by
  have hgated : ∀ publications, gated (l.push [.publish publications]) = gated l :=
    fun _ => gated_push l _
  unfold Driver.channelConfig
  split
  · exact .quiet (.refl d) (hgated _)
  split
  · exact .quiet (.refl d) (hgated _)
  split
  · exact .quiet (.refl d) (hgated _)
  rename_i config hvalid hargs
  simp only [Bool.or_eq_true, Bool.not_eq_true', not_or, Bool.not_eq_false] at hvalid
  dsimp only
  split
  · rename_i hdeconfigure
    exact .drop _ (hok hdeconfigure hvalid.1 hvalid.2) (hgated _)
  split
  · exact .quiet (.refl d) (hgated _)
  · exact .quiet (.setChannel rfl) (hgated _)

theorem effect_begin {c : Call} (hok : Keeps d l (.call c)) :
    Effect d l (begin d c).1 (l.push (begin d c).2) := by
  have quiet : ∀ {d' : Driver} {fs : List Frame}, SameGates d d' → fs.filter Frame.gated = [] →
      Effect d l d' (l.push fs) := fun hd hfs => .quiet hd (by rw [gated_push, hfs]; rfl)
  cases c with
  | timerConfig config originUs => exact quiet (.timerConfig config originUs) rfl
  | channelConfig config => exact effect_channelConfig hok
  | fadeFuncInstall alloc enabled => exact quiet (.fadeFuncInstall alloc enabled) rfl
  | cbRegister mode channel cbs userArg => exact quiet (.cbRegister mode channel cbs userArg) rfl
  | setDuty mode channel duty => exact quiet (.setDuty mode channel duty) rfl
  | setDutyWithHpoint mode channel duty hpoint =>
    exact quiet (.setDutyWithHpoint mode channel duty hpoint) rfl
  | updateDuty mode channel => exact quiet (.updateDuty mode channel) rfl
  | setDutyAndUpdate mode channel duty hpoint =>
    exact quiet (.setDutyAndUpdate mode channel duty hpoint) rfl
  | setFadeWithTime mode channel targetDuty desiredFadeTimeMs =>
    exact quiet (.setFadeWithTime mode channel targetDuty desiredFadeTimeMs) rfl
  | fadeStart mode channel fadeMode created => exact effect_beginFade (gated_push ..)
  | setFadeTimeAndStart mode channel targetDuty desiredFadeTimeMs fadeMode created =>
    simp only [begin]
    split
    · exact quiet (.refl d) rfl
    · refine quiet (.setFadeWithTime mode channel targetDuty desiredFadeTimeMs) ?_
      split <;> rfl
  | fadeFuncUninstall =>
    simp only [begin]
    split
    · exact quiet ⟨fun _ => rfl, fun _ _ _ => rfl, rfl, fun _ => rfl⟩ rfl
    · exact quiet (.refl d) rfl

/-- A frame with a gate gives way to frames without one. -/
theorem gated_pop {active : Bool} {f : Frame} {rest : List Frame} (hf : f.gated = true)
    (h : gated l' = rest.filter Frame.gated) : gated ⟨active, f :: rest⟩ = f :: gated l' := by
  rw [h]
  exact List.filter_cons_of_pos hf

theorem gated_serveNext (active : Bool) (index : ℕ) (rest : List Frame) :
    gated ⟨active, serveNext index ++ rest⟩ = rest.filter Frame.gated := by
  unfold serveNext
  split <;> simp [gated, Frame.gated]

theorem effect_resume {active : Bool} {f : Frame} {rest : List Frame}
    (hok : Keeps d ⟨active, f :: rest⟩ .resume) (h : resume d active rest f = some (d', l')) :
    Effect d ⟨active, f :: rest⟩ d' l' := by
  cases f with
  | engine f =>
    obtain ⟨r, hr, h⟩ := Option.map_eq_some_iff.mp h
    cases h
    exact .quiet (.of_engine (gateHeld_resume hr)) (gated_ofEngine r.2 rest)
  | publish publications =>
    cases publications with
    | nil => cases h; exact .quiet (.refl d) rfl
    | cons p publications => cases h; exact .quiet (.refl d) rfl
  | fadeStart mode channel fadeMode created =>
    simp only [resume] at h
    split at h
    · cases h
    · cases h
      exact effect_beginFade (by simp [gated, Frame.gated])
  | startEngine gate request fadeMode => cases h
  | started gate fadeMode => cases h
  | waitDone gate =>
    obtain ⟨d₁, ht, h⟩ := Option.map_eq_some_iff.mp h
    cases h
    unfold Driver.take at ht
    split at ht
    · rename_i havail
      cases ht
      refine .quiet ⟨fun _ => rfl, fun index g hg => ?_, rfl, fun _ => rfl⟩ rfl
      refine Function.update_of_ne ?_ _ _
      rintro rfl
      exact hok _ rest rfl havail index hg
    · cases ht
  | cancel index => cases h
  | clear index =>
    have hclear : SameGates d (d.clearCallbacks index) := .setChannel rfl
    simp only [resume] at h
    split at h
    · cases h
      exact .quiet hclear rfl
    · cases h
      exact .quiet ⟨hclear.gate, hclear.semaphores, hclear.count, hclear.held⟩ rfl
  | serve index =>
    simp only [resume] at h
    split at h
    · cases h
      exact .quiet (.refl d) (gated_serveNext ..)
    · rename_i completion e ht
      cases h
      obtain ⟨rfl, hheld, he⟩ := gateHeld_takeCompletion ht
      exact .complete hheld he rfl
  | publishCompletion completion =>
    simp only [resume] at h
    split at h
    · cases h
    · cases h
      have hrest : ∀ callbacks : Option (ℕ × ℕ), gated ⟨active,
          (callbacks.toList.map fun cb => .callback cb.1 cb.2 completion) ++
            serveNext completion.channel ++ rest⟩ = rest.filter Frame.gated := by
        intro callbacks
        rw [List.append_assoc]
        cases callbacks <;> exact gated_serveNext active _ rest
      exact .give (gated_pop rfl (hrest _))
  | callback cb arg completion => cases h; exact .quiet (.refl d) rfl

theorem effect_startEngine {active : Bool} {rest : List Frame} {gate : ℕ} {request : Request}
    {fadeMode : FadeMode} (nowUs : ℤ) :
    Effect d ⟨active, .startEngine gate request fadeMode :: rest⟩
      (startEngine d active rest gate request fadeMode nowUs).1
      (startEngine d active rest gate request fadeMode nowUs).2 := by
  unfold startEngine
  dsimp only
  split
  · split
    · exact .refuse rfl
    · rename_i hs
      exact .hold (gateHeld_start hs) (gated_pop rfl (gated_ofEngine ..))
  · exact .refuse rfl

theorem effect_cancelEngine {active : Bool} {rest : List Frame} {index : ℕ} (nowUs : ℤ)
    (hok : Keeps d ⟨active, .cancel index :: rest⟩ (.clock nowUs)) :
    Effect d ⟨active, .cancel index :: rest⟩ (cancelEngine d active rest index nowUs).1
      (cancelEngine d active rest index nowUs).2 := by
  have hnothing : cancelEngine d active rest index nowUs = (d, ⟨active, .clear index :: rest⟩) := by
    unfold cancelEngine
    dsimp only
    split
    · rename_i hguard
      simp only [Bool.and_eq_true, Bool.not_eq_true', decide_eq_true_eq] at hguard
      obtain ⟨harmed, hqueued⟩ := hok index rest rfl hguard.1 hguard.2
      rw [cancel_eq_none nowUs harmed hqueued]
    · rfl
  rw [hnothing]
  exact .quiet (.refl d) rfl

theorem effect_of_step {a : Event} (hok : Keeps d l a) (h : step a d l = some (d', l')) :
    Effect d l d' l' := by
  unfold step at h
  split at h
  · split at h
    · cases h
      exact effect_begin hok
    · cases h
  · split at h
    · obtain ⟨r, hr, h⟩ := Option.map_eq_some_iff.mp h
      cases h
      refine .quiet (.of_engine fun j => ?_) (gated_ofEngine ..)
      simp only [FadeEngine.begin] at hr
      split at hr
      · cases hr; rfl
      · rename_i hd
        cases hr
        exact gateHeld_deadline hd j
    · cases h
  · cases h
    exact .quiet (.refl d) rfl
  · exact effect_resume hok h
  · obtain ⟨rfl, rfl⟩ := Prod.mk.inj (Option.some.inj h)
    exact effect_startEngine _
  · obtain ⟨rfl, rfl⟩ := Prod.mk.inj (Option.some.inj h)
    exact effect_cancelEngine _ hok
  · cases h
    refine .quiet (.of_engine fun j => gateHeld_storeAlarm _ _ _ j) ?_
    rw [gated_ofEngine]
    rfl
  · cases h
    refine .quiet (.refl d) ?_
    split <;> rfl
  · cases h

end Effects

end RooTesting.LedcDriver
