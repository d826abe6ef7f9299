import RooTesting.ArduinoLedc

/-! # The completion callbacks of the Arduino LEDC calls

Every started fade is on record with what it wants called and what was called. The fade the
engine runs on a channel has its callback installed there, unless it was dropped by a detach. -/
namespace RooTesting.ArduinoLedc
open Transition Threads FadeEngine

/-- The engine holds the gate of the channel. -/
def Busy (c : FadeEngine.Channel) : Prop :=
  c.state = .armed ∨ c.state = .queued ∨ c.state = .pending

instance : DecidablePred Busy := fun c =>
  inferInstanceAs (Decidable (c.state = .armed ∨ c.state = .queued ∨ c.state = .pending))

theorem not_busy_iff {c : FadeEngine.Channel} :
    ¬ Busy c ↔ c.state = .cancelled ∨ c.state = .idle := by
  unfold Busy
  cases c.state <;> simp

/-- The channel runs the fade it ran before. -/
structure Same (c c' : FadeEngine.Channel) : Prop where
  generation : c'.generation = c.generation
  request : c'.request = c.request
  busy : Busy c' ↔ Busy c

theorem Same.refl (c : FadeEngine.Channel) : Same c c := ⟨rfl, rfl, Iff.rfl⟩

theorem Same.of_eq {c c' : FadeEngine.Channel} (h : c' = c) : Same c c' := h ▸ .refl c

section Engine

variable {e e' : Engine} {l l' : Local}

theorem same_update {channels : ℕ → FadeEngine.Channel} {i : ℕ} {c : FadeEngine.Channel}
    (h : Same (channels i) c) (j : ℕ) : Same (channels j) (Function.update channels i c j) := by
  by_cases hj : j = i
  · subst hj
    simpa using h
  · rw [Function.update_of_ne hj]
    exact .refl _

theorem deadline_same {index generation : ℕ} {drainNow : Bool}
    (h : e.deadline index generation = some (drainNow, e')) (j : ℕ) :
    Same (e.channels j) (e'.channels j) := by
  obtain ⟨-, harmed, hchannels, -⟩ := deadline_spec h
  rw [hchannels]
  apply same_update
  exact ⟨rfl, rfl, by simp [Busy, harmed]⟩

theorem finalize_same (item : Delivery) (j : ℕ) :
    Same (e.channels j) ((e.finalize item).2.channels j) := by
  by_cases h : (e.channels item.channel).generation = item.generation ∧
      (e.channels item.channel).state = .queued
  · rw [finalize_current h]
    apply same_update
    exact ⟨rfl, rfl, by simp [Busy, h.2]⟩
  · rw [finalize_stale h]
    exact .refl _

theorem storeAlarm_same (channel generation alarm j : ℕ) :
    Same (e.channels j) ((e.storeAlarm channel generation alarm).channels j) := by
  unfold Engine.storeAlarm
  dsimp only
  split
  · apply same_update
    exact ⟨rfl, rfl, Iff.rfl⟩
  · exact .refl _

theorem resume_same {active : Bool} {rest : List Frame} {f : Frame}
    (h : resume e active rest f = some (e', l')) (j : ℕ) : Same (e.channels j) (e'.channels j) := by
  cases f with
  | startAlarm channel generation drainNow => cases h
  | loop =>
    simp only [resume] at h
    cases hpop : e.pop with
    | stop =>
      rw [hpop] at h
      cases h
      exact .refl _
    | skip e₁ =>
      rw [hpop] at h
      cases h
      obtain ⟨item, -, hchannels⟩ := pop_skipped hpop
      exact .of_eq (congrFun hchannels j)
    | take item e₁ =>
      rw [hpop] at h
      cases h
      exact .of_eq (congrFun (pop_taken hpop).2.1 j)
  | finalize item =>
    cases h
    exact finalize_same item j
  | _ =>
    cases h
    exact .refl _

/-- The engine on its own starts and cancels no fade. -/
theorem internal_same {a : Event} (ha : internal a = true)
    (h : FadeEngine.step a e l = some (e', l')) (j : ℕ) : Same (e.channels j) (e'.channels j) := by
  unfold FadeEngine.step at h
  split at h
  · exact resume_same h j
  · cases h
  · cases h
    exact storeAlarm_same _ _ _ j
  · split at h
    · cases a with
      | deadline index generation =>
        simp only [begin] at h
        split at h
        · cases h
          exact .refl _
        · rename_i hd
          cases h
          exact deadline_same hd j
      | scheduled alarm => cases h
      | resume => cases h
      | _ => cases ha
    · cases h

/-- A call of the engine is its first section, made where calls may be made. -/
theorem step_begin {a : Event} (ha : internal a = false)
    (h : FadeEngine.step a e l = some (e', l')) : begin e l a = some (e', l') := by
  unfold FadeEngine.step at h
  split at h
  · cases ha
  · cases ha
  · cases ha
  · exact (Option.ite_none_right_eq_some.mp h).2

end Engine

/-- The entries of a fade whose completion was taken after its endpoint had been written. -/
structure Reached (history : List Entry) (fade : Fade) : Prop where
  started : .started fade.channel fade.generation fade.request ∈ history
  wrote : .wrote (fade.request.finalizer fade.channel fade.generation) ∈ history
  completed : .completed ⟨fade.channel, fade.generation, fade.request.targetDuty⟩ ∈ history

/-- The channel is set up to make the call. -/
def Installed (index : ℕ) (c : Channel) : Option Call → Prop
  | none => c.callback = none
  | some (.plain f) => c.callback = some .noArgument ∧ c.callbackArg = .channel index ∧
      c.noArgumentCallback = some f
  | some (.withArg f a) => c.callback = some (.user f) ∧ c.callbackArg = .user a

def Standing (index : ℕ) (c : Channel) (fade : Fade) : Prop :=
  match fade.status with
  | .live => c.attached = true ∧ Installed index c fade.wanted
  | .dropped _ => c.callback = none
  | .completed => False

/-- The record of the fade that the engine runs on a channel. -/
structure Runs (index : ℕ) (gate : FadeEngine.Channel) (c : Channel) (fade : Fade) : Prop where
  busy : Busy gate
  channel : fade.channel = index
  generation : fade.generation = gate.generation
  request : fade.request = gate.request
  calls : fade.calls = []
  standing : Standing index c fade

namespace World

def Slot (w : World) (index : ℕ) : Prop :=
  match w.live index with
  | none => ¬ Busy (w.gate index) ∧ (w.channels index).callback = none
  | some id => id < w.started ∧ Runs index (w.gate index) (w.channels index) (w.fades id)

/-- A fade waits for its completion on its channel, was dropped before its deadline and never
called anything, or called exactly what it wanted after its endpoint had been written. -/
def Settled (w : World) (id : ℕ) : Prop :=
  match (w.fades id).status with
  | .live => w.live (w.fades id).channel = some id ∧ (w.fades id).calls = []
  | .dropped late => (w.fades id).calls = [] ∧ (late = true → (w.fades id).wanted = none)
  | .completed => (w.fades id).calls = (w.fades id).wanted.toList ∧
      Reached w.engine.2 (w.fades id)

end World

structure Core (w : World) : Prop where
  slots : ∀ index, w.Slot index
  settled : ∀ id < w.started, w.Settled id
  told : Told w.engine

/-- The pins lead to attached channels and back. -/
def Pins (soc : Soc) (w : World) : Prop :=
  ∀ pin index, w.pinChannel pin = some index →
    (w.channels index).attached = true ∧ (w.channels index).pin = pin ∧ index < soc.channels

variable {w w' : World} {index : ℕ}

theorem Reached.append {k h : List Entry} {fade : Fade} (hr : Reached h fade) :
    Reached (k ++ h) fade :=
  ⟨List.mem_append_right k hr.started, List.mem_append_right k hr.wrote,
    List.mem_append_right k hr.completed⟩

/-- What a call of the engine leaves alone. -/
structure Kept (w w' : World) : Prop where
  channels : w'.channels = w.channels
  pinChannel : w'.pinChannel = w.pinChannel
  fadeInterrupt : w'.fadeInterrupt = w.fadeInterrupt
  isr : w'.isr = w.isr
  started : w'.started = w.started
  fades : w'.fades = w.fades
  live : w'.live = w.live
  history : ∃ k, w'.engine.2 = k ++ w.engine.2

theorem enter_kept {t : ℕ} {a : Event} (h : w.enter t a = some w') :
    Kept w w' ∧ ∃ e l, FadeEngine.step a w.engine.1.shared (w.engine.1.thread t) = some (e, l) ∧
      w'.engine = (⟨e, Function.update w.engine.1.thread t l⟩,
        observe w.engine.1.shared (w.engine.1.thread t) a ++ w.engine.2) := by
  obtain ⟨x, hx, rfl⟩ := Option.map_eq_some_iff.mp h
  obtain ⟨c, hfire, rfl⟩ := Option.map_eq_some_iff.mp hx
  obtain ⟨e, l, hstep, rfl⟩ := fire_eq_some.mp hfire
  exact ⟨⟨rfl, rfl, rfl, rfl, rfl, rfl, rfl, _, rfl⟩, e, l, hstep, rfl⟩

/-- No generation counter is about to wrap. -/
def Unwrapped (soc : Soc) (w : World) : Prop :=
  ∀ index < soc.channels, (w.gate index).generation + 1 < uint64Size

/-- The section of the engine that takes a new generation of the channel. -/
def renews (index : ℕ) : Event → Prop
  | .start r _ => index = r.channel
  | .cancel i _ => index = i
  | _ => False

theorem enter_told {t : ℕ} {a : Event}
    (hwrap : ∀ index, renews index a → (w.gate index).generation + 1 < uint64Size)
    (hw : Told w.engine) (h : w.enter t a = some w') : Told w'.engine := by
  obtain ⟨x, hx, rfl⟩ := Option.map_eq_some_iff.mp h
  refine told_step ?_ hx hw
  cases a with
  | start r nowUs => exact hwrap r.channel rfl
  | cancel index nowUs => exact hwrap index rfl
  | _ => trivial

/-- The record of a fade that a step does not touch. -/
theorem Settled.keep {id : ℕ} (h : w.Settled id) (hfade : w'.fades id = w.fades id)
    (hlive : (w.fades id).status = .live → w'.live (w.fades id).channel = w.live (w.fades id).channel)
    (hhistory : ∃ k, w'.engine.2 = k ++ w.engine.2) : w'.Settled id := by
  obtain ⟨k, hk⟩ := hhistory
  unfold World.Settled at h ⊢
  rw [hfade, hk]
  cases hs : (w.fades id).status with
  | live =>
    rw [hs] at h
    rw [hlive hs]
    exact h
  | dropped late =>
    rw [hs] at h
    exact h
  | completed =>
    rw [hs] at h
    exact ⟨h.1, h.2.append⟩

theorem settled_dropped {id : ℕ} {late : Bool} (hs : (w.fades id).status = .dropped late)
    (hcalls : (w.fades id).calls = []) (hlate : late = true → (w.fades id).wanted = none) :
    w.Settled id := by
  rw [World.Settled, hs]
  exact ⟨hcalls, hlate⟩

/-- A step after which every channel runs the fade it ran before. -/
theorem Core.keep (hw : Core w) (hk : Kept w w') (htold : Told w'.engine)
    (hsame : ∀ i, Same (w.gate i) (w'.gate i)) : Core w' where
  slots i := by
    have hslot := hw.slots i
    unfold World.Slot at hslot ⊢
    rw [hk.live]
    cases hlive : w.live i with
    | none =>
      rw [hlive] at hslot
      exact ⟨fun hb => hslot.1 ((hsame i).busy.mp hb), hk.channels ▸ hslot.2⟩
    | some id =>
      rw [hlive] at hslot
      obtain ⟨hid, hruns⟩ := hslot
      rw [hk.started, hk.fades, hk.channels]
      exact ⟨hid, (hsame i).busy.mpr hruns.busy, hruns.channel,
        hruns.generation.trans (hsame i).generation.symm,
        hruns.request.trans (hsame i).request.symm, hruns.calls, hruns.standing⟩
  settled id hid := Settled.keep (hw.settled id (hk.started ▸ hid)) (congrFun hk.fades id)
    (fun _ => congrFun hk.live _) hk.history
  told := htold

theorem not_renews {a : Event} (ha : internal a = true) (index : ℕ) : ¬ renews index a := by
  cases a with
  | start r nowUs => cases ha
  | cancel i nowUs => cases ha
  | _ => exact id

theorem Core.internal (hw : Core w) {t : ℕ} {a : Event} (ha : internal a = true)
    (h : w.enter t a = some w') : Core w' := by
  obtain ⟨hk, e, l, hstep, hengine⟩ := enter_kept h
  refine hw.keep hk (enter_told (fun i hi => absurd hi (not_renews ha i)) hw.told h) fun i => ?_
  rw [World.gate, World.gate, hengine]
  exact internal_same ha hstep i

theorem drop_eq (w : World) (index : ℕ) (late : Bool) : w.drop index late = { w with
    fades := fun id => if w.live index = some id ∧ (w.fades id).status = .live then
      { w.fades id with status := .dropped late } else w.fades id } := by
  unfold World.drop
  cases hlive : w.live index with
  | none => simp
  | some id =>
    by_cases hs : (w.fades id).status = .live
    · simp only [hs, if_true]
      congr 1
      funext other
      by_cases ho : other = id
      · subst ho
        simp [hs]
      · simp [Function.update_of_ne ho, Ne.symm ho]
    · have hsame : (fun other => if some id = some other ∧ (w.fades other).status = .live then
          { w.fades other with status := .dropped late } else w.fades other) = w.fades := by
        funext other
        by_cases ho : id = other
        · subst ho
          simp [hs]
        · simp [ho]
      rw [hsame]
      exact if_neg hs

theorem settle_eq (w : World) (index : ℕ) : w.settle index = { w with
    live := if Busy (w.gate index) then w.live else Function.update w.live index none } := by
  unfold World.settle
  by_cases hb : Busy (w.gate index)
  · rw [if_pos hb, if_neg fun h => not_busy_iff.mpr h hb]
  · rw [if_neg hb, if_pos (not_busy_iff.mp hb)]

/-- `Cancel` leaves a channel as it was or cancelled. -/
theorem cancel_gate {e e' : Engine} {l l' : Local} {nowUs : ℤ}
    (h : begin e l (.cancel index nowUs) = some (e', l')) :
    (∀ j, j ≠ index → e'.channels j = e.channels j) ∧
      (e'.channels index = e.channels index ∨ ¬ Busy (e'.channels index)) := by
  simp only [begin] at h
  split at h
  · split at h
    · cases h
      exact ⟨fun _ _ => rfl, Or.inl rfl⟩
    · rename_i alarm drainNow e₁ hc
      cases h
      unfold Engine.cancel at hc
      dsimp only at hc
      split at hc
      · obtain ⟨-, hc⟩ := Prod.mk.inj (Option.some.inj hc)
        obtain ⟨-, rfl⟩ := Prod.mk.inj hc
        constructor
        · intro j hj
          exact Function.update_of_ne hj _ _
        · apply Or.inr
          simp [Busy]
      · cases hc
  · cases h
    exact ⟨fun _ _ => rfl, Or.inl rfl⟩

/-- The fade that a release drops was still before its deadline, or wants nothing called. -/
def NotLate (w : World) (index : ℕ) (nowUs : ℤ) : Prop :=
  ∀ id, w.live index = some id → (w.fades id).status = .live → (w.fades id).wanted ≠ none →
    w.pastDeadline index nowUs = false

theorem release_eq {t : ℕ} {nowUs : ℤ} (h : w.release t index nowUs = some w') :
    ∃ v, (w.drop index (w.pastDeadline index nowUs)).enter t (.cancel index nowUs) = some v ∧
      w' = (v.settle index).setChannel index {} := by
  obtain ⟨v, hv, rfl⟩ := Option.map_eq_some_iff.mp h
  exact ⟨v, hv, rfl⟩

/-- A detached channel calls nothing. -/
theorem Runs.drop {gate : FadeEngine.Channel} {c : Channel} {fade : Fade} {late : Bool}
    (h : Runs index gate c fade) :
    Runs index gate {} (if fade.status = .live then { fade with status := .dropped late }
      else fade) := by
  by_cases hs : fade.status = .live
  · rw [if_pos hs]
    exact ⟨h.busy, h.channel, h.generation, h.request, h.calls, rfl⟩
  · rw [if_neg hs]
    refine ⟨h.busy, h.channel, h.generation, h.request, h.calls, ?_⟩
    have hstanding := h.standing
    unfold Standing at hstanding ⊢
    cases hst : fade.status with
    | live => exact absurd hst hs
    | dropped late => rfl
    | completed => rwa [hst] at hstanding

theorem Runs.of_eq {gate gate' : FadeEngine.Channel} {c c' : Channel} {fade fade' : Fade}
    (h : Runs index gate c fade) (hg : gate' = gate) (hc : c' = c) (hf : fade' = fade) :
    Runs index gate' c' fade' := by
  subst hg hc hf
  exact h

theorem slot_none (hlive : w.live index = none) (hb : ¬ Busy (w.gate index))
    (hc : (w.channels index).callback = none) : w.Slot index := by
  rw [World.Slot, hlive]
  exact ⟨hb, hc⟩

theorem slot_some {id : ℕ} (hlive : w.live index = some id) (hid : id < w.started)
    (hruns : Runs index (w.gate index) (w.channels index) (w.fades id)) : w.Slot index := by
  rw [World.Slot, hlive]
  exact ⟨hid, hruns⟩

theorem Core.live_none (hw : Core w) (h : w.live index = none) :
    ¬ Busy (w.gate index) ∧ (w.channels index).callback = none := by
  have := hw.slots index
  rwa [World.Slot, h] at this

theorem Core.live_channel (hw : Core w) {id : ℕ} (h : w.live index = some id) :
    id < w.started ∧ Runs index (w.gate index) (w.channels index) (w.fades id) := by
  have := hw.slots index
  rwa [World.Slot, h] at this

theorem Core.release (hw : Core w) (hwrap : (w.gate index).generation + 1 < uint64Size) {t : ℕ}
    {nowUs : ℤ} (hlate : NotLate w index nowUs) (h : w.release t index nowUs = some w') :
    Core w' ∧ w'.channels = Function.update w.channels index {} ∧
      w'.pinChannel = w.pinChannel := by
  obtain ⟨v, hv, rfl⟩ := release_eq h
  have htold := enter_told (w := w.drop index (w.pastDeadline index nowUs))
    (fun i hi => by rw [drop_eq, show i = index from hi]; exact hwrap)
    (by rw [drop_eq]; exact hw.told) hv
  obtain ⟨hk, e, l, hstep, hengine⟩ := enter_kept hv
  have hgate : ∀ j, v.gate j = e.channels j := fun j => by rw [World.gate, hengine]
  obtain ⟨hothers, hmine⟩ := cancel_gate (step_begin rfl hstep)
  rw [drop_eq] at hothers hmine hk
  -- the dropped fade is the only one whose record changes
  have hfades : ∀ id, w.live index ≠ some id → v.fades id = w.fades id := by
    intro id hid
    rw [hk.fades]
    exact if_neg fun hand => hid hand.1
  rw [settle_eq]
  refine ⟨⟨fun i => ?_, fun id hid => ?_, htold⟩, ?_, ?_⟩
  · by_cases hi : i = index
    · subst hi
      by_cases hb : Busy (v.gate i)
      · -- the engine was not asked, or it had the completion waiting already
        have heq : v.gate i = w.gate i := by
          rw [hgate] at hb ⊢
          exact hmine.resolve_right (not_not_intro hb)
        cases hlive : w.live i with
        | none => exact absurd (heq ▸ hb) (hw.live_none hlive).1
        | some id =>
          obtain ⟨hid, hruns⟩ := hw.live_channel hlive
          refine slot_some (show (_ : Option ℕ) = some id from ?_) ?_ ?_
          · simp only [World.setChannel, if_pos hb, hk.live, hlive]
          · exact hk.started ▸ hid
          · have hfade := congrFun hk.fades id
            simp only [hlive, true_and] at hfade
            exact hruns.drop.of_eq heq (Function.update_self _ _ _) hfade
      · apply slot_none
        · simp only [World.setChannel, if_neg hb, Function.update_self]
        · exact hb
        · simp only [World.setChannel, Function.update_self]
    · have hlive : (if Busy (v.gate index) then v.live else Function.update v.live index none) i =
          w.live i := by
        split
        · rw [hk.live]
        · rw [Function.update_of_ne hi, hk.live]
      have hgatei : v.gate i = w.gate i := (hgate i).trans (hothers i hi)
      have hchannel : Function.update v.channels index {} i = w.channels i := by
        rw [Function.update_of_ne hi, hk.channels]
      cases hold : w.live i with
      | none =>
        obtain ⟨hb, hc⟩ := hw.live_none hold
        apply slot_none
        · exact hlive.trans hold
        · exact hgatei ▸ hb
        · exact (congrArg Channel.callback hchannel).trans hc
      | some id =>
        obtain ⟨hid, hruns⟩ := hw.live_channel hold
        have hne : w.live index ≠ some id := by
          intro hid'
          exact hi (hruns.channel.symm.trans (hw.live_channel hid').2.channel)
        apply slot_some (hlive.trans hold) (hk.started ▸ hid)
        exact hruns.of_eq hgatei hchannel (hfades id hne)
  · have hset := hw.settled id (hk.started ▸ hid)
    by_cases hmine : w.live index = some id
    · obtain ⟨-, hruns⟩ := hw.live_channel hmine
      have hfade := congrFun hk.fades id
      simp only [hmine, true_and] at hfade
      by_cases hs : (w.fades id).status = .live
      · rw [if_pos hs] at hfade
        apply settled_dropped
        · exact congrArg Fade.status hfade
        · exact (congrArg Fade.calls hfade).trans hruns.calls
        · intro hpast
          refine (congrArg Fade.wanted hfade).trans ?_
          by_contra hwanted
          rw [hlate id hmine hs hwanted] at hpast
          cases hpast
      · rw [if_neg hs] at hfade
        exact Settled.keep hset hfade (fun h => absurd h hs) hk.history
    · apply Settled.keep hset
      · exact hfades id hmine
      · intro hs
        have hlive : w.live (w.fades id).channel = some id := by
          have := hset
          unfold World.Settled at this
          rw [hs] at this
          exact this.1
        have hne : (w.fades id).channel ≠ index := fun heq => hmine (heq ▸ hlive)
        simp only [World.setChannel, hk.live]
        split
        · rfl
        · rw [Function.update_of_ne hne]
      · exact hk.history
  · exact congrArg (fun f => Function.update f index {}) hk.channels
  · exact hk.pinChannel

/-- A channel whose fade is not to call anything may be set up anew. -/
theorem Core.setChannel (hw : Core w) {c : Channel} (hc : c.callback = none)
    (hfree : ∀ id, w.live index = some id → (w.fades id).status ≠ .live) :
    Core (w.setChannel index c) where
  slots i := by
    by_cases hi : i = index
    · subst hi
      have hchannel : (w.setChannel i c).channels i = c := Function.update_self _ _ _
      cases hlive : w.live i with
      | none =>
        exact slot_none hlive (hw.live_none hlive).1 ((congrArg Channel.callback hchannel).trans hc)
      | some id =>
        obtain ⟨hid, hruns⟩ := hw.live_channel hlive
        refine slot_some hlive hid
          ⟨hruns.busy, hruns.channel, hruns.generation, hruns.request, hruns.calls, ?_⟩
        have hstanding := hruns.standing
        unfold Standing at hstanding ⊢
        cases hs : (w.fades id).status with
        | live => exact absurd hs (hfree id hlive)
        | dropped late =>
          rw [show ((w.setChannel i c).fades id).status = _ from hs, hchannel]
          exact hc
        | completed =>
          rw [hs] at hstanding
          exact hstanding.elim
    · have hchannel : (w.setChannel index c).channels i = w.channels i := Function.update_of_ne hi _ _
      cases hlive : w.live i with
      | none => exact slot_none hlive (hw.live_none hlive).1 (hchannel ▸ (hw.live_none hlive).2)
      | some id =>
        obtain ⟨hid, hruns⟩ := hw.live_channel hlive
        exact slot_some hlive hid (hruns.of_eq rfl hchannel rfl)
  settled id hid := Settled.keep (hw.settled id hid) rfl (fun _ => rfl) ⟨[], rfl⟩
  told := hw.told

theorem Core.settled_live (hw : Core w) {id : ℕ} (hid : id < w.started)
    (hs : (w.fades id).status = .live) :
    w.live (w.fades id).channel = some id ∧ (w.fades id).calls = [] := by
  have := hw.settled id hid
  rwa [World.Settled, hs] at this

/-- A channel that is not attached has no fade that is to call anything. -/
theorem Core.not_live (hw : Core w) (hattached : (w.channels index).attached = false) (id : ℕ)
    (hlive : w.live index = some id) : (w.fades id).status ≠ .live := by
  intro hs
  have hstanding := (hw.live_channel hlive).2.standing
  rw [Standing, hs] at hstanding
  rw [hattached] at hstanding
  cases hstanding.1

theorem Core.rebind (hw : Core w) (pinChannel : ℕ → Option ℕ) :
    Core { w with pinChannel := pinChannel } :=
  ⟨hw.slots, hw.settled, hw.told⟩

/-- The two invariants of the calls. -/
def Inv (soc : Soc) (w : World) : Prop := Core w ∧ Pins soc w

theorem Pins.of_forPin {soc : Soc} (h : Pins soc w) {pin : ℕ} (hpin : w.forPin soc pin = some index) :
    w.pinChannel pin = some index ∧ (w.channels index).attached = true ∧
      (w.channels index).pin = pin ∧ index < soc.channels := by
  unfold World.forPin at hpin
  split at hpin
  · exact ⟨hpin, h pin index hpin⟩
  · cases hpin

/-- The pin of a channel that is detached leads nowhere. -/
theorem Pins.unbind {soc : Soc} (h : Pins soc w) {pin : ℕ}
    (hpin : ∀ q, w.pinChannel q = some index → q = pin)
    {channels : ℕ → Channel} (hchannels : channels = Function.update w.channels index {}) :
    Pins soc { w with channels := channels, pinChannel := Function.update w.pinChannel pin none } := by
  intro q i hq
  by_cases hqp : q = pin
  · subst hqp
    simp at hq
  · have hold : w.pinChannel q = some i := by simpa [Function.update_of_ne hqp] using hq
    have hne : i ≠ index := fun heq => hqp (hpin q (heq ▸ hold))
    simp only [hchannels, Function.update_of_ne hne]
    exact h q i hold

theorem Pins.congr {soc : Soc} (h : Pins soc w) (hchannels : w'.channels = w.channels)
    (hpins : w'.pinChannel = w.pinChannel) : Pins soc w' := by
  intro pin i hpin
  rw [hpins] at hpin
  rw [hchannels]
  exact h pin i hpin

theorem Inv.detach {soc : Soc} (hw : Inv soc w) (hwrap : Unwrapped soc w) {t pin : ℕ} {nowUs : ℤ}
    (hlate : ∀ index, w.forPin soc pin = some index → NotLate w index nowUs)
    (h : w.ledcDetach soc t pin nowUs = some w') : Inv soc w' := by
  unfold World.ledcDetach at h
  cases hpin : w.forPin soc pin with
  | none =>
    rw [hpin] at h
    cases h
    exact hw
  | some index =>
    rw [hpin] at h
    obtain ⟨v, hv, rfl⟩ := Option.map_eq_some_iff.mp h
    obtain ⟨hbound, -, hmine, hlt⟩ := hw.2.of_forPin hpin
    obtain ⟨hcore, hchannels, hpins⟩ := hw.1.release (hwrap index hlt) (hlate index hpin) hv
    refine ⟨hcore.rebind _, ?_⟩
    have honly : ∀ q, w.pinChannel q = some index → q = pin := fun q hq =>
      (hw.2 q index hq).2.1.symm.trans hmine
    rw [hpins]
    exact (hw.2.unbind honly hchannels).congr rfl rfl

/-- Taking a channel away from its pin leaves it unattached. -/
theorem Inv.reassign {soc : Soc} (hw : Inv soc w) {t channel : ℕ} {nowUs : ℤ}
    (hwrap : (w.gate channel).generation + 1 < uint64Size)
    (hlate : (w.channels channel).attached = true → NotLate w channel nowUs)
    (h : w.reassign t channel nowUs = some w') :
    Inv soc w' ∧ (w'.channels channel).attached = false := by
  unfold World.reassign at h
  by_cases hattached : (w.channels channel).attached = true
  · rw [if_pos hattached] at h
    obtain ⟨v, hv, rfl⟩ := Option.map_eq_some_iff.mp h
    obtain ⟨hcore, hchannels, hpins⟩ := hw.1.release hwrap (hlate hattached) hv
    refine ⟨⟨hcore.rebind _, ?_⟩, ?_⟩
    · have honly : ∀ q, w.pinChannel q = some channel → q = (w.channels channel).pin :=
        fun q hq => (hw.2 q channel hq).2.1.symm
      rw [hpins]
      exact (hw.2.unbind honly hchannels).congr rfl rfl
    · rw [hchannels, Function.update_self]
  · rw [if_neg hattached] at h
    cases h
    exact ⟨hw, by simpa using hattached⟩

theorem Inv.attachChannel {soc : Soc} (hw : Inv soc w) (hwrap : Unwrapped soc w)
    {t pin frequency resolution channel : ℕ} {claimed : Bool} {nowUs : ℤ}
    (hlate : soc.isOutputPin pin = true → channel < soc.channels → w.pinChannel pin = none →
      (w.channels channel).attached = true → NotLate w channel nowUs)
    (h : w.ledcAttachChannel soc t pin frequency resolution channel claimed nowUs = some w') :
    Inv soc w' := by
  unfold World.ledcAttachChannel at h
  split at h
  · cases h
    exact hw
  · rename_i hchecks
    obtain ⟨hfree, h⟩ := Option.ite_none_left_eq_some.mp h
    obtain ⟨v, hv, rfl⟩ := Option.map_eq_some_iff.mp h
    have hlt : channel < soc.channels := by
      by_contra hge
      exact hchecks (Or.inr (Or.inl (Nat.le_of_not_lt hge)))
    have houtput : soc.isOutputPin pin = true := by
      by_contra hno
      exact hchecks (Or.inl (by simpa using hno))
    obtain ⟨⟨hcore, hpins⟩, hattached⟩ :=
      hw.reassign (hwrap channel hlt) (hlate houtput hlt (not_not.mp hfree)) hv
    -- nothing led to the channel any more
    have hunbound : ∀ q, v.pinChannel q ≠ some channel := by
      intro q hq
      rw [(hpins q channel hq).1] at hattached
      cases hattached
    have hothers : ∀ (c : Channel) q i, v.pinChannel q = some i →
        (v.setChannel channel c).channels i = v.channels i := by
      intro c q i hq
      have hne : i ≠ channel := by
        rintro rfl
        exact hunbound q hq
      exact Function.update_of_ne hne _ _
    cases claimed with
    | true =>
      refine ⟨(hcore.setChannel rfl (hcore.not_live hattached)).rebind _, fun q i hq => ?_⟩
      by_cases hqp : q = pin
      · subst hqp
        have hi : some channel = some i := by simpa using hq
        cases hi
        simpa [World.setChannel] using hlt
      · have hold : v.pinChannel q = some i := by simpa [Function.update_of_ne hqp] using hq
        have := hpins q i hold
        rw [← hothers _ q i hold] at this
        exact this
    | false =>
      refine ⟨hcore.setChannel rfl (hcore.not_live hattached), fun q i hq => ?_⟩
      have := hpins q i hq
      rw [← hothers {} q i hq] at this
      exact this

/-- A section of the engine that leaves every channel with the fade it had. -/
theorem Inv.keep {soc : Soc} (hw : Inv soc w) (hk : Kept w w') (htold : Told w'.engine)
    (hsame : ∀ i, Same (w.gate i) (w'.gate i)) : Inv soc w' :=
  ⟨hw.1.keep hk htold hsame, hw.2.congr hk.channels hk.pinChannel⟩

theorem Inv.internal {soc : Soc} (hw : Inv soc w) {t : ℕ} {a : Event} (ha : internal a = true)
    (h : w.enter t a = some w') : Inv soc w' :=
  ⟨hw.1.internal ha h, hw.2.congr (enter_kept h).1.channels (enter_kept h).1.pinChannel⟩

theorem Inv.ensureFadeInterrupt {soc : Soc} (hw : Inv soc w) {t : ℕ} {ensured ok : Bool}
    (h : w.ensureFadeInterrupt t ensured = some (ok, w')) :
    Inv soc w' ∧ w'.channels = w.channels ∧ w'.pinChannel = w.pinChannel ∧
      ∀ i, w'.gate i = w.gate i := by
  unfold World.ensureFadeInterrupt at h
  split at h
  · cases h
    exact ⟨hw, rfl, rfl, fun _ => rfl⟩
  · split at h
    · obtain ⟨v, hv, heq⟩ := Option.map_eq_some_iff.mp h
      obtain ⟨-, rfl⟩ := Prod.mk.inj heq
      obtain ⟨hk, e, l, hstep, hengine⟩ := enter_kept hv
      have hgate : ∀ i, v.gate i = w.gate i := by
        intro i
        have hb := step_begin rfl hstep
        simp only [begin] at hb
        cases hb
        rw [World.gate, hengine]
        rfl
      have hinv : Inv soc v := hw.keep hk (enter_told (fun _ => False.elim) hw.1.told hv)
        fun i => .of_eq (hgate i)
      exact ⟨⟨⟨hinv.1.slots, hinv.1.settled, hinv.1.told⟩, hinv.2⟩, hk.channels, hk.pinChannel,
        hgate⟩
    · cases h
      exact ⟨hw, rfl, rfl, fun _ => rfl⟩

theorem not_busy_of_fadeActive {soc : Soc} (hlt : index < soc.channels)
    (h : w.fadeActive index = false) : ¬ Busy (w.gate index) := by
  have hchannels : ¬ kChannels ≤ index := Nat.not_le.mpr (Nat.lt_of_lt_of_le hlt soc.channels_le)
  simp only [World.fadeActive, Engine.snapshot, if_neg hchannels, Bool.or_eq_false_iff,
    decide_eq_false_iff_not] at h
  rintro (hs | hs | hs)
  · exact h.1.1 hs
  · exact h.1.2 hs
  · exact h.2 hs

theorem start_idle {e : Engine} {r : Request} {nowUs : ℤ} {z : ℕ × Bool × Engine}
    (h : e.start r nowUs = some z) : ¬ Busy (e.channels r.channel) := by
  unfold Engine.start at h
  dsimp only at h
  obtain ⟨hstate, -⟩ := Option.ite_none_right_eq_some.mp h
  exact not_busy_iff.mpr hstate.symm

/-- A `Start` that is not accepted leaves the engine as it was. -/
theorem start_refused {t : ℕ} {r : Request} {nowUs : ℤ} (h : w.enter t (.start r nowUs) = some w')
    (hno : w.accepts t r nowUs = false) (i : ℕ) : w'.gate i = w.gate i := by
  obtain ⟨hk, e, l, hstep, hengine⟩ := enter_kept h
  have hb := step_begin rfl hstep
  simp only [begin] at hb
  rw [World.gate, hengine]
  split at hb
  · rename_i hguard
    cases hs : w.engine.1.shared.start r nowUs with
    | none =>
      rw [hs] at hb
      cases hb
      rfl
    | some z =>
      rw [World.accepts, hguard, hs] at hno
      cases hno
  · cases hb
    rfl

theorem start_accepted {t : ℕ} {r : Request} {nowUs : ℤ}
    (hwrap : (w.gate r.channel).generation + 1 < uint64Size)
    (h : w.enter t (.start r nowUs) = some w') (hyes : w.accepts t r nowUs = true) :
    ¬ Busy (w.gate r.channel) ∧ Busy (w'.gate r.channel) ∧ (w'.gate r.channel).request = r ∧
      ∀ i, i ≠ r.channel → w'.gate i = w.gate i := by
  obtain ⟨hk, e, l, hstep, hengine⟩ := enter_kept h
  have hb := step_begin rfl hstep
  rw [World.accepts, Bool.and_eq_true] at hyes
  simp only [begin, if_pos hyes.1] at hb
  obtain ⟨⟨generation, drainNow, e₁⟩, hs⟩ := Option.isSome_iff_exists.mp hyes.2
  rw [hs] at hb
  cases hb
  obtain ⟨-, c, hchannels, hr, -, hstate, -⟩ := start_spec hs hwrap
  have hgate : ∀ i, w'.gate i = Function.update w.engine.1.shared.channels r.channel c i := by
    intro i
    rw [World.gate, hengine, hchannels]
  refine ⟨start_idle hs, ?_, ?_, fun i hi => ?_⟩
  · rw [hgate, Function.update_self]
    rcases hstate with ha | ⟨hq, -⟩
    · exact Or.inl ha
    · exact Or.inr (Or.inl hq)
  · rw [hgate, Function.update_self]
    exact hr
  · rw [hgate, Function.update_of_ne hi]
    rfl

/-- The record of a new fade on a channel that was free. -/
theorem Core.begun (hw : Core w) {v : World} (hk : Kept w v) (htold : Told v.engine) {r : Request}
    {wanted : Option Call} {c : Channel} (hidle : ¬ Busy (w.gate index)) (hbusy : Busy (v.gate index))
    (hrequest : (v.gate index).request = r) (hothers : ∀ i, i ≠ index → v.gate i = w.gate i)
    (hattached : c.attached = true) (hc : Installed index c wanted) :
    Core ((v.setChannel index c).begun index r wanted) where
  slots i := by
    by_cases hi : i = index
    · subst hi
      refine slot_some (show (_ : Option ℕ) = some v.started from ?_) ?_ ?_
      · exact Function.update_self _ _ _
      · exact Nat.lt_succ_self _
      · have hruns : Runs i (v.gate i) c ⟨i, (v.gate i).generation, r, wanted, .live, []⟩ :=
          ⟨hbusy, rfl, rfl, hrequest.symm, rfl, hattached, hc⟩
        exact hruns.of_eq rfl (Function.update_self _ _ _) (Function.update_self _ _ _)
    · have hlive : ((v.setChannel index c).begun index r wanted).live i = w.live i :=
        (Function.update_of_ne hi _ _).trans (congrFun hk.live i)
      have hchannel : (v.setChannel index c).channels i = w.channels i :=
        (Function.update_of_ne hi _ _).trans (congrFun hk.channels i)
      cases hold : w.live i with
      | none =>
        obtain ⟨hb, hn⟩ := hw.live_none hold
        apply slot_none (hlive.trans hold)
        · exact fun h => hb ((congrArg Busy (hothers i hi)).mp h)
        · exact (congrArg Channel.callback hchannel).trans hn
      | some id =>
        obtain ⟨hid, hruns⟩ := hw.live_channel hold
        have hne : id ≠ v.started := by
          rw [hk.started]
          exact Nat.ne_of_lt hid
        apply slot_some (hlive.trans hold)
        · rw [← hk.started] at hid
          exact Nat.lt_succ_of_lt hid
        · exact hruns.of_eq (hothers i hi) hchannel
            ((Function.update_of_ne hne _ _).trans (congrFun hk.fades id))
  settled id hid := by
    rcases Nat.lt_or_eq_of_le (Nat.lt_succ_iff.mp hid) with hlt | heq
    · have hold : id < w.started := hk.started ▸ hlt
      have hne : id ≠ v.started := Nat.ne_of_lt hlt
      apply Settled.keep (hw.settled id hold)
      · exact (Function.update_of_ne hne _ _).trans (congrFun hk.fades id)
      · intro hs
        have hlive := (hw.settled_live hold hs).1
        have hch : (w.fades id).channel ≠ index := fun h =>
          hidle (h ▸ (hw.live_channel hlive).2.busy)
        exact (Function.update_of_ne hch _ _).trans (congrFun hk.live _)
      · exact hk.history
    · subst heq
      have hfade : ((v.setChannel index c).begun index r wanted).fades v.started =
          ⟨index, (v.gate index).generation, r, wanted, .live, []⟩ := Function.update_self _ _ _
      rw [World.Settled, show (v.setChannel index c).started = v.started from rfl, hfade]
      exact ⟨Function.update_self _ _ _, rfl⟩
  told := htold

/-- A channel may be set up anew with the pin it has. -/
theorem Pins.setChannel {soc : Soc} (h : Pins soc w) {c : Channel}
    (hattached : c.attached = (w.channels index).attached) (hpin : c.pin = (w.channels index).pin) :
    Pins soc (w.setChannel index c) := by
  intro pin i hi
  obtain ⟨ha, hp, hlt⟩ := h pin i hi
  by_cases hix : i = index
  · subst hix
    simp only [World.setChannel, Function.update_self, hattached, hpin]
    exact ⟨ha, hp, hlt⟩
  · simp only [World.setChannel, Function.update_of_ne hix]
    exact ⟨ha, hp, hlt⟩

theorem Core.idle_free (hw : Core w) (hidle : ¬ Busy (w.gate index)) (id : ℕ)
    (hlive : w.live index = some id) : (w.fades id).status ≠ .live :=
  fun _ => hidle (hw.live_channel hlive).2.busy

theorem Inv.startRequest {soc : Soc} (hw : Inv soc w)
    (hwrap : (w.gate index).generation + 1 < uint64Size) {t : ℕ} {c : FadeCall}
    {callback : Option Function} {arg : Argument} {wanted : Option Call}
    (hidle : ¬ Busy (w.gate index)) (hattached : (w.channels index).attached = true)
    (hc : ∀ duty, Installed index { w.channels index with
      duty := duty, callback := callback, callbackArg := arg } wanted)
    (h : w.startRequest t index c callback arg wanted = some w') : Inv soc w' := by
  have hrenews : ∀ i, renews i (.start (w.request index c) c.nowUs) →
      (w.gate i).generation + 1 < uint64Size := by
    intro i hi
    rw [show i = index from hi]
    exact hwrap
  unfold World.startRequest at h
  dsimp only at h
  cases hyes : w.accepts t (w.request index c) c.nowUs with
  | true =>
    rw [if_pos hyes] at h
    obtain ⟨v, hv, rfl⟩ := Option.map_eq_some_iff.mp h
    obtain ⟨hk, -⟩ := enter_kept hv
    obtain ⟨-, hbusy, hrequest, hothers⟩ := start_accepted hwrap hv hyes
    refine ⟨hw.1.begun hk (enter_told hrenews hw.1.told hv) hidle hbusy hrequest hothers hattached
      (hc _), ?_⟩
    apply Pins.congr (w := v.setChannel index { w.channels index with
      duty := (w.request index c).startDuty, callback := callback, callbackArg := arg })
    · apply (hw.2.congr hk.channels hk.pinChannel).setChannel
      · rw [hk.channels]
      · rw [hk.channels]
    · rfl
    · rfl
  | false =>
    rw [if_neg (by simp [hyes])] at h
    obtain ⟨v, hv, rfl⟩ := Option.map_eq_some_iff.mp h
    obtain ⟨hk, -⟩ := enter_kept hv
    have hsame := start_refused hv hyes
    have hkept : Inv soc v :=
      hw.keep hk (enter_told hrenews hw.1.told hv) fun i => .of_eq (hsame i)
    constructor
    · apply hkept.1.setChannel rfl
      apply hkept.1.idle_free
      rw [hsame index]
      exact hidle
    · apply hkept.2.setChannel
      · rw [hk.channels]
      · rw [hk.channels]

theorem Inv.startFade {soc : Soc} (hw : Inv soc w) (hwrap : Unwrapped soc w) {t : ℕ} {c : FadeCall}
    {callback : Option Function} {arg : Argument} {wanted : Option Call}
    (hc : ∀ index, w.forPin soc c.pin = some index → ∀ duty, Installed index
      { w.channels index with duty := duty, callback := callback, callbackArg := arg } wanted)
    (h : w.startFade soc t c callback arg wanted = some w') : Inv soc w' := by
  unfold World.startFade at h
  split at h
  · cases h
    exact hw
  · cases hpin : w.forPin soc c.pin with
    | none =>
      rw [hpin] at h
      cases h
      exact hw
    | some index =>
      rw [hpin] at h
      dsimp only at h
      obtain ⟨-, hattached, -, hlt⟩ := hw.2.of_forPin hpin
      split at h
      · cases h
        exact hw
      · rename_i hactive
        obtain ⟨⟨ok, v⟩, hv, h⟩ := Option.bind_eq_some_iff.mp h
        obtain ⟨hinv, hchannels, -, hgate⟩ := hw.ensureFadeInterrupt hv
        have hidle : ¬ Busy (v.gate index) := by
          rw [hgate]
          exact not_busy_of_fadeActive hlt (by simpa using hactive)
        cases ok with
        | true =>
          apply hinv.startRequest _ hidle
          · rw [hchannels]
            exact hattached
          · rw [hchannels]
            exact hc index hpin
          · exact h
          · rw [hgate]
            exact hwrap index hlt
        | false =>
          cases h
          exact hinv

theorem Inv.ledcFadeWithInterrupt {soc : Soc} (hw : Inv soc w) (hwrap : Unwrapped soc w) {t : ℕ}
    {c : FadeCall} {f : ℕ} (h : w.ledcFadeWithInterrupt soc t c f = some w') : Inv soc w' := by
  unfold World.ledcFadeWithInterrupt at h
  cases hpin : w.forPin soc c.pin with
  | none =>
    rw [hpin] at h
    cases h
    exact hw
  | some index =>
    rw [hpin] at h
    dsimp only at h
    obtain ⟨-, -, -, hlt⟩ := hw.2.of_forPin hpin
    split at h
    · cases h
      exact hw
    · rename_i hactive
      have hidle : ¬ Busy (w.gate index) := not_busy_of_fadeActive hlt (by simpa using hactive)
      have hnone : (w.channels index).callback = none := by
        cases hlive : w.live index with
        | none => exact (hw.1.live_none hlive).2
        | some id => exact absurd (hw.1.live_channel hlive).2.busy hidle
      have hset : Inv soc (w.setChannel index
          { w.channels index with noArgumentCallback := some f }) :=
        ⟨hw.1.setChannel hnone (hw.1.idle_free hidle), hw.2.setChannel rfl rfl⟩
      refine hset.startFade hwrap (fun i hi duty => ?_) h
      obtain rfl : index = i := Option.some.inj (hpin.symm.trans hi)
      refine ⟨rfl, rfl, ?_⟩
      simp [World.setChannel]

/-- What is pending was written before. -/
theorem legal_pended {h : List Entry} (hl : Legal h) {i g : ℕ} (hp : .pended i g ∈ h) :
    ∃ r, .started i g r ∈ h ∧ .wrote (r.finalizer i g) ∈ h := by
  obtain ⟨later, earlier, rfl⟩ := List.append_of_mem hp
  obtain ⟨⟨⟨r, hs, hw⟩, -⟩, -⟩ := hl.append
  have hmem : ∀ x, x ∈ earlier → x ∈ later ++ .pended i g :: earlier := fun x hx =>
    List.mem_append_right later (List.mem_cons_of_mem _ hx)
  exact ⟨r, hmem _ hs, hmem _ hw⟩

/-- The engine and its history after a completion was taken. -/
structure Takes (w v : World) (index : ℕ) : Prop where
  kept : Kept w v
  told : Told v.engine
  busy : Busy (w.gate index)
  idle : ¬ Busy (v.gate index)
  others : ∀ i, i ≠ index → v.gate i = w.gate i
  reached : ∀ fade, Runs index (w.gate index) (w.channels index) fade → Reached v.engine.2 fade

theorem takes_of_enter (hw : Told w.engine) {t : ℕ} {completion : Completion}
    {e : Engine} {v : World} (hs : w.engine.1.shared.takeCompletion index = some (completion, e))
    (h : w.enter t (.takeCompletion index) = some v) : Takes w v index := by
  obtain ⟨hk, e', l, hstep, hengine⟩ := enter_kept h
  have htold := enter_told (fun _ => False.elim) hw h
  have hb := step_begin rfl hstep
  simp only [begin, hs] at hb
  cases hb
  unfold Engine.takeCompletion at hs
  dsimp only at hs
  obtain ⟨hpending, hs⟩ := Option.ite_none_right_eq_some.mp hs
  cases hs
  have hgate : ∀ i, v.gate i = Function.update w.engine.1.shared.channels index
      { w.engine.1.shared.channels index with state := .idle, alarm := 0 } i := by
    intro i
    rw [World.gate, hengine]
    rfl
  have hbusy : Busy (w.gate index) := Or.inr (Or.inr hpending.2)
  refine ⟨hk, htold, hbusy, ?_, fun i hi => ?_, fun fade hruns => ?_⟩
  · rw [hgate, Function.update_self]
    simp [Busy]
  · rw [hgate, Function.update_of_ne hi]
    rfl
  · have hchronicle := hw.channels index
    have hstarted : .started index (w.gate index).generation (w.gate index).request ∈ w.engine.2 :=
      hchronicle.busy hbusy
    obtain ⟨r, hr, hwrote⟩ := legal_pended hw.legal (hchronicle.pending hpending.2)
    obtain rfl := hchronicle.unique _ _ _ hstarted hr
    obtain ⟨k, hhistory⟩ := hk.history
    have hmem : ∀ x, x ∈ w.engine.2 → x ∈ v.engine.2 := by
      intro x hx
      rw [hhistory]
      exact List.mem_append_right k hx
    constructor
    · rw [hruns.channel, hruns.generation, hruns.request]
      exact hmem _ hstarted
    · rw [hruns.channel, hruns.generation, hruns.request]
      exact hmem _ hwrote
    · have hduty := hchronicle.target (Or.inr hpending.2)
      rw [hruns.channel, hruns.generation, hruns.request, hengine]
      simp only [observe]
      unfold Engine.takeCompletion
      dsimp only
      rw [if_pos hpending]
      rw [show (w.gate index).request.targetDuty = (w.engine.1.shared.channels index).duty from
        hduty.symm]
      exact List.mem_cons_self

theorem finish_eq {id : ℕ} (hlive : w.live index = some id) (call : Option Call) :
    w.finish index call = { w with
      live := Function.update w.live index none
      fades := Function.update w.fades id { w.fades id with
        status := if (w.fades id).status = .live then .completed else (w.fades id).status
        calls := call.toList ++ (w.fades id).calls } } := by
  rw [World.finish, hlive]

/-- The fade whose completion was taken is on record with what was called. -/
theorem Core.finish (hw : Core w) {v : World} (htakes : Takes w v index) {call : Option Call}
    {id : ℕ} (hlive : w.live index = some id)
    (hcall : call = if (w.fades id).status = .live then (w.fades id).wanted else none)
    {channels : ℕ → Channel} (hmine : (channels index).callback = none)
    (hothers : ∀ i, i ≠ index → channels i = w.channels i) (isr : Option Isr) :
    Core { v.finish index call with channels := channels, isr := isr } := by
  have hk := htakes.kept
  obtain ⟨hid, hruns⟩ := hw.live_channel hlive
  rw [finish_eq ((congrFun hk.live index).trans hlive)]
  constructor
  · intro i
    by_cases hi : i = index
    · subst hi
      exact slot_none (Function.update_self _ _ _) htakes.idle hmine
    · cases hold : w.live i with
      | none =>
        obtain ⟨hb, hc⟩ := hw.live_none hold
        apply slot_none
        · exact ((Function.update_of_ne hi _ _).trans (congrFun hk.live i)).trans hold
        · exact fun h => hb ((congrArg Busy (htakes.others i hi)).mp h)
        · exact (congrArg Channel.callback (hothers i hi)).trans hc
      | some other =>
        obtain ⟨hother, hruns'⟩ := hw.live_channel hold
        have hne : other ≠ id := by
          rintro rfl
          exact hi (hruns'.channel.symm.trans hruns.channel)
        apply slot_some
        · exact ((Function.update_of_ne hi _ _).trans (congrFun hk.live i)).trans hold
        · exact hk.started ▸ hother
        · exact hruns'.of_eq (htakes.others i hi) (hothers i hi)
            ((Function.update_of_ne hne _ _).trans (congrFun hk.fades other))
  · intro other hother
    have hold := hw.settled other (hk.started ▸ hother)
    by_cases hne : other = id
    · subst hne
      have hfade := congrFun hk.fades other
      have hreached := htakes.reached _ hruns
      rw [hcall]
      have hcalls := hruns.calls
      simp only [World.Settled, Function.update_self, hfade, hcalls, List.append_nil]
      by_cases hs : (w.fades other).status = .live
      · simp only [hs, if_true]
        exact ⟨trivial, hreached.started, hreached.wrote, hreached.completed⟩
      · simp only [if_neg hs]
        rw [World.Settled] at hold
        cases hst : (w.fades other).status with
        | live => exact absurd hst hs
        | dropped late =>
          rw [hst] at hold
          exact ⟨rfl, hold.2⟩
        | completed =>
          have hstanding := hruns.standing
          rw [Standing, hst] at hstanding
          exact hstanding.elim
    · apply Settled.keep hold
      · exact (Function.update_of_ne hne _ _).trans (congrFun hk.fades other)
      · intro hs
        have hlive' := (hw.settled_live (hk.started ▸ hother) hs).1
        have hch : (w.fades other).channel ≠ index := by
          intro heq
          rw [heq, hlive] at hlive'
          exact hne (Option.some.inj hlive').symm
        exact (Function.update_of_ne hch _ _).trans (congrFun hk.live _)
      · exact hk.history
  · exact htakes.told

/-- The callback that is installed is the one that was wanted. -/
theorem Installed.invoked {wanted : Option Call}
    (h : Installed index (w.channels index) wanted) :
    w.invoked (w.channels index).callback (w.channels index).callbackArg = wanted := by
  cases wanted with
  | none =>
    have hc : (w.channels index).callback = none := h
    rw [hc]
    rfl
  | some call =>
    cases call with
    | plain f =>
      obtain ⟨hc, harg, hno⟩ := h
      rw [hc, harg]
      simp [World.invoked, hno]
    | withArg f a =>
      obtain ⟨hc, harg⟩ := h
      rw [hc, harg]
      rfl

theorem invoked_congr {v : World} (h : v.channels = w.channels) (callback : Option Function)
    (arg : Argument) : v.invoked callback arg = w.invoked callback arg := by
  simp only [World.invoked, h]

theorem Inv.deliver {soc : Soc} (hw : Inv soc w) {v : World} {i : Isr} {duty : ℕ}
    (htakes : Takes w v i.next) (hattached : (v.channels i.next).attached = true) :
    Inv soc (v.deliver i duty) := by
  have hk := htakes.kept
  cases hlive : w.live i.next with
  | none => exact absurd htakes.busy (hw.1.live_none hlive).1
  | some id =>
    obtain ⟨-, hruns⟩ := hw.1.live_channel hlive
    have hcall : v.invoked (v.channels i.next).callback (v.channels i.next).callbackArg =
        if (w.fades id).status = .live then (w.fades id).wanted else none := by
      rw [invoked_congr hk.channels, hk.channels]
      have hstanding := hruns.standing
      unfold Standing at hstanding
      cases hs : (w.fades id).status with
      | live =>
        rw [hs] at hstanding
        exact hstanding.2.invoked
      | dropped late =>
        rw [hs] at hstanding
        rw [show (w.channels i.next).callback = none from hstanding]
        rfl
      | completed =>
        rw [hs] at hstanding
        exact hstanding.elim
    -- the channel keeps its pin, and its callback is gone
    have hdone : ∀ (c : Channel) (isr : Option Isr), c.callback = none → c.attached = true →
        c.pin = (v.channels i.next).pin →
        Inv soc { v.finish i.next (v.invoked (v.channels i.next).callback
          (v.channels i.next).callbackArg) with
            channels := Function.update v.channels i.next c, isr := isr } := by
      intro c isr hc ha hp
      constructor
      · apply hw.1.finish htakes hlive hcall
        · rw [Function.update_self]
          exact hc
        · intro j hj
          rw [Function.update_of_ne hj, hk.channels]
      · rw [finish_eq ((congrFun hk.live _).trans hlive)]
        have hpins : Pins soc (v.setChannel i.next c) :=
          (hw.2.congr hk.channels hk.pinChannel).setChannel (ha.trans hattached.symm) hp
        exact hpins.congr rfl rfl
    have hchannels : ∀ call, (v.finish i.next call).channels = v.channels := by
      intro call
      rw [finish_eq ((congrFun hk.live _).trans hlive)]
    unfold World.deliver
    dsimp only
    split
    · simp only [World.setChannel, hchannels]
      exact hdone _ _ rfl hattached rfl
    · simp only [World.setChannel, hchannels]
      exact hdone _ _ rfl hattached rfl

theorem Inv.finishFade {soc : Soc} (hw : Inv soc w) {i : Isr}
    (h : w.finishFade soc i = some w') : Inv soc w' := by
  unfold World.finishFade at h
  split at h
  · cases hs : w.engine.1.shared.takeCompletion i.next with
    | none =>
      rw [hs] at h
      cases h
      exact ⟨⟨hw.1.slots, hw.1.settled, hw.1.told⟩, hw.2⟩
    | some result =>
      obtain ⟨completion, e⟩ := result
      rw [hs] at h
      obtain ⟨v, hv, rfl⟩ := Option.map_eq_some_iff.mp h
      have htakes := takes_of_enter hw.1.told hs hv
      have hk := htakes.kept
      split
      · rename_i hattached
        exact hw.deliver htakes hattached
      · rename_i hattached
        cases hlive : w.live i.next with
        | none => exact absurd htakes.busy (hw.1.live_none hlive).1
        | some id =>
          obtain ⟨-, hruns⟩ := hw.1.live_channel hlive
          have hdetached : (w.channels i.next).attached = false := by
            rw [← hk.channels]
            simpa using hattached
          have hnot := hw.1.not_live hdetached id hlive
          have hmine : (w.channels i.next).callback = none := by
            have hstanding := hruns.standing
            unfold Standing at hstanding
            cases hs : (w.fades id).status with
            | live => exact absurd hs hnot
            | dropped late =>
              rw [hs] at hstanding
              exact hstanding
            | completed =>
              rw [hs] at hstanding
              exact hstanding.elim
          have hcall : (none : Option Call) =
              if (w.fades id).status = .live then (w.fades id).wanted else none := by
            rw [if_neg hnot]
          have hcore := hw.1.finish htakes hlive hcall hmine (fun _ _ => rfl)
            (some ⟨i.thread, i.next + 1, false⟩)
          rw [finish_eq ((congrFun hk.live _).trans hlive)] at hcore ⊢
          rw [← hk.channels] at hcore
          exact ⟨⟨hcore.slots, hcore.settled, hcore.told⟩, hw.2.congr hk.channels hk.pinChannel⟩
  · cases h
    exact ⟨⟨hw.1.slots, hw.1.settled, hw.1.told⟩, hw.2⟩

/-- The channel that a call detaches or takes away from its pin. -/
def Releases (soc : Soc) (w : World) : Action → ℕ → ℤ → Prop
  | .detach _ pin nowUs, index, now => w.forPin soc pin = some index ∧ now = nowUs
  | .attachChannel _ pin _ _ channel _ nowUs, index, now =>
      (soc.isOutputPin pin = true ∧ channel < soc.channels ∧ w.pinChannel pin = none ∧
        (w.channels channel).attached = true) ∧ index = channel ∧ now = nowUs
  | _, _, _ => False

/-- No callback returns while a fade with a callback without an argument runs on its own
channel, which that callback has started, and no fade whose callback is still to be called is
detached after its deadline. The generation counters do not wrap. -/
structure InTime (soc : Soc) (w : World) (a : Action) : Prop where
  returns : a = .callbackReturns → ∀ i id f, w.isr = some i → w.live i.next = some id →
    (w.fades id).status = .live → (w.fades id).wanted ≠ some (.plain f)
  releases : ∀ index nowUs, Releases soc w a index nowUs → NotLate w index nowUs
  unwrapped : Unwrapped soc w

theorem Inv.callbackReturns {soc : Soc} (hw : Inv soc w) {i : Isr}
    (hok : ∀ id f, w.live i.next = some id → (w.fades id).status = .live →
      (w.fades id).wanted ≠ some (.plain f)) : Inv soc (w.callbackReturns i) := by
  refine ⟨⟨fun j => ?_, fun id hid => ?_, hw.1.told⟩, ?_⟩
  · by_cases hj : j = i.next
    · subst hj
      have hchannel : (w.callbackReturns i).channels i.next =
          { w.channels i.next with noArgumentCallback := none } := Function.update_self _ _ _
      cases hlive : w.live i.next with
      | none =>
        obtain ⟨hb, hc⟩ := hw.1.live_none hlive
        exact slot_none hlive hb ((congrArg Channel.callback hchannel).trans hc)
      | some id =>
        obtain ⟨hid, hruns⟩ := hw.1.live_channel hlive
        refine slot_some hlive hid
          ⟨hruns.busy, hruns.channel, hruns.generation, hruns.request, hruns.calls, ?_⟩
        have hstanding := hruns.standing
        rw [hchannel]
        unfold Standing at hstanding ⊢
        rw [show ((w.callbackReturns i).fades id) = w.fades id from rfl]
        cases hs : (w.fades id).status with
        | live =>
          rw [hs] at hstanding
          refine ⟨hstanding.1, ?_⟩
          have hinstalled := hstanding.2
          rcases hwanted : (w.fades id).wanted with _ | f | ⟨f, a⟩
          · rw [hwanted] at hinstalled
            exact hinstalled
          · exact absurd hwanted (hok id f hlive hs)
          · rw [hwanted] at hinstalled
            exact hinstalled
        | dropped late =>
          rw [hs] at hstanding
          exact hstanding
        | completed =>
          rw [hs] at hstanding
          exact hstanding
    · have hchannel : (w.callbackReturns i).channels j = w.channels j :=
        Function.update_of_ne hj _ _
      cases hlive : w.live j with
      | none =>
        obtain ⟨hb, hc⟩ := hw.1.live_none hlive
        exact slot_none hlive hb ((congrArg Channel.callback hchannel).trans hc)
      | some id =>
        obtain ⟨hid, hruns⟩ := hw.1.live_channel hlive
        exact slot_some hlive hid (hruns.of_eq rfl hchannel rfl)
  · exact Settled.keep (hw.1.settled id hid) rfl (fun _ => rfl) ⟨[], rfl⟩
  · apply Pins.congr
      (w := w.setChannel i.next { w.channels i.next with noArgumentCallback := none })
    · exact hw.2.setChannel rfl rfl
    · rfl
    · rfl

theorem inv_step (soc : Soc) : PreservesWhen (step soc) (InTime soc) (Inv soc) := by
  intro w a w' hok hstep hw
  have hmay : ∀ {b : Bool} {o : Option World}, (if b then o else none) = some w' → o = some w' :=
    fun h => (Option.ite_none_right_eq_some.mp h).2
  cases a with
  | engine t a =>
    obtain ⟨ha, h⟩ := Option.ite_none_right_eq_some.mp hstep
    exact hw.internal ha h
  | attachChannel t pin frequency resolution channel claimed nowUs =>
    refine hw.attachChannel hok.unwrapped (fun ho hlt hfree hattached => ?_) (hmay hstep)
    exact hok.releases channel nowUs ⟨⟨ho, hlt, hfree, hattached⟩, rfl, rfl⟩
  | attach t pin frequency resolution claimed nowUs =>
    have h := hmay hstep
    unfold World.ledcAttach at h
    cases hfind : (List.range soc.channels).find? fun i => !(w.channels i).attached with
    | none =>
      rw [hfind] at h
      cases h
      exact hw
    | some channel =>
      rw [hfind] at h
      have hdetached := List.find?_some hfind
      refine hw.attachChannel hok.unwrapped (fun _ _ _ hattached => ?_) h
      rw [hattached] at hdetached
      cases hdetached
  | detach t pin nowUs =>
    exact hw.detach hok.unwrapped (fun index hi => hok.releases index nowUs ⟨hi, rfl⟩) (hmay hstep)
  | fade t c =>
    refine hw.startFade hok.unwrapped (fun _ _ _ => ?_) (hmay hstep)
    rfl
  | fadeWithInterrupt t c callback =>
    cases callback with
    | none =>
      refine hw.startFade hok.unwrapped (fun _ _ _ => ?_) (hmay hstep)
      rfl
    | some f => exact hw.ledcFadeWithInterrupt hok.unwrapped (hmay hstep)
  | fadeWithInterruptArg t c callback arg =>
    refine hw.startFade hok.unwrapped (fun _ _ _ => ?_) (hmay hstep)
    cases callback with
    | none => rfl
    | some f => exact ⟨rfl, rfl⟩
  | interrupt t =>
    obtain ⟨-, h⟩ := Option.ite_none_right_eq_some.mp hstep
    cases h
    exact ⟨⟨hw.1.slots, hw.1.settled, hw.1.told⟩, hw.2⟩
  | takeCompletion =>
    cases hisr : w.isr with
    | none => simp [step, hisr] at hstep
    | some i =>
      simp only [step, hisr] at hstep
      obtain ⟨-, h⟩ := Option.ite_none_left_eq_some.mp hstep
      exact hw.finishFade h
  | callbackReturns =>
    cases hisr : w.isr with
    | none => simp [step, hisr] at hstep
    | some i =>
      simp only [step, hisr] at hstep
      obtain ⟨-, h⟩ := Option.ite_none_right_eq_some.mp hstep
      cases h
      exact hw.callbackReturns fun id f => hok.returns rfl i id f hisr

/-- What a started fade can say of its callback: while it waits the engine holds its channel and
nothing was called; dropped by a detach nothing was called, and the detach came before the
deadline if anything was to be called; and at its completion exactly what it wanted was called,
after its endpoint had been written to its pin. -/
structure Contract (w : World) (id : ℕ) : Prop where
  waiting : (w.fades id).status = .live → (w.fades id).calls = [] ∧
    Busy (w.gate (w.fades id).channel) ∧
    (w.gate (w.fades id).channel).generation = (w.fades id).generation
  dropped : ∀ late, (w.fades id).status = .dropped late → (w.fades id).calls = [] ∧
    ((w.fades id).wanted ≠ none → late = false)
  completed : (w.fades id).status = .completed →
    (w.fades id).calls = (w.fades id).wanted.toList ∧ Reached w.engine.2 (w.fades id)

theorem Core.contract (hw : Core w) {id : ℕ} (hid : id < w.started) : Contract w id := by
  have hset := hw.settled id hid
  constructor
  · intro hs
    obtain ⟨hlive, hcalls⟩ := hw.settled_live hid hs
    obtain ⟨-, hruns⟩ := hw.live_channel hlive
    exact ⟨hcalls, hruns.busy, hruns.generation.symm⟩
  · intro late hs
    rw [World.Settled, hs] at hset
    refine ⟨hset.1, fun hwanted => ?_⟩
    cases late with
    | true => exact absurd (hset.2 rfl) hwanted
    | false => rfl
  · intro hs
    rwa [World.Settled, hs] at hset

section Instances

def notLate (w : World) (index : ℕ) (nowUs : ℤ) : Bool :=
  (w.live index).all fun id => (w.fades id).status != .live || (w.fades id).wanted == none ||
    !w.pastDeadline index nowUs

def Call.isPlain : Call → Bool
  | .plain _ => true
  | .withArg .. => false

def callInTime (soc : Soc) (w : World) : Action → Bool
  | .callbackReturns => w.isr.all fun i => (w.live i.next).all fun id =>
      (w.fades id).status != .live || !(w.fades id).wanted.any Call.isPlain
  | .detach _ pin nowUs => (w.forPin soc pin).all fun index => notLate w index nowUs
  | .attachChannel _ _ _ _ channel _ nowUs => notLate w channel nowUs
  | _ => true

instance (soc : Soc) (w : World) : Decidable (Unwrapped soc w) :=
  inferInstanceAs (Decidable (∀ index < soc.channels, _))

def inTime (soc : Soc) (w : World) (a : Action) : Bool :=
  callInTime soc w a && decide (Unwrapped soc w)

theorem notLate_sound {nowUs : ℤ} (h : notLate w index nowUs = true) : NotLate w index nowUs := by
  intro id hlive hs hwanted
  rw [notLate, hlive, Option.all_some, hs] at h
  simpa [hwanted] using h

theorem inTime_sound {soc : Soc} {a : Action} (h : inTime soc w a = true) : InTime soc w a := by
  rw [inTime, Bool.and_eq_true, decide_eq_true_eq] at h
  obtain ⟨hcall, hwrap⟩ := h
  refine ⟨?_, ?_, hwrap⟩
  · rintro rfl i id f hisr hlive hs hwanted
    simp [callInTime, hisr, hlive, hs, hwanted, Call.isPlain] at hcall
  · intro index nowUs hrel
    cases a with
    | detach t pin now =>
      obtain ⟨hpin, rfl⟩ := hrel
      rw [callInTime, hpin] at hcall
      exact notLate_sound hcall
    | attachChannel t pin frequency resolution channel claimed now =>
      obtain ⟨-, rfl, rfl⟩ := hrel
      exact notLate_sound hcall
    | _ => exact hrel.elim

/-- `SOC_GPIO_VALID_OUTPUT_GPIO_MASK`: no pin 24, none of 28 to 31 and none from 34 on. -/
def validOutputMask : ℕ := 0x30EFFFFFF

/-- The classic ESP32. -/
def esp32 : Soc where
  pins := 40
  channels := 8
  timerBitWidth := 20
  isOutputPin pin := pin < 40 && validOutputMask.testBit pin
  output_lt pin h := by
    rw [Bool.and_eq_true] at h
    simpa using h.1
  channels_le := by decide

/-- A fade of ten milliseconds. -/
def fadeTenMs (pin startDuty targetDuty : ℕ) (nowUs : ℤ) : FadeCall :=
  ⟨pin, startDuty, targetDuty, 10, true, nowUs⟩

/-- The rest of a call that starts a fade: its alarm, and the drain of the first signal. -/
def published (t alarm : ℕ) : List Action :=
  .engine t (.scheduled alarm) :: List.replicate 5 (.engine t .resume)

/-- The alarm worker delivers a deadline. -/
def delivered (index generation : ℕ) : List Action :=
  .engine 1 (.deadline index generation) :: List.replicate 9 (.engine 1 .resume)

/-- The callback of a fade starts the next one on its own pin. Its interrupt is served on the thread
of the task, which the drain of the worker does not hold up. -/
def restarted : List Action :=
  [.attach 0 2 1000 8 true 0, .fadeWithInterrupt 0 (fadeTenMs 2 0 255 0) (some 7)] ++
  published 0 1 ++ delivered 0 1 ++
  [.interrupt 0, .takeCompletion, .fadeWithInterrupt 0 (fadeTenMs 2 255 0 10000) (some 8)] ++
  published 0 2 ++ .callbackReturns :: List.replicate 8 .takeCompletion ++ delivered 0 2 ++
  [.interrupt 0, .takeCompletion]

end Instances

end RooTesting.ArduinoLedc
