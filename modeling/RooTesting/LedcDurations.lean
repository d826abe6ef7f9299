import RooTesting.FadeDuty
import RooTesting.LedcCalls

/-! # How long the fades of the driver are

The time of a fade comes as an `int` of milliseconds, so that the engine never gets a fade whose
interpolation needs more than 64 bits. -/
namespace RooTesting.LedcDriver
open FadeEngine (Engine Request Completion Delivery uint64Size)

def fadeLimitUs : ℕ := int32Max * 1000

/-- Every fade that is set up is short, and every one that runs is interpolated exactly. -/
structure ShortFades (d : Driver) : Prop where
  durations : ∀ index, (d.channels index).fadeDurationUs ≤ fadeLimitUs
  narrow : ∀ index, (d.engine.channels index).request.Narrow

theorem narrow_of_accepted {r : Request} {nowUs : ℤ} (h : r.accepted nowUs = true)
    (hduration : r.durationUs ≤ fadeLimitUs) : r.Narrow := by
  simp only [Request.accepted, Bool.and_eq_true, Bool.not_eq_true', Bool.or_eq_false_iff,
    decide_eq_false_iff_not, not_lt] at h
  obtain ⟨⟨⟨⟨⟨-, hresolution⟩, hstart⟩, htarget⟩, -⟩, -⟩ := h
  have hperiod : FadeEngine.period r.resolution ≤ 2 ^ 20 := Nat.pow_le_pow_right (by decide) hresolution
  have hdistance : r.distance ≤ 2 ^ 20 := by
    unfold Request.distance
    omega
  calc r.distance * r.durationUs ≤ 2 ^ 20 * fadeLimitUs := Nat.mul_le_mul hdistance hduration
    _ ≤ uint64Size := by decide

namespace ShortFades

variable {d : Driver}

theorem setChannel (h : ShortFades d) {index : ℕ} {c : ChannelState}
    (hc : c.fadeDurationUs ≤ fadeLimitUs) : ShortFades (d.setChannel index c) := by
  refine ⟨fun j => ?_, h.narrow⟩
  simp only [Driver.setChannel, Function.update_apply]
  split
  · exact hc
  · exact h.durations j

theorem give (h : ShortFades d) (gate : ℕ) : ShortFades (d.give gate) := ⟨h.durations, h.narrow⟩

theorem take (h : ShortFades d) {gate : ℕ} {d' : Driver} (htake : d.take gate = some d') :
    ShortFades d' := by
  unfold Driver.take at htake
  split at htake
  · cases htake
    exact ⟨h.durations, h.narrow⟩
  · cases htake

theorem withEngine (h : ShortFades d) {e : Engine} (he : ∀ index, (e.channels index).request.Narrow) :
    ShortFades { d with engine := e } := ⟨h.durations, he⟩

theorem timerConfig (h : ShortFades d) (config : Option TimerConfig) (originUs : ℤ) :
    ShortFades (d.timerConfig config originUs).2.1 := by
  unfold Driver.timerConfig
  split
  · exact h
  split
  · exact h
  split
  · exact h
  dsimp only
  split
  · exact ⟨h.durations, h.narrow⟩
  split
  · refine ⟨fun index => ?_, h.narrow⟩
    dsimp only
    split
    · exact h.durations index
    · exact h.durations index
  · exact ⟨h.durations, h.narrow⟩

theorem channelConfig (h : ShortFades d) (config : Option ChannelConfig) :
    ShortFades (d.channelConfig config).2.1 := by
  unfold Driver.channelConfig
  dsimp only
  repeat' split
  all_goals first | exact h | exact h.setChannel (h.durations _) | exact h.setChannel (Nat.zero_le _)

theorem fadeFuncInstall (h : ShortFades d) (alloc : Except EspErr ℕ) (enabled : Bool) :
    ShortFades (d.fadeFuncInstall alloc enabled).2 := by
  unfold Driver.fadeFuncInstall
  repeat' split
  all_goals first | exact h | exact ⟨h.durations, h.narrow⟩

theorem cbRegister (h : ShortFades d) (mode channel : ℕ) (cbs : Option (Option ℕ)) (userArg : ℕ) :
    ShortFades (d.cbRegister mode channel cbs userArg).2 := by
  unfold Driver.cbRegister
  dsimp only
  repeat' split
  all_goals first | exact h | exact h.setChannel (h.durations _)

theorem setDuty (h : ShortFades d) (mode channel duty : ℕ) :
    ShortFades (d.setDuty mode channel duty).2 := by
  unfold Driver.setDuty
  dsimp only
  repeat' split
  all_goals first | exact h | exact h.setChannel (h.durations _)

theorem setDutyWithHpoint (h : ShortFades d) (mode channel duty hpoint : ℕ) :
    ShortFades (d.setDutyWithHpoint mode channel duty hpoint).2 := by
  unfold Driver.setDutyWithHpoint
  dsimp only
  repeat' split
  all_goals first | exact h | exact h.setChannel (h.durations _)

theorem updateDuty (h : ShortFades d) (mode channel : ℕ) :
    ShortFades (d.updateDuty mode channel).2.1 := by
  unfold Driver.updateDuty
  dsimp only
  repeat' split
  all_goals first | exact h | exact h.setChannel (h.durations _)

theorem setDutyAndUpdate (h : ShortFades d) (mode channel duty hpoint : ℕ) :
    ShortFades (d.setDutyAndUpdate mode channel duty hpoint).2.1 := by
  unfold Driver.setDutyAndUpdate
  dsimp only
  repeat' split
  all_goals first | exact h | exact h.setChannel (h.durations _)

theorem setFadeWithTime (h : ShortFades d) (mode channel targetDuty : ℕ) (ms : ℤ) :
    ShortFades (d.setFadeWithTime mode channel targetDuty ms).2 := by
  unfold Driver.setFadeWithTime
  split
  · exact h
  rename_i hchecks
  dsimp only
  split
  · exact h
  split
  · exact h
  apply h.setChannel
  simp only [Bool.or_eq_true, decide_eq_true_eq, not_or] at hchecks
  have hms : ms.toNat ≤ int32Max := by
    have hmax := hchecks.2
    omega
  exact Nat.mul_le_mul_right 1000 hms

theorem ensureGate (h : ShortFades d) {index gate : ℕ} {created : Bool} {d' : Driver}
    (hgate : d.ensureGate index created = some (gate, d')) : ShortFades d' := by
  unfold Driver.ensureGate at hgate
  split at hgate
  · cases hgate
    exact h
  split at hgate
  · cases hgate
    apply give
    exact (show ShortFades { d with semaphoreCount := d.semaphoreCount + 1 } from
      ⟨h.durations, h.narrow⟩).setChannel (h.durations _)
  · cases hgate

/-- The request of a fade that starts is as long as the channel's record says. -/
theorem fadeStart (h : ShortFades d) {mode channel gate : ℕ} {fadeMode : FadeMode} {created : Bool}
    {r : Request} {d' : Driver}
    (hstart : d.fadeStart mode channel fadeMode created = .ok (gate, r, d')) :
    ShortFades d' ∧ r.durationUs ≤ fadeLimitUs := by
  unfold Driver.fadeStart at hstart
  dsimp only at hstart
  repeat' split at hstart
  all_goals try cases hstart
  rename_i hbind
  obtain ⟨⟨gate', first⟩, hensure, hmap⟩ := Option.bind_eq_some_iff.mp hbind
  obtain ⟨taken, htake, heq⟩ := Option.map_eq_some_iff.mp hmap
  obtain ⟨-, rfl⟩ := Prod.mk.inj heq
  have htaken := (h.ensureGate hensure).take htake
  exact ⟨htaken, htaken.durations _⟩

theorem publishCompletion (h : ShortFades d) (completion : Completion) :
    ShortFades (d.publishCompletion completion).2 := by
  unfold Driver.publishCompletion
  dsimp only
  have hset : ShortFades (d.setChannel completion.channel { d.channels completion.channel with
      duty := completion.duty
      pendingDuty := completion.duty }) := h.setChannel (h.durations _)
  split
  · exact hset.give _
  · exact hset

end ShortFades

section Engine

variable {e e' : Engine}

/-- One channel of the engine changes, but for its request. -/
theorem narrow_setChannel (h : ∀ index, (e.channels index).request.Narrow) {index : ℕ}
    {c : FadeEngine.Channel} (hc : c.request.Narrow) :
    ∀ j, ((e.setChannel index c).channels j).request.Narrow := by
  intro j
  simp only [Engine.setChannel, Function.update_apply]
  split
  · exact hc
  · exact h j

theorem narrow_start {r : Request} {nowUs : ℤ} {result : ℕ × Bool × Engine}
    (h : ∀ index, (e.channels index).request.Narrow) (hr : r.Narrow)
    (hstart : e.start r nowUs = some result) : ∀ j, (result.2.2.channels j).request.Narrow := by
  unfold Engine.start at hstart
  dsimp only at hstart
  repeat' split at hstart
  all_goals cases hstart
  · exact narrow_setChannel h hr
  · exact narrow_setChannel h hr

theorem narrow_storeAlarm (h : ∀ index, (e.channels index).request.Narrow)
    (channel generation alarm : ℕ) :
    ∀ j, ((e.storeAlarm channel generation alarm).channels j).request.Narrow := by
  unfold Engine.storeAlarm
  dsimp only
  split
  · exact narrow_setChannel h (h channel)
  · exact h

theorem narrow_cancel {index : ℕ} {nowUs : ℤ} {result : ℕ × Bool × Engine}
    (h : ∀ index, (e.channels index).request.Narrow)
    (hcancel : e.cancel index nowUs = some result) : ∀ j, (result.2.2.channels j).request.Narrow := by
  unfold Engine.cancel at hcancel
  dsimp only at hcancel
  split at hcancel
  · cases hcancel
    exact narrow_setChannel h (h index)
  · cases hcancel

theorem narrow_deadline {index generation : ℕ} {result : Bool × Engine}
    (h : ∀ index, (e.channels index).request.Narrow)
    (hdeadline : e.deadline index generation = some result) :
    ∀ j, (result.2.channels j).request.Narrow := by
  unfold Engine.deadline at hdeadline
  dsimp only at hdeadline
  split at hdeadline
  · cases hdeadline
    exact narrow_setChannel h (h index)
  · cases hdeadline

theorem narrow_finalize (h : ∀ index, (e.channels index).request.Narrow) (item : Delivery) :
    ∀ j, ((e.finalize item).2.channels j).request.Narrow := by
  unfold Engine.finalize
  dsimp only
  split
  · exact narrow_setChannel h (h item.channel)
  · exact h

theorem narrow_takeCompletion {index : ℕ} {completion : Completion}
    (h : ∀ index, (e.channels index).request.Narrow)
    (htake : e.takeCompletion index = some (completion, e')) :
    ∀ j, (e'.channels j).request.Narrow := by
  unfold Engine.takeCompletion at htake
  dsimp only at htake
  split at htake
  · cases htake
    exact narrow_setChannel h (h index)
  · cases htake

end Engine

section Boards

variable {b : Board}

theorem publish_driver (b : Board) (publications : List Publication) :
    (b.publish publications).driver = b.driver := by
  induction publications generalizing b with
  | nil => rfl
  | cons p publications ih => exact ih _

theorem deliver_short (h : ShortFades b.driver) (items : List Delivery) :
    ShortFades (b.deliver items).driver := by
  induction items generalizing b with
  | nil => exact ⟨h.durations, h.narrow⟩
  | cons item items ih =>
    rw [Board.deliver]
    split
    · apply ih
      apply h.withEngine
      split
      · exact narrow_finalize h.narrow item
      · exact h.narrow
    · exact ih h

theorem drain_short (h : ShortFades b.driver) (drainNow : Bool) :
    ShortFades (b.drain drainNow).driver := by
  unfold Board.drain
  split
  · exact deliver_short h _
  · exact h

theorem startEngine_short (h : ShortFades b.driver) {m : Moment} {r : Request} {b' : Board}
    (hduration : r.durationUs ≤ fadeLimitUs) (hstart : b.startEngine m r = some b') :
    ShortFades b'.driver := by
  unfold Board.startEngine at hstart
  split at hstart
  · rename_i hchecks
    rw [Bool.and_eq_true] at hchecks
    have hr := narrow_of_accepted hchecks.2 hduration
    obtain ⟨result, hsection, rfl⟩ := Option.map_eq_some_iff.mp hstart
    apply drain_short
    apply h.withEngine
    split
    · exact narrow_start h.narrow hr hsection
    · exact narrow_storeAlarm (narrow_start h.narrow hr hsection) _ _ _
  · cases hstart

theorem fadeStart_short (h : ShortFades b.driver) (m : Moment) (mode channel : ℕ)
    (fadeMode : FadeMode) (created : Bool) :
    ShortFades (b.fadeStart m mode channel fadeMode created).2.driver := by
  unfold Board.fadeStart
  split
  · exact h
  · rename_i hstart
    obtain ⟨hd, hduration⟩ := h.fadeStart hstart
    split
    · exact hd.give _
    · rename_i hengine
      have hb := startEngine_short hd hduration hengine
      split
      · split
        · exact ⟨hb.durations, hb.narrow⟩
        · exact hb
      · exact hb

theorem awaken_short (h : ShortFades b.driver) {gate : ℕ} {b' : Board}
    (hawaken : b.awaken gate = some b') : ShortFades b'.driver := by
  unfold Board.awaken at hawaken
  split at hawaken
  · obtain ⟨d, htake, rfl⟩ := Option.map_eq_some_iff.mp hawaken
    exact h.take htake
  · cases hawaken

theorem cancelEngine_short (h : ShortFades b.driver) (m : Moment) (index : ℕ) :
    ShortFades (b.cancelEngine m index).driver := by
  unfold Board.cancelEngine
  split
  · split
    · exact h
    · rename_i hcancel
      apply drain_short
      exact h.withEngine (narrow_cancel h.narrow hcancel)
  · exact h

theorem foldl_short {step : Board → ℕ → Board}
    (hstep : ∀ b index, ShortFades b.driver → ShortFades (step b index).driver)
    (h : ShortFades b.driver) (indices : List ℕ) :
    ShortFades (indices.foldl step b).driver := by
  induction indices generalizing b with
  | nil => exact h
  | cons index indices ih => exact ih (hstep b index h)

theorem uninstall_short (h : ShortFades b.driver) (m : Moment) :
    ShortFades (b.uninstall m).driver := by
  unfold Board.uninstall
  split
  · have hclear : ∀ (b : Board) (index : ℕ), ShortFades b.driver →
        ShortFades ((b.cancelEngine m index).driver.clearCallbacks index) := by
      intro b index hb
      have hcancel := cancelEngine_short hb m index
      exact hcancel.setChannel (hcancel.durations index)
    have hfold : ShortFades ((List.range FadeEngine.kChannels).foldl (fun b index =>
        let b := b.cancelEngine m index
        { b with driver := b.driver.clearCallbacks index }) b).driver := foldl_short hclear h _
    exact ⟨hfold.durations, hfold.narrow⟩
  · exact h

theorem perform_short (h : ShortFades b.driver) (m : Moment) (call : Call) :
    ShortFades (b.perform m call).2.driver := by
  have commit : ∀ r : EspErr × Driver × List Publication, ShortFades r.2.1 →
      ShortFades (b.commit r).2.driver := by
    intro r hr
    rw [Board.commit, publish_driver]
    exact hr
  cases call with
  | timerConfig config originUs => exact commit _ (h.timerConfig config originUs)
  | channelConfig config => exact commit _ (h.channelConfig config)
  | fadeFuncInstall alloc enabled => exact h.fadeFuncInstall alloc enabled
  | cbRegister mode channel cbs userArg => exact h.cbRegister mode channel cbs userArg
  | setDuty mode channel duty => exact h.setDuty mode channel duty
  | setDutyWithHpoint mode channel duty hpoint => exact h.setDutyWithHpoint mode channel duty hpoint
  | updateDuty mode channel => exact commit _ (h.updateDuty mode channel)
  | setDutyAndUpdate mode channel duty hpoint =>
    exact commit _ (h.setDutyAndUpdate mode channel duty hpoint)
  | setFadeWithTime mode channel targetDuty ms => exact h.setFadeWithTime mode channel targetDuty ms
  | fadeStart mode channel fadeMode created => exact fadeStart_short h m mode channel fadeMode created
  | setFadeTimeAndStart mode channel targetDuty ms fadeMode created =>
    have hset := h.setFadeWithTime mode channel targetDuty ms
    simp only [Board.perform]
    split
    · exact h
    split
    · exact fadeStart_short (b := { b with driver := _ }) hset m mode channel fadeMode created
    · exact hset
  | fadeFuncUninstall => exact uninstall_short h m

theorem deadline_short (h : ShortFades b.driver) (index generation : ℕ) :
    ShortFades (b.deadline index generation).driver := by
  unfold Board.deadline
  split
  · exact h
  · rename_i hdeadline
    apply drain_short
    exact h.withEngine (narrow_deadline h.narrow hdeadline)

theorem interrupt_short (h : ShortFades b.driver) : ShortFades b.interrupt.driver := by
  apply foldl_short _ h
  intro b index hb
  unfold Board.serve
  split
  · exact hb
  · rename_i htake
    exact (hb.withEngine (narrow_takeCompletion hb.narrow htake)).publishCompletion _

theorem boardStart_short : ShortFades boardStart.driver :=
  ⟨fun _ => Nat.zero_le _, fun _ => by rw [Request.Narrow]; exact Nat.zero_le _⟩

end Boards

end RooTesting.LedcDriver
