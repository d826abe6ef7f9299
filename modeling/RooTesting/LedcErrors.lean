import RooTesting.LedcCalls

/-! # Failed LEDC calls

A call that fails leaves the driver, the fade engine and the pins as they were, but for
fade starts: a start that is refused by the engine keeps a gate it has created, a start
that cannot wait has started, and the combined call keeps what it has stored. -/
namespace RooTesting.LedcDriver
open FadeEngine (Engine Request Delivery)

namespace Driver

variable (d : Driver) (m : Moment)

/-- The checks of a fade start pass, and the gate can be taken. -/
def fadeReady (mode channel : ℕ) (fadeMode : FadeMode) (created : Bool) : Bool :=
  let c := d.channels (fadeIndex mode channel)
  validMode mode && validChannel channel && fadeMode ≠ .max && d.fadeInstalled && c.configured &&
    validOutput (d.timerOf mode c) c.fadeTarget c.hpoint &&
    match c.gate with
    | none => created
    | some gate => d.semaphores gate

/-- The engine accepts the request, and is done with the channel. -/
def engineTakes (request : Request) : Bool :=
  !m.active && request.accepted m.nowUs &&
    ((d.engine.channels request.channel).state = .idle ||
      (d.engine.channels request.channel).state = .cancelled)

/-- The checks of `ledc_set_fade_with_time` pass. -/
def fadeStorable (mode channel targetDuty : ℕ) : Bool :=
  let c := d.channels (fadeIndex mode channel)
  validMode mode && validChannel channel && d.fadeInstalled && c.configured &&
    validOutput (d.timerOf mode c) targetDuty c.hpoint

def storeFade (mode channel targetDuty durationMs : ℕ) : Driver :=
  d.setChannel (fadeIndex mode channel) { d.channels (fadeIndex mode channel) with
    fadeTarget := targetDuty
    fadeDurationUs := durationMs * 1000 }

/-- The fade starts, and the call does not ask for a wait that is impossible. -/
def fadeStarts (mode channel : ℕ) (fadeMode : FadeMode) (created : Bool) : Prop :=
  d.fadeReady mode channel fadeMode created = true ∧
    d.engineTakes m (d.request mode channel) = true ∧ ¬(fadeMode = .waitDone ∧ m.running = false)

/-- The engine refuses a fade that is ready, and the channel had its gate before. -/
def fadeRefused (mode channel : ℕ) (fadeMode : FadeMode) (created : Bool) : Prop :=
  d.fadeReady mode channel fadeMode created = true →
    d.engineTakes m (d.request mode channel) = false ∧
      (d.channels (fadeIndex mode channel)).gate ≠ none

end Driver

/-- The calls that leave everything as it was when they fail. -/
def Harmless (d : Driver) (m : Moment) : Call → Prop
  | .fadeStart mode channel fadeMode created =>
    d.fadeStarts m mode channel fadeMode created ∨ d.fadeRefused m mode channel fadeMode created
  | .setFadeTimeAndStart mode channel targetDuty desiredFadeTimeMs fadeMode created =>
    desiredFadeTimeMs ≤ int32Max → d.fadeStorable mode channel targetDuty = true →
      (d.storeFade mode channel targetDuty desiredFadeTimeMs).fadeStarts m mode channel fadeMode
        created ∨
      d.storeFade mode channel targetDuty desiredFadeTimeMs = d ∧
        d.fadeRefused m mode channel fadeMode created
  | _ => True

section Sections

variable {d : Driver}

theorem timerConfig_error {config : Option TimerConfig} {originUs : ℤ}
    (h : (d.timerConfig config originUs).1 ≠ .ok) :
    (d.timerConfig config originUs).2 = (d, []) := by
  revert h
  unfold Driver.timerConfig
  split
  · simp
  · split
    · simp
    · split <;> simp

theorem channelConfig_error {config : Option ChannelConfig}
    (h : (d.channelConfig config).1 ≠ .ok) : (d.channelConfig config).2 = (d, []) := by
  revert h
  unfold Driver.channelConfig
  split
  · simp
  · split
    · simp
    · split
      · simp
      · dsimp only
        split
        · simp
        · split <;> simp

theorem fadeFuncInstall_error {alloc : Except EspErr ℕ} {enabled : Bool}
    (h : (d.fadeFuncInstall alloc enabled).1 ≠ .ok) : (d.fadeFuncInstall alloc enabled).2 = d := by
  revert h
  unfold Driver.fadeFuncInstall
  split
  · simp
  · split
    · simp
    · split <;> simp

theorem cbRegister_error {mode channel userArg : ℕ} {cbs : Option (Option ℕ)}
    (h : (d.cbRegister mode channel cbs userArg).1 ≠ .ok) :
    (d.cbRegister mode channel cbs userArg).2 = d := by
  revert h
  unfold Driver.cbRegister
  split
  · simp
  · split
    · simp
    · dsimp only
      split <;> simp

theorem setDuty_error {mode channel duty : ℕ} (h : (d.setDuty mode channel duty).1 ≠ .ok) :
    (d.setDuty mode channel duty).2 = d := by
  revert h
  unfold Driver.setDuty
  dsimp only
  split
  · simp
  · split
    · simp
    · split <;> simp

theorem setDutyWithHpoint_error {mode channel duty hpoint : ℕ}
    (h : (d.setDutyWithHpoint mode channel duty hpoint).1 ≠ .ok) :
    (d.setDutyWithHpoint mode channel duty hpoint).2 = d := by
  revert h
  unfold Driver.setDutyWithHpoint
  dsimp only
  split
  · simp
  · split
    · simp
    · split <;> simp

theorem updateDuty_error {mode channel : ℕ} (h : (d.updateDuty mode channel).1 ≠ .ok) :
    (d.updateDuty mode channel).2 = (d, []) := by
  revert h
  unfold Driver.updateDuty
  dsimp only
  split
  · simp
  · split
    · simp
    · split
      · simp
      · split <;> simp

theorem setDutyAndUpdate_error {mode channel duty hpoint : ℕ}
    (h : (d.setDutyAndUpdate mode channel duty hpoint).1 ≠ .ok) :
    (d.setDutyAndUpdate mode channel duty hpoint).2 = (d, []) := by
  revert h
  unfold Driver.setDutyAndUpdate
  dsimp only
  split
  · simp
  · split
    · simp
    · split
      · simp
      · split <;> simp

/-- `ledc_set_fade_with_time` stores the fade when its checks pass, and does nothing else. -/
theorem setFadeWithTime_eq (mode channel targetDuty : ℕ) {ms : ℕ} (hle : ms ≤ int32Max) :
    (d.fadeStorable mode channel targetDuty = true ∧
      d.setFadeWithTime mode channel targetDuty ms =
        (.ok, d.storeFade mode channel targetDuty ms)) ∨
    (d.fadeStorable mode channel targetDuty = false ∧
      (d.setFadeWithTime mode channel targetDuty ms).1 ≠ .ok ∧
      (d.setFadeWithTime mode channel targetDuty ms).2 = d) := by
  have hms : ((ms : ℤ) < 0 || (int32Max : ℤ) < ms) = false := by simp [hle]
  unfold Driver.setFadeWithTime Driver.fadeStorable
  rw [Bool.or_assoc, hms]
  cases hmode : validMode mode <;> cases hchannel : validChannel channel
  · simp
  · simp
  · simp
  cases hinstalled : d.fadeInstalled <;>
    cases hconfigured : (d.channels (fadeIndex mode channel)).configured
  · simp
  · simp
  · simp [hconfigured]
  cases hvalid : validOutput (d.timerOf mode (d.channels (fadeIndex mode channel))) targetDuty
    (d.channels (fadeIndex mode channel)).hpoint
  · simp [hconfigured, hvalid]
  · simp [hconfigured, hvalid, Driver.storeFade]

theorem setFadeWithTime_error {mode channel targetDuty : ℕ} {ms : ℤ}
    (h : (d.setFadeWithTime mode channel targetDuty ms).1 ≠ .ok) :
    (d.setFadeWithTime mode channel targetDuty ms).2 = d := by
  revert h
  unfold Driver.setFadeWithTime
  split
  · simp
  · dsimp only
    split
    · simp
    · split <;> simp

/-- A start that is not ready ends in an error. -/
theorem fadeStart_notReady {mode channel : ℕ} {fadeMode : FadeMode} {created : Bool}
    (h : d.fadeReady mode channel fadeMode created = false) :
    ∃ error, error ≠ .ok ∧ d.fadeStart mode channel fadeMode created = .error error := by
  unfold Driver.fadeStart
  dsimp only
  split
  · exact ⟨.invalidArg, by simp, rfl⟩
  split
  · exact ⟨.invalidState, by simp, rfl⟩
  split
  · exact ⟨.invalidArg, by simp, rfl⟩
  rename_i hargs hstate houtput
  refine ⟨.invalidState, by simp, ?_⟩
  unfold Driver.fadeReady at h
  cases hgate : (d.channels (fadeIndex mode channel)).gate with
  | none =>
    cases hcreated : created with
    | false => simp [Driver.ensureGate, hgate]
    | true => simp_all
  | some gate =>
    cases hsemaphore : d.semaphores gate with
    | false => simp [Driver.ensureGate, Driver.take, hgate, hsemaphore]
    | true => simp_all

/-- A start that is ready takes the gate; giving it back undoes this, unless the gate is
new. -/
theorem fadeStart_ready {mode channel : ℕ} {fadeMode : FadeMode} {created : Bool}
    (h : d.fadeReady mode channel fadeMode created = true) :
    ∃ gate d', d.fadeStart mode channel fadeMode created =
        .ok (gate, d.request mode channel, d') ∧ d'.engine = d.engine ∧
      ((d.channels (fadeIndex mode channel)).gate ≠ none ∧ d'.give gate = d ∨
        (d.channels (fadeIndex mode channel)).gate = none ∧
          ((d'.give gate).channels (fadeIndex mode channel)).gate ≠ none) := by
  unfold Driver.fadeReady at h
  simp only [Bool.and_eq_true, decide_eq_true_eq, ne_eq] at h
  obtain ⟨⟨⟨⟨⟨⟨hmode, hchannel⟩, hfade⟩, hinstalled⟩, hconfigured⟩, houtput⟩, hgate⟩ := h
  unfold Driver.fadeStart
  have hargs : (!validMode mode || !validChannel channel || decide (fadeMode = .max)) = false := by
    simp [hmode, hchannel, hfade]
  rw [hargs]
  simp only [hinstalled, hconfigured, houtput, Bool.not_true, Bool.or_false, Bool.false_eq_true,
    if_false]
  cases hhandle : (d.channels (fadeIndex mode channel)).gate with
  | none =>
    rw [hhandle] at hgate
    simp only [Driver.ensureGate, hhandle, hgate, if_true, Driver.take, Driver.give, Driver.setChannel,
      Option.bind_some, Option.map_some, Function.update_self]
    have hrequest : ∀ semaphores count, Driver.request { d with
        channels := Function.update d.channels (fadeIndex mode channel)
          { d.channels (fadeIndex mode channel) with gate := some d.semaphoreCount }
        semaphores := semaphores
        semaphoreCount := count } mode channel = d.request mode channel := by
      intro semaphores count
      simp [Driver.request, Driver.timerOf]
    rw [hrequest]
    refine ⟨d.semaphoreCount, _, rfl, rfl, Or.inr ⟨trivial, ?_⟩⟩
    simp
  | some gate =>
    rw [hhandle] at hgate
    simp only [Driver.ensureGate, hhandle, Driver.take, hgate, if_true, Option.bind_some,
      Option.map_some]
    refine ⟨gate, _, rfl, rfl, Or.inl ⟨by simp, ?_⟩⟩
    have hsame : Function.update (Function.update d.semaphores gate false) gate true =
        d.semaphores := by
      rw [Function.update_idem, ← hgate, Function.update_eq_self]
    simp [Driver.give, hsame]

end Sections

section Start

variable {b : Board} {m : Moment} {request : Request}

theorem finalize_generation (e : Engine) (item : Delivery) (index : ℕ) :
    ((e.finalize item).2.channels index).generation = (e.channels index).generation := by
  unfold Engine.finalize
  dsimp only
  split
  · by_cases hindex : index = item.channel
    · subst hindex
      simp
    · simp [Function.update_of_ne hindex]
  · rfl

theorem storeAlarm_generation (e : Engine) (channel generation alarm index : ℕ) :
    ((e.storeAlarm channel generation alarm).channels index).generation =
      (e.channels index).generation := by
  unfold Engine.storeAlarm
  dsimp only
  split
  · by_cases hindex : index = channel
    · subst hindex
      simp
    · simp [Function.update_of_ne hindex]
  · rfl

/-- A delivery leaves the generations of the channels alone. -/
theorem deliver_generation (b : Board) (items : List Delivery) (index : ℕ) :
    ((b.deliver items).driver.engine.channels index).generation =
      (b.driver.engine.channels index).generation := by
  induction items generalizing b with
  | nil => rfl
  | cons item items ih =>
    unfold Board.deliver
    split
    · rw [ih]
      dsimp only
      split
      · exact finalize_generation ..
      · rfl
    · exact ih b

theorem drain_generation (b : Board) (drainNow : Bool) (index : ℕ) :
    ((b.drain drainNow).driver.engine.channels index).generation =
      (b.driver.engine.channels index).generation := by
  unfold Board.drain
  split
  · exact deliver_generation ..
  · rfl

theorem start_generation {e e' : Engine} {nowUs : ℤ} {generation : ℕ} {drainNow : Bool}
    (h : e.start request nowUs = some (generation, drainNow, e')) :
    (e'.channels request.channel).generation ≠ (e.channels request.channel).generation := by
  have hnext : ((e.channels request.channel).generation + 1) % FadeEngine.uint64Size ≠
      (e.channels request.channel).generation := by
    unfold FadeEngine.uint64Size
    omega
  unfold Engine.start at h
  dsimp only at h
  split at h
  · split at h
    · obtain ⟨-, h⟩ := Prod.mk.inj (Option.some.inj h)
      obtain ⟨-, rfl⟩ := Prod.mk.inj h
      simpa [Engine.enqueue] using hnext
    · obtain ⟨-, h⟩ := Prod.mk.inj (Option.some.inj h)
      obtain ⟨-, rfl⟩ := Prod.mk.inj h
      simpa [Engine.enqueue] using hnext
  · cases h

theorem engineStart_isSome (e : Engine) (nowUs : ℤ) : (e.start request nowUs).isSome =
    ((e.channels request.channel).state = .idle || (e.channels request.channel).state = .cancelled) := by
  unfold Engine.start
  dsimp only
  split
  · split <;> simp_all
  · simp_all

theorem startEngine_isSome : (b.startEngine m request).isSome = b.driver.engineTakes m request := by
  unfold Board.startEngine Driver.engineTakes
  split
  · rename_i haccepted
    rw [haccepted, Option.isSome_map, engineStart_isSome, Bool.true_and]
  · rename_i haccepted
    rw [Bool.not_eq_true] at haccepted
    rw [haccepted, Bool.false_and]
    rfl

theorem startEngine_generation {b' : Board} (h : b.startEngine m request = some b') :
    (b'.driver.engine.channels request.channel).generation ≠
      (b.driver.engine.channels request.channel).generation := by
  unfold Board.startEngine at h
  split at h
  · obtain ⟨⟨generation, drainNow, e⟩, hstart, rfl⟩ := Option.map_eq_some_iff.mp h
    have hnew := start_generation hstart
    rw [drain_generation]
    dsimp only
    split
    · exact hnew
    · rw [storeAlarm_generation]
      exact hnew
  · cases h

/-- What `ledc_fade_start` does, by the checks of the driver and the engine. -/
theorem fadeStart_cases (b : Board) (m : Moment) (mode channel : ℕ) (fadeMode : FadeMode)
    (created : Bool) :
    (b.driver.fadeReady mode channel fadeMode created = false ∧
      (b.fadeStart m mode channel fadeMode created).1 ≠ .ok ∧
      (b.fadeStart m mode channel fadeMode created).2 = b) ∨
    (b.driver.fadeReady mode channel fadeMode created = true ∧
      b.driver.engineTakes m (b.driver.request mode channel) = true ∧
      ((b.fadeStart m mode channel fadeMode created).1 = .ok ↔
        ¬(fadeMode = .waitDone ∧ m.running = false)) ∧
      (b.fadeStart m mode channel fadeMode created).2.driver.engine ≠ b.driver.engine) ∨
    (b.driver.fadeReady mode channel fadeMode created = true ∧
      b.driver.engineTakes m (b.driver.request mode channel) = false ∧
      (b.fadeStart m mode channel fadeMode created).1 ≠ .ok ∧
      ((b.driver.channels (fadeIndex mode channel)).gate ≠ none ∧
          (b.fadeStart m mode channel fadeMode created).2 = b ∨
        (b.driver.channels (fadeIndex mode channel)).gate = none ∧
          ((b.fadeStart m mode channel fadeMode created).2.driver.channels
            (fadeIndex mode channel)).gate ≠ none)) := by
  cases hready : b.driver.fadeReady mode channel fadeMode created with
  | false =>
    obtain ⟨error, herror, hsection⟩ := fadeStart_notReady hready
    left
    simp only [Board.fadeStart, hsection]
    exact ⟨trivial, herror, trivial⟩
  | true =>
    right
    obtain ⟨gate, d', hsection, hengine, hgive⟩ := fadeStart_ready hready
    have htakes : d'.engineTakes m (b.driver.request mode channel) =
        b.driver.engineTakes m (b.driver.request mode channel) := by
      simp only [Driver.engineTakes, hengine]
    have hsome : (Board.startEngine { b with driver := d' } m
        (b.driver.request mode channel)).isSome =
        b.driver.engineTakes m (b.driver.request mode channel) :=
      startEngine_isSome.trans htakes
    simp only [Board.fadeStart, hsection]
    cases hstart : Board.startEngine { b with driver := d' } m (b.driver.request mode channel) with
    | none =>
      right
      rw [hstart] at hsome
      refine ⟨trivial, hsome.symm, by simp, ?_⟩
      rcases hgive with ⟨hgate, hsame⟩ | ⟨hgate, hnew⟩
      · left
        refine ⟨hgate, ?_⟩
        dsimp only
        rw [hsame]
      · exact Or.inr ⟨hgate, hnew⟩
    | some b' =>
      left
      rw [hstart] at hsome
      have hgeneration := startEngine_generation hstart
      have hmoved : b'.driver.engine ≠ b.driver.engine := by
        intro heq
        rw [heq, hengine] at hgeneration
        exact hgeneration rfl
      dsimp only
      refine ⟨trivial, hsome.symm, ?_⟩
      by_cases hwait : fadeMode = .waitDone
      · rw [if_pos hwait]
        cases hrunning : m.running with
        | true => simpa [hwait] using hmoved
        | false => simpa [hwait] using hmoved
      · rw [if_neg hwait]
        simpa [hwait] using hmoved

end Start

theorem harmless_fadeStart_iff (b : Board) (m : Moment) (mode channel : ℕ) (fadeMode : FadeMode)
    (created : Bool) :
    ((b.fadeStart m mode channel fadeMode created).1 ≠ .ok →
      (b.fadeStart m mode channel fadeMode created).2 = b) ↔
    (b.driver.fadeStarts m mode channel fadeMode created ∨
      b.driver.fadeRefused m mode channel fadeMode created) := by
  unfold Driver.fadeStarts Driver.fadeRefused
  rcases fadeStart_cases b m mode channel fadeMode created with
    ⟨hready, herror, hsame⟩ | ⟨hready, htakes, hok, hmoved⟩ | ⟨hready, htakes, herror, hgate⟩
  · simp [hready, hsame]
  · have hne : (b.fadeStart m mode channel fadeMode created).2 ≠ b := fun heq =>
      hmoved (by rw [heq])
    simp only [hready, htakes, true_and, Bool.true_eq_false, false_and, imp_false, or_false, ne_eq,
      not_true_eq_false, hne, not_not, hok]
  · rcases hgate with ⟨hgate, hsame⟩ | ⟨hgate, hnew⟩
    · simp [hready, htakes, hsame, hgate]
    · have hne : (b.fadeStart m mode channel fadeMode created).2 ≠ b := by
        intro heq
        rw [heq] at hnew
        exact hnew hgate
      simp [hready, htakes, herror, hne, hgate]

/-- The combined call, once it has stored a fade. -/
theorem harmless_storedStart_iff (b : Board) (m : Moment) (mode channel : ℕ) (fadeMode : FadeMode)
    (created : Bool) {d : Driver} (hengine : d.engine = b.driver.engine)
    (hgate : (d.channels (fadeIndex mode channel)).gate =
      (b.driver.channels (fadeIndex mode channel)).gate) :
    ((Board.fadeStart { b with driver := d } m mode channel fadeMode created).1 ≠ .ok →
      (Board.fadeStart { b with driver := d } m mode channel fadeMode created).2 = b) ↔
    (d.fadeStarts m mode channel fadeMode created ∨
      d = b.driver ∧ b.driver.fadeRefused m mode channel fadeMode created) := by
  by_cases hd : d = b.driver
  · subst hd
    simpa using harmless_fadeStart_iff b m mode channel fadeMode created
  · unfold Driver.fadeStarts
    have hb : ({ b with driver := d } : Board) ≠ b := fun heq => hd (congrArg Board.driver heq)
    rcases fadeStart_cases { b with driver := d } m mode channel fadeMode created with
      ⟨hready, herror, hsame⟩ | ⟨hready, htakes, hok, hmoved⟩ | ⟨hready, htakes, herror, hcases⟩
    · simp [hready, hsame, hd, hb, herror]
    · have hne : (Board.fadeStart { b with driver := d } m mode channel fadeMode created).2 ≠ b :=
        fun heq => hmoved (by rw [heq]; exact hengine.symm)
      simp only [hready, htakes, true_and, hd, false_and, or_false, imp_false, ne_eq, not_not, hok,
        hne]
    · have hne : (Board.fadeStart { b with driver := d } m mode channel fadeMode created).2 ≠ b := by
        rcases hcases with ⟨-, hsame⟩ | ⟨hnone, hnew⟩
        · rw [hsame]
          exact hb
        · intro heq
          rw [heq] at hnew
          exact hnew (hgate.symm.trans hnone)
      simp [hready, htakes, herror, hne, hd]

/-- A call that fails leaves everything as it was exactly when it is not one of the fade
starts that go too far. -/
theorem errors_harmless_iff (b : Board) (m : Moment) (call : Call) :
    ((b.perform m call).1 ≠ .ok → (b.perform m call).2 = b) ↔ Harmless b.driver m call := by
  cases call with
  | timerConfig config originUs =>
    refine iff_of_true (fun h => ?_) trivial
    simp only [Board.perform, Board.commit] at h ⊢
    rw [timerConfig_error h]
    rfl
  | channelConfig config =>
    refine iff_of_true (fun h => ?_) trivial
    simp only [Board.perform, Board.commit] at h ⊢
    rw [channelConfig_error h]
    rfl
  | fadeFuncInstall alloc enabled =>
    refine iff_of_true (fun h => ?_) trivial
    simp only [Board.perform, Board.settle] at h ⊢
    rw [fadeFuncInstall_error h]
  | cbRegister mode channel cbs userArg =>
    refine iff_of_true (fun h => ?_) trivial
    simp only [Board.perform, Board.settle] at h ⊢
    rw [cbRegister_error h]
  | setDuty mode channel duty =>
    refine iff_of_true (fun h => ?_) trivial
    simp only [Board.perform, Board.settle] at h ⊢
    rw [setDuty_error h]
  | setDutyWithHpoint mode channel duty hpoint =>
    refine iff_of_true (fun h => ?_) trivial
    simp only [Board.perform, Board.settle] at h ⊢
    rw [setDutyWithHpoint_error h]
  | updateDuty mode channel =>
    refine iff_of_true (fun h => ?_) trivial
    simp only [Board.perform, Board.commit] at h ⊢
    rw [updateDuty_error h]
    rfl
  | setDutyAndUpdate mode channel duty hpoint =>
    refine iff_of_true (fun h => ?_) trivial
    simp only [Board.perform, Board.commit] at h ⊢
    rw [setDutyAndUpdate_error h]
    rfl
  | setFadeWithTime mode channel targetDuty desiredFadeTimeMs =>
    refine iff_of_true (fun h => ?_) trivial
    simp only [Board.perform, Board.settle] at h ⊢
    rw [setFadeWithTime_error h]
  | fadeStart mode channel fadeMode created => exact harmless_fadeStart_iff ..
  | setFadeTimeAndStart mode channel targetDuty ms fadeMode created =>
    simp only [Board.perform, Harmless]
    by_cases hms : int32Max < ms
    · rw [if_pos hms]
      exact iff_of_true (fun _ => rfl) fun hle => absurd hle (by omega)
    · rw [if_neg hms]
      rcases setFadeWithTime_eq (d := b.driver) mode channel targetDuty (not_lt.mp hms) with
        ⟨hstorable, hstored⟩ | ⟨hstorable, herror, hsame⟩
      · simp only [hstored, if_true, hstorable, true_imp_iff, not_lt.mp hms]
        refine harmless_storedStart_iff b m mode channel fadeMode created rfl ?_
        simp [Driver.storeFade, Driver.setChannel]
      · rw [if_neg herror]
        simp [hstorable, hsame]
  | fadeFuncUninstall => exact iff_of_true (fun h => absurd rfl h) trivial

/-- A second combined call while the first fade runs: it cannot take the gate, and has
stored its target. -/
theorem error_unchanged_secondFade :
    ¬∀ (calls : List (Moment × Call)) (m : Moment) (call : Call),
      let b := calls.foldl (fun b c => (b.perform c.1 c.2).2) boardStart
      (b.perform m call).1 ≠ .ok → (b.perform m call).2 = b := by
  intro h
  have hsame := h
    [(⟨false, 0, 0, true⟩, .timerConfig (some { dutyResolution := 8, freqHz := 5000 }) 0),
      (⟨false, 0, 0, true⟩, .channelConfig (some { gpioNum := 2 })),
      (⟨false, 0, 0, true⟩, .fadeFuncInstall (.ok 1) true),
      (⟨false, 0, 1, true⟩, .setFadeTimeAndStart 0 0 200 1000 .noWait true)]
    ⟨false, 10, 2, true⟩ (.setFadeTimeAndStart 0 0 100 500 .noWait true) (by decide)
  have htarget := congrArg (fun b => (b.driver.channels 0).fadeTarget) hsame
  revert htarget
  decide

end RooTesting.LedcDriver
