import RooTesting.PicoEffects

/-! # Pin ownership

A pin that an input or a bus is attached to is never driven by the board. Devices of one
bus share its pins, and any other attached device has its pins to itself. What is attached
to a configured pin stays. -/
namespace RooTesting.PicoBoard
open Transition

structure Owned (b : Board) : Prop where
  fresh : ∀ pin, b.configured pin = false → b.pins pin = {}
  undriven : ∀ pin, (b.attachments pin).exclusive = true → b.drive pin = none
  kind : ∀ pin, ∀ c ∈ b.claims pin, c.attachment = b.attachments pin
  single : ∀ pin, (b.attachments pin).shared = false → (b.claims pin).length ≤ 1

/-- The board as far as ownership goes is the same. -/
structure Apart (b b' : Board) : Prop where
  pins : b'.pins = b.pins
  configured : b'.configured = b.configured
  pwms : b'.pwms = b.pwms
  attachments : b'.attachments = b.attachments
  claims : ∀ pin, b'.claims pin = b.claims pin

/-- What has been attached stays, and so does everything at a configured pin. -/
structure Later (b b' : Board) : Prop where
  attachments : ∀ pin, b.attachments pin ≠ .none → b'.attachments pin = b.attachments pin
  settled : ∀ pin, b.configured pin = true → b'.configured pin = true ∧
    b'.attachments pin = b.attachments pin ∧ b'.claims pin = b.claims pin

theorem Later.refl (b : Board) : Later b b := ⟨fun _ _ => rfl, fun _ h => ⟨h, rfl, rfl⟩⟩

theorem Later.trans {a b c : Board} (hab : Later a b) (hbc : Later b c) : Later a c := by
  constructor
  · intro pin hpin
    have hb := hab.attachments pin hpin
    rw [← hb] at hpin ⊢
    exact hbc.attachments pin hpin
  · intro pin hpin
    obtain ⟨hb, hattach, hclaims⟩ := hab.settled pin hpin
    obtain ⟨hc, hattach', hclaims'⟩ := hbc.settled pin hb
    exact ⟨hc, hattach'.trans hattach, hclaims'.trans hclaims⟩

theorem initial_owned : Owned initial where
  fresh := fun _ _ => rfl
  undriven := fun _ h => by simp [initial, Attachment.exclusive] at h
  kind := fun _ _ h => by simp [initial, Board.claims, GpioDevice.claims] at h
  single := fun _ _ => by simp [initial, Board.claims, GpioDevice.claims]

/-- A pin without state has no drive: its function is the reset one. -/
theorem Owned.drive_fresh {b : Board} (h : Owned b) {pin : ℕ} (hpin : b.configured pin = false) :
    b.drive pin = none := by
  simp [Board.drive, h.fresh pin hpin, Board.pinDrive, strongLevel]

theorem Owned.claims_free {b : Board} (h : Owned b) {pin : ℕ} (hpin : b.attachments pin = .none) :
    b.claims pin = [] := by
  rw [List.eq_nil_iff_forall_not_mem]
  intro c hc
  have hkind := h.kind pin c hc
  rw [hpin] at hkind
  cases c <;> simp [Claim.attachment] at hkind

section Change

variable {b b' : Board}

theorem Apart.drive (h : Apart b b') (pin : ℕ) : b'.drive pin = b.drive pin := by
  simp only [Board.drive, Board.pinDrive, h.pins, h.pwms]

theorem Apart.owned (h : Apart b b') (hb : Owned b) : Owned b' where
  fresh pin hpin := by
    rw [h.configured] at hpin
    rw [h.pins]
    exact hb.fresh pin hpin
  undriven pin hpin := by
    rw [h.attachments] at hpin
    rw [h.drive]
    exact hb.undriven pin hpin
  kind pin c hc := by
    rw [h.claims] at hc
    rw [h.attachments]
    exact hb.kind pin c hc
  single pin hpin := by
    rw [h.attachments] at hpin
    rw [h.claims]
    exact hb.single pin hpin

theorem Apart.later (h : Apart b b') : Later b b' where
  attachments pin _ := by rw [h.attachments]
  settled pin hpin := ⟨by rw [h.configured, hpin], by rw [h.attachments], h.claims pin⟩

theorem Steady.apart (h : Steady b b') : Apart b b' :=
  ⟨h.pins, h.configured, h.pwms, h.attachments, h.claims⟩

theorem Attached.owned {claim : Claim} {on : ℕ → Prop} (h : Attached b b' claim on)
    (hb : Owned b) : Owned b' := by
  have hdrive : ∀ pin, b'.drive pin = b.drive pin := by
    intro pin
    simp only [Board.drive, Board.pinDrive, h.pins, h.pwms]
  constructor
  · intro pin hpin
    rw [h.configured] at hpin
    rw [h.pins]
    exact hb.fresh pin hpin
  · intro pin hexclusive
    rw [hdrive]
    by_cases hon : on pin
    · exact hb.drive_fresh (h.free pin hon).1
    · rw [h.attachments_off pin hon] at hexclusive
      exact hb.undriven pin hexclusive
  · intro pin c hc
    by_cases hon : on pin
    · rw [h.attachments_on pin hon]
      rw [(h.claims_on pin hon hb.claims_free).mem_iff] at hc
      rcases List.mem_cons.mp hc with rfl | hc
      · rfl
      · rcases (h.free pin hon).2 with hnone | ⟨-, hsame⟩
        · rw [hb.claims_free hnone] at hc
          exact absurd hc List.not_mem_nil
        · exact (hb.kind pin c hc).trans hsame
    · rw [h.claims_off pin hon] at hc
      rw [h.attachments_off pin hon]
      exact hb.kind pin c hc
  · intro pin hshared
    by_cases hon : on pin
    · rw [h.attachments_on pin hon] at hshared
      have hnone : b.attachments pin = .none := by
        rcases (h.free pin hon).2 with hnone | ⟨htrue, -⟩
        · exact hnone
        · exact absurd (htrue.symm.trans hshared) (by simp)
      have hlength := (h.claims_on pin hon hb.claims_free).length_eq
      rw [hb.claims_free hnone] at hlength
      exact hlength.le
    · rw [h.attachments_off pin hon] at hshared
      rw [h.claims_off pin hon]
      exact hb.single pin hshared

theorem Attached.later {claim : Claim} {on : ℕ → Prop} (h : Attached b b' claim on) :
    Later b b' := by
  constructor
  · intro pin hpin
    by_cases hon : on pin
    · rcases (h.free pin hon).2 with hnone | ⟨-, hsame⟩
      · exact absurd hnone hpin
      · exact (h.attachments_on pin hon).trans hsame.symm
    · exact h.attachments_off pin hon
  · intro pin hpin
    have hoff : ¬on pin := by
      intro hon
      rw [(h.free pin hon).1] at hpin
      exact absurd hpin (by simp)
    exact ⟨by rw [h.configured, hpin], h.attachments_off pin hoff, h.claims_off pin hoff⟩

theorem Updated.owned {changed : BitVec 32} (h : Updated b b' changed) (hb : Owned b) :
    Owned b' := by
  constructor
  · intro pin hpin
    have hbefore : b.configured pin = false := by
      by_contra hne
      rw [h.configured pin (by simpa using hne)] at hpin
      exact absurd hpin (by simp)
    rw [h.fresh pin hpin]
    exact hb.fresh pin hbefore
  · intro pin hexclusive
    rw [h.attachments] at hexclusive
    rcases h.room pin hexclusive with hnone | hsame
    · exact hnone
    · have hdrive : b'.drive pin = b.drive pin := by
        simp only [Board.drive, Board.pinDrive, hsame, h.pwms]
      rw [hdrive]
      exact hb.undriven pin hexclusive
  · intro pin c hc
    rw [h.claims] at hc
    rw [h.attachments]
    exact hb.kind pin c hc
  · intro pin hshared
    rw [h.attachments] at hshared
    rw [h.claims]
    exact hb.single pin hshared

theorem Updated.later {changed : BitVec 32} (h : Updated b b' changed) : Later b b' where
  attachments pin _ := by rw [h.attachments]
  settled pin hpin := ⟨h.configured pin hpin, by rw [h.attachments], h.claims pin⟩

/-- Only the pins that follow a slice depend on it, and these are driven already. -/
theorem Sliced.owned {slice : ℕ} (h : Sliced b b' slice) (hb : Owned b) : Owned b' := by
  constructor
  · intro pin hpin
    rw [h.configured] at hpin
    rw [h.pins]
    exact hb.fresh pin hpin
  · intro pin hexclusive
    rw [h.attachments] at hexclusive
    have hnone := hb.undriven pin hexclusive
    by_contra hne
    have hpwm := (h.changed pin fun heq => hne (heq.trans hnone)).1
    simp only [Board.drive, Board.pinDrive, if_pos hpwm] at hnone
    split at hnone <;> simp at hnone
  · intro pin c hc
    rw [h.claims] at hc
    rw [h.attachments]
    exact hb.kind pin c hc
  · intro pin hshared
    rw [h.attachments] at hshared
    rw [h.claims]
    exact hb.single pin hshared

theorem Sliced.later {slice : ℕ} (h : Sliced b b' slice) : Later b b' where
  attachments pin _ := by rw [h.attachments]
  settled pin hpin := ⟨by rw [h.configured, hpin], by rw [h.attachments], h.claims pin⟩

theorem Effect.owned {task : Option Task} (h : Effect b b' task) (hb : Owned b) : Owned b' := by
  cases h with
  | steady h => exact h.apart.owned hb
  | attached h => exact h.owned hb
  | updated h => exact h.owned hb
  | sliced h => exact h.owned hb

theorem Effect.later {task : Option Task} (h : Effect b b' task) : Later b b' := by
  cases h with
  | steady h => exact h.apart.later
  | attached h => exact h.later
  | updated h => exact h.later
  | sliced h => exact h.later

end Change

theorem write_apart (b : Board) (pin : ℕ) (signal : VoltageSignal) :
    Apart b (b.write pin signal) := by
  refine ⟨rfl, rfl, rfl, rfl, fun p => ?_⟩
  by_cases hp : p = pin
  · subst hp
    simp [Board.claims, Board.write]
  · simp [Board.claims, Board.write, Function.update_of_ne hp]

theorem finish_apart (b : Board) (task : Task) : Apart b (task.finish b) := by
  cases task with
  | drives changed adcPin => cases adcPin <;> exact ⟨rfl, rfl, rfl, rfl, fun _ => rfl⟩
  | slice slice => exact ⟨rfl, rfl, rfl, rfl, fun _ => rfl⟩

theorem visit_apart (b : Board) (f : Frame) (frames : List Frame) :
    Apart b (Session.visit b f frames).board := by
  have hrefl : Apart b b := (Steady.refl b).apart
  unfold Session.visit
  split
  · split
    · exact write_apart ..
    · exact hrefl
  · exact finish_apart ..

variable {fixture : Fixture}

/-- An operation makes one of the four changes or is rejected; the publication loop
changes nothing that ownership depends on. -/
theorem step_change {s s' : Session} {e : Event} (h : step fixture s e = some s') :
    Apart s.board s'.board ∨ ∃ task, Effect s.board s'.board task := by
  have hrefl : Apart s.board s.board := (Steady.refl s.board).apart
  cases e with
  | call op =>
    obtain ⟨-, rfl⟩ := step_call h
    unfold Session.call
    split
    · rename_i hop
      exact Or.inr ⟨none, perform_effect hop⟩
    · rename_i hop
      exact Or.inr ⟨_, perform_effect hop⟩
    · exact Or.inl hrefl
  | visit =>
    obtain ⟨f, frames, -, -, rfl⟩ := step_visit h
    exact Or.inl (visit_apart ..)
  | sinkReturns =>
    obtain ⟨f, frames, -, rfl⟩ := step_sinkReturns h
    exact Or.inl hrefl

theorem step_owned : Preserves (step fixture) fun s => Owned s.board := by
  intro s e s' h hs
  rcases step_change h with hapart | ⟨task, heffect⟩
  · exact hapart.owned hs
  · exact heffect.owned hs

theorem step_later {s s' : Session} {e : Event} (h : step fixture s e = some s') :
    Later s.board s'.board := by
  rcases step_change h with hapart | ⟨task, heffect⟩
  · exact hapart.later
  · exact heffect.later

theorem run_owned {es : List Event} {s : Session}
    (h : run (step fixture) Session.start es = some s) : Owned s.board :=
  step_owned.run h initial_owned

theorem run_later {es : List Event} {s s' : Session} (h : run (step fixture) s es = some s') :
    Later s.board s'.board :=
  run_rel (R := fun s s' => Later s.board s'.board) (fun s => Later.refl s.board)
    (fun _ _ _ => Later.trans) (fun _ _ _ => step_later) h

/-- In every run no pin with an input or a bus attached is driven; two devices claim one
pin only on a bus they share; attachments and everything at a configured pin stay. -/
theorem ownership_contract {es : List Event} {s : Session}
    (h : run (step fixture) Session.start es = some s) (pin : ℕ) :
    ((s.board.attachments pin).exclusive = true → s.board.drive pin = none) ∧
    (∀ c ∈ s.board.claims pin, c.attachment = s.board.attachments pin) ∧
    ((s.board.attachments pin).shared = false → (s.board.claims pin).length ≤ 1) ∧
    ∀ fs s', run (step fixture) s fs = some s' →
      (s.board.attachments pin ≠ .none →
        s'.board.attachments pin = s.board.attachments pin) ∧
      (s.board.configured pin = true → s'.board.attachments pin = s.board.attachments pin ∧
        s'.board.claims pin = s.board.claims pin) := by
  have howned := run_owned h
  refine ⟨howned.undriven pin, howned.kind pin, howned.single pin, fun fs s' hr => ?_⟩
  have hlater := run_later hr
  exact ⟨hlater.attachments pin, fun hset => (hlater.settled pin hset).2⟩

/-- A button on pin 5, the attempt to drive it, and the same pin as an input. -/
def buttonCalls : List Event :=
  [.call (.attachInput 5 0), .call (.setFunction 0x20 .pwm), .call (.init 0x20)]

theorem ownership_contract_button :
    ∃ s, run (step ⟨false, fun _ => 8, id⟩) Session.start buttonCalls = some s ∧
      s.board.configured 5 = true ∧ s.board.drive 5 = none := by
  refine ⟨_, rfl, rfl, ?_⟩
  exact (@ownership_contract ⟨false, fun _ => 8, id⟩ buttonCalls _ rfl 5).1 rfl

/-- Two devices on the clock and data pins of one bus. -/
theorem single_claim_twoSpiDevices :
    ¬∀ (fixture : Fixture) (es : List Event) (s : Session),
      run (step fixture) Session.start es = some s →
        ∀ pin, (s.board.claims pin).length ≤ 1 := by
  intro h
  have hrun := h ⟨false, fun _ => 8, id⟩
    [.call (.attachSpiDevice 0 2 (-1) 3), .call (.attachSpiDevice 1 2 (-1) 3)] _ rfl 2
  revert hrun
  decide

end RooTesting.PicoBoard
