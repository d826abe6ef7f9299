import RooTesting.FadeDelivery

/-! # Who drains the delivery queue

The draining flag has one holder: a thread in the drain loop or one that is about to
enter it. The queue is empty when a drainer has decided to stop and stays so until the
release, unless something is appended in between. -/
namespace RooTesting.FadeEngine
open Transition Threads

structure Drainer (c : System) : Prop where
  held : Held owners c.thread c.shared.draining
  active : ∀ t, (c.thread t).active = true ↔ 0 < drains (c.thread t)

/-- The queue is empty where nobody would look at it. -/
structure Drained (c : System) : Prop where
  free : c.shared.draining = false → c.shared.delivery = []
  leaving : ∀ t, .relinquish ∈ (c.thread t).stack → c.shared.delivery = []

theorem drainer_start : Drainer start :=
  ⟨fun _ => rfl, fun _ => by simp [start, drains]⟩

theorem drained_start : Drained start :=
  ⟨fun _ => rfl, fun _ h => by simp [start] at h⟩

theorem drains_le_owners (l : Local) : drains l ≤ owners l :=
  List.countP_mono_left fun f _ h => by simp [h]

/-- One frame of the drain loop in the place of another. -/
theorem counts_replace {l l' : Local} {f g : Frame} {rest : List Frame} (hl : l.stack = f :: rest)
    (hl' : l'.stack = g :: rest) (hf : f.drains = true) (hg : g.drains = true) :
    owners l' = owners l ∧ drains l' = drains l := by
  simp [owners, drains, hl, hl', hf, hg]

section Steps

variable {c : System} {t : ℕ} {a : Event} {e' : Engine} {l' : Local}

/-- A thread that is about to drain does not hold a drain loop already. -/
theorem Drainer.inactive (h : Drainer c) {f : Frame} (hf : f ∈ (c.thread t).stack)
    (hw : f.willDrain = true) : (c.thread t).active = false := by
  have hfd : f.drains = false := by cases f <;> first | rfl | cases hw
  have hlt : drains (c.thread t) < owners (c.thread t) := by
    obtain ⟨xs, ys, hst⟩ := List.append_of_mem hf
    have hx := drains_le_owners ⟨false, xs⟩
    have hy := drains_le_owners ⟨false, ys⟩
    simp only [drains, owners, hst, List.countP_append, List.countP_cons, hfd, hw, Bool.or_true,
      if_true] at hx hy ⊢
    simp only [Bool.false_eq_true, if_false]
    omega
  have hone := h.held.count_le_one t
  cases hact : (c.thread t).active with
  | false => rfl
  | true =>
    have := (h.active t).mp hact
    omega

theorem Drainer.step (h : Drainer c) (he : Effect c.shared (c.thread t) a e' l') :
    Drainer ⟨e', Function.update c.thread t l'⟩ := by
  have others : ((l'.active = true) ↔ 0 < drains l') →
      ∀ u, (Function.update c.thread t l' u).active = true ↔
        0 < drains (Function.update c.thread t l' u) := fun hl =>
    forall_update (Q := fun l => l.active = true ↔ 0 < drains l) |>.mpr ⟨hl, fun u _ => h.active u⟩
  have hactive := h.active t
  have hone := h.held.count_le_one t
  have hle := drains_le_owners (c.thread t)
  generalize hl : c.thread t = l at he hactive hone hle
  cases he with
  | quiet hq hd hact howners hdrains hrel =>
    exact ⟨hd ▸ h.held.keep (by rw [howners, hl]), others (by rw [hact, hdrains]; exact hactive)⟩
  | @append e' l' drainNow happ henq hact howners hdrains hrel =>
    refine ⟨?_, others (by rw [hact, hdrains]; exact hactive)⟩
    rw [happ.draining]
    cases hdr : c.shared.draining with
    | true =>
      have hheld := h.held
      rw [hdr] at hheld
      refine hheld.keep ?_
      simp [howners, happ.drainNow, hdr, hl]
    | false =>
      have hheld := h.held
      rw [hdr] at hheld
      have hzero := hheld t
      refine hheld.acquire ?_
      rw [hl] at hzero
      simp [howners, happ.drainNow, hdr, hzero]
  | enter heq =>
    subst heq
    refine ⟨h.held.keep (by rw [hl]; rfl), others ?_⟩
    simp [drains, Frame.drains]
  | @nested rest heq =>
    subst heq
    exact absurd (h.inactive (t := t) (f := .drain) (by simp [hl]) rfl) (by simp [hl])
  | @pop item items f rest hq hst hf hne =>
    have hsame := counts_replace hst (show (⟨l.active, f :: rest⟩ : Local).stack = f :: rest from rfl) rfl hf
    exact ⟨h.held.keep (by rw [hl]; exact hsame.1), others (by rw [hsame.2]; exact hactive)⟩
  | @stop rest hq hst =>
    have hsame := counts_replace hst
      (show (⟨l.active, .relinquish :: rest⟩ : Local).stack = .relinquish :: rest from rfl) rfl rfl
    exact ⟨h.held.keep (by rw [hl]; exact hsame.1), others (by rw [hsame.2]; exact hactive)⟩
  | @release rest hst =>
    have hrest : owners ⟨false, rest⟩ = 0 := by
      simp only [owners, hst, List.countP_cons, Frame.drains, Bool.true_or, if_true] at hone ⊢
      omega
    have hnone := drains_le_owners ⟨false, rest⟩
    refine ⟨h.held.release (t := t) ?_ hrest, others ?_⟩
    · simp [hl, owners, hst, Frame.drains]
    · simp only [Bool.false_eq_true, false_iff]
      omega

theorem Drained.step (h : Drained c) (hdr : Drainer c) (hok : ReleasesUndisturbed c (t, a))
    (he : Effect c.shared (c.thread t) a e' l') :
    Drained ⟨e', Function.update c.thread t l'⟩ := by
  -- a step after which the threads at their release were there before
  have keep : (e'.draining = false → e'.delivery = []) →
      (c.shared.delivery = [] → e'.delivery = []) →
      (.relinquish ∈ l'.stack → .relinquish ∈ (c.thread t).stack) →
      Drained ⟨e', Function.update c.thread t l'⟩ := fun hfree hq hrel =>
    ⟨hfree, fun u hu => hq (by
      by_cases hut : u = t
      · subst hut
        exact h.leaving u (hrel (by simpa using hu))
      · exact h.leaving u (by simpa [Function.update_of_ne hut] using hu))⟩
  generalize hl : c.thread t = l at he keep
  cases he with
  | quiet hq hd hact howners hdrains hrel =>
    exact keep (fun hh => hq ▸ h.free (hd ▸ hh)) (fun hh => hq ▸ hh) hrel
  | append happ henq hact howners hdrains hrel =>
    refine ⟨fun hh => absurd (happ.draining.symm.trans hh) (by decide), fun u hu => ?_⟩
    have hold : ∃ w, .relinquish ∈ (c.thread w).stack := by
      by_cases hut : u = t
      · subst hut
        exact ⟨u, hl ▸ hrel (by simpa using hu)⟩
      · exact ⟨u, by simpa [Function.update_of_ne hut] using hu⟩
    exact absurd (hok hold) (by simp [hl, henq])
  | enter heq =>
    subst heq
    exact keep h.free id (by simp)
  | nested heq =>
    subst heq
    exact absurd (hdr.inactive (t := t) (f := .drain) (by simp [hl]) rfl) (by simp [hl])
  | @pop item items f rest hq hst hf hne =>
    refine keep (fun hh => ?_) (fun hh => ?_) fun hmem => ?_
    · exact absurd (h.free hh) (by simp [hq])
    · exact absurd hh (by simp [hq])
    · rw [hst]
      exact List.mem_cons_of_mem _ ((List.mem_cons.mp hmem).resolve_left (Ne.symm hne))
  | @stop rest hq hst =>
    -- the drainer holds the flag, so it has seen the queue empty
    have hempty : c.shared.delivery = [] := by
      refine hq (hdr.held.true_of_pos (t := t) ?_)
      simp [hl, owners, hst, Frame.drains]
    exact ⟨fun _ => hempty, fun _ _ => hempty⟩
  | @release rest hst =>
    have hempty := h.leaving t (by simp [hl, hst])
    exact ⟨fun _ => hempty, fun _ _ => hempty⟩

theorem drained_step : PreservesWhen (fire step) ReleasesUndisturbed
    (fun c => Drainer c ∧ Drained c) := by
  rintro c ⟨t, a⟩ c' hok hstep ⟨hdr, hd⟩
  obtain ⟨e', l', hp, rfl⟩ := fire_eq_some.mp hstep
  exact ⟨hdr.step (effect_of_step hp), hd.step hdr hok (effect_of_step hp)⟩

end Steps

/-- A queue whose waiting items have a holder of the flag that is not on its way out is served. -/
theorem served_of_drained {c : System} (hdr : Drainer c) (hd : Drained c) : Served c := by
  intro hne
  have hdraining : c.shared.draining = true := by
    cases hb : c.shared.draining with
    | true => rfl
    | false => exact absurd (hd.free hb) hne
  have hheld := hdr.held
  rw [hdraining] at hheld
  obtain ⟨t, hone, -⟩ := hheld
  obtain ⟨f, hf, hown⟩ := List.countP_pos_iff.mp (hone.symm ▸ Nat.one_pos)
  refine ⟨hdraining, t, ?_⟩
  cases hw : f.willDrain with
  | true => exact Or.inr ⟨hdr.inactive hf hw, f, hf, hw⟩
  | false =>
    have hdrains : f.drains = true := by simpa [hw] using hown
    cases f with
    | relinquish => exact absurd (hd.leaving t hf) hne
    | loop => exact Or.inl ⟨_, hf, rfl⟩
    | write item => exact Or.inl ⟨_, hf, rfl⟩
    | finalize item => exact Or.inl ⟨_, hf, rfl⟩
    | notify => exact Or.inl ⟨_, hf, rfl⟩
    | _ => cases hdrains

/-- No delivery is stranded in a run in which nothing is appended while a drainer releases. -/
theorem deliveries_served {es : List (ℕ × Event)} {c : System}
    (hr : run (fire step) start es = some c)
    (hmeets : Meets (fire step) ReleasesUndisturbed start es) : Served c := by
  obtain ⟨hdr, hd⟩ := drained_step.run hmeets hr ⟨drainer_start, drained_start⟩
  exact served_of_drained hdr hd

section Instances

/-- A fade that completes at once on a channel of its own. -/
def immediateFade (channel : ℕ) : Request := { emptyRequest with
  channel := channel, pin := 2, frequencyHz := 1000, resolution := 4, targetDuty := 8 }

/-- A second fade is started while the first one is being delivered. -/
def startWhileDraining : List (ℕ × Event) :=
  [(1, .start (immediateFade 0) 0), (1, .resume), (2, .start (immediateFade 1) 0)]

theorem deliveries_served_startWhileDraining :
    ∃ c, run (fire step) start startWhileDraining = some c ∧ c.shared.delivery.length = 4 ∧
      Served c := by
  refine ⟨_, rfl, by decide, @deliveries_served startWhileDraining _ rfl ?_⟩
  refine .cons (fun ⟨_, ht⟩ => absurd ht (by simp [start])) rfl (.cons (fun _ => rfl) rfl
    (.cons (fun ⟨t, ht⟩ => ?_) rfl trivial))
  -- no drainer has got as far as its release
  by_cases h1 : t = 1
  · subst h1
    exact absurd (show .relinquish ∈ [Frame.loop] from ht) (by simp)
  · simp [Function.update, h1, start] at ht

/-- A second fade is started between the first one's last look at the queue and its release. -/
def startWhileReleasing : List (ℕ × Event) :=
  [(1, .start (immediateFade 0) 0), (1, .resume), (1, .resume), (1, .resume), (1, .resume),
    (1, .resume), (1, .resume), (1, .resume), (2, .start (immediateFade 1) 0), (1, .resume)]

/-- Both deliveries of the second fade are stranded: no thread is in the engine. -/
theorem deliveries_stranded_startWhileReleasing :
    ∃ c, run (fire step) start startWhileReleasing = some c ∧ c.shared.delivery.length = 2 ∧
      c.shared.draining = false ∧ (c.thread 1).stack = [] ∧ (c.thread 2).stack = [] ∧ ¬ Served c := by
  refine ⟨_, rfl, by decide, by decide, by decide, by decide, fun h => ?_⟩
  exact absurd (h (by decide)).1 (by decide)

end Instances

end RooTesting.FadeEngine
