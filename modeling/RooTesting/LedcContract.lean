import RooTesting.LedcGate

/-! # The gate contract of the driver

While every step keeps to the condition of `Keeps`, a gate that cannot be taken is held by
exactly one of the fade engine and the frames of all threads. So with no call in progress
a channel's gate is available exactly when the engine does not hold it. -/
namespace RooTesting.LedcDriver
open Transition Threads
open FadeEngine (Engine Request Completion)

/-- The gate of the channel is taken, and not by the engine. -/
def Driver.busy (d : Driver) (index : ℕ) : Bool :=
  !d.gateAvailable index && !gateHeld d.engine index

/-- A frame that is going to start the engine has taken the gate of its channel. -/
def Starts (d : Driver) : Frame → Prop
  | .startEngine gate request _ => (d.channels request.channel).gate = some gate
  | _ => True

structure Gates (c : System) : Prop where
  token : ∀ index, Held (tokens index) c.thread (c.shared.busy index)
  held : ∀ index, gateHeld c.shared.engine index = true → c.shared.gateAvailable index = false
  handle : ∀ index gate, (c.shared.channels index).gate = some gate → gate < c.shared.semaphoreCount
  distinct : ∀ i j gate, (c.shared.channels i).gate = some gate →
    (c.shared.channels j).gate = some gate → i = j
  starting : ∀ t, ∀ f ∈ gated (c.thread t), Starts c.shared f

theorem gates_start : Gates systemStart where
  token _ _ := rfl
  held index h := absurd h (by simp [gateHeld, systemStart, start, FadeEngine.initial])
  handle _ _ h := nomatch h
  distinct _ _ _ h := nomatch h
  starting _ _ h := nomatch h

/-- The section that gives the gate of a channel. -/
structure Gives (d : Driver) (index : ℕ) (d' : Driver) : Prop where
  gates : ∀ j, (d'.channels j).gate = (d.channels j).gate
  semaphores : ∀ g, d'.semaphores g =
    if (d.channels index).gate = some g then true else d.semaphores g
  count : d'.semaphoreCount = d.semaphoreCount
  held : ∀ j, gateHeld d'.engine j = gateHeld d.engine j

section Steps

variable {d d' : Driver} {l l' : Local} {c : System} {t : ℕ}

theorem gives_give {index gate : ℕ} (h : (d.channels index).gate = some gate) :
    Gives d index (d.give gate) := by
  refine ⟨fun _ => rfl, fun g => ?_, rfl, fun _ => rfl⟩
  by_cases hg : g = gate
  · simp [Driver.give, h, hg]
  · simp [Driver.give, h, hg, Ne.symm hg]

theorem gives_publishCompletion (completion : Completion) :
    Gives d completion.channel (d.publishCompletion completion).2 := by
  have hsame : SameGates d (d.setChannel completion.channel { d.channels completion.channel with
      duty := completion.duty, pendingDuty := completion.duty }) := .setChannel rfl
  unfold Driver.publishCompletion
  dsimp only
  split
  · rename_i gate hgate
    have hgives := gives_give ((hsame.gate completion.channel).trans hgate)
    exact ⟨fun j => (hgives.gates j).trans (hsame.gate j), fun g => by
      rw [hgives.semaphores, hsame.gate]; rfl, hgives.count, fun _ => rfl⟩
  · rename_i hgate
    exact ⟨hsame.gate, fun g => by rw [hgate]; rfl, rfl, fun _ => rfl⟩

theorem tokens_congr (hl : gated l' = gated l) (index : ℕ) : tokens index l' = tokens index l := by
  rw [tokens, hl, tokens]

theorem tokens_cons {f : Frame} (hl : gated l' = f :: gated l) (index : ℕ) :
    tokens index l' = tokens index l + if f.holds index then 1 else 0 := by
  rw [tokens, hl, List.countP_cons, tokens]

/-- The availability of a gate depends on its own semaphore only. -/
theorem available_congr {index : ℕ} (hg : (d'.channels index).gate = (d.channels index).gate)
    (hs : ∀ gate, (d.channels index).gate = some gate → d'.semaphores gate = d.semaphores gate) :
    d'.gateAvailable index = d.gateAvailable index := by
  unfold Driver.gateAvailable
  rw [hg]
  cases h : (d.channels index).gate with
  | none => rfl
  | some gate => exact hs gate h

theorem busy_congr {index : ℕ} (ha : d'.gateAvailable index = d.gateAvailable index)
    (hh : gateHeld d'.engine index = gateHeld d.engine index) : d'.busy index = d.busy index := by
  rw [Driver.busy, ha, hh, Driver.busy]

theorem starts_congr {f : Frame} (hg : ∀ index, f.holds index = true →
    (d'.channels index).gate = (d.channels index).gate) (h : Starts d f) : Starts d' f := by
  cases f with
  | startEngine gate request fadeMode => exact (hg _ (by simp [Frame.holds])).trans h
  | _ => trivial

theorem starting_update (h : ∀ u, ∀ f ∈ gated (c.thread u), Starts d' f)
    (hl : ∀ f ∈ gated l', Starts d' f) :
    ∀ u, ∀ f ∈ gated (Function.update c.thread t l' u), Starts d' f := by
  rw [forall_update (Q := fun l => ∀ f ∈ gated l, Starts d' f)]
  exact ⟨hl, fun u _ => h u⟩

namespace Gates

/-- Nobody is between taking the gate and giving it or starting the engine. -/
theorem not_holds (hs : Gates c) {index : ℕ} (h : c.shared.gateAvailable index = true) (u : ℕ) :
    ∀ f ∈ gated (c.thread u), f.holds index = false := by
  have hheld := hs.token index
  rw [Driver.busy, h, Bool.not_true, Bool.false_and] at hheld
  simpa [tokens, List.countP_eq_zero] using hheld u

/-- The thread at a frame with the gate is the only one with it, and the engine has it not. -/
theorem of_holds (hs : Gates c) {f : Frame} {index : ℕ}
    (hl : gated (c.thread t) = f :: gated l') (hf : f.holds index = true) :
    c.shared.gateAvailable index = false ∧ gateHeld c.shared.engine index = false ∧
      tokens index l' = 0 := by
  have hcount : tokens index (c.thread t) = tokens index l' + 1 := by
    rw [tokens_cons hl, if_pos hf]
  have hbusy := (hs.token index).true_of_pos (t := t) (by omega)
  have hle := (hs.token index).count_le_one t
  simp only [Driver.busy, Bool.and_eq_true, Bool.not_eq_true'] at hbusy
  exact ⟨hbusy.1, hbusy.2, by omega⟩

theorem quiet (hs : Gates c) (hd : SameGates c.shared d')
    (hl : gated l' = gated (c.thread t)) : Gates ⟨d', Function.update c.thread t l'⟩ where
  token index := by
    rw [busy_congr (hd.available index) (hd.held index)]
    exact (hs.token index).keep (tokens_congr hl index)
  held index h := (hd.available index).trans (hs.held index ((hd.held index).symm.trans h))
  handle index gate h := hd.count ▸ hs.handle index gate ((hd.gate index).symm.trans h)
  distinct i j gate hi hj :=
    hs.distinct i j gate ((hd.gate i).symm.trans hi) ((hd.gate j).symm.trans hj)
  starting := by
    have hkeep : ∀ u, ∀ f ∈ gated (c.thread u), Starts d' f := fun u f hf =>
      starts_congr (fun index _ => hd.gate index) (hs.starting u f hf)
    exact starting_update hkeep (hl ▸ hkeep t)

theorem take (hs : Gates c) {gate : ℕ} {request : Request} {fadeMode : FadeMode}
    (ht : Takes c.shared request.channel gate d')
    (hl : gated l' = .startEngine gate request fadeMode :: gated (c.thread t)) :
    Gates ⟨d', Function.update c.thread t l'⟩ := by
  have hne : ∀ j, j ≠ request.channel → (c.shared.channels j).gate ≠ some gate := by
    intro j hj hgate
    rcases ht.source with ⟨hsource, -⟩ | ⟨-, rfl, -⟩
    · exact hj (hs.distinct j _ gate hgate hsource)
    · exact absurd (hs.handle j _ hgate) (Nat.lt_irrefl _)
  have hgates : ∀ j, j ≠ request.channel →
      (d'.channels j).gate = (c.shared.channels j).gate := fun j hj => by
    rw [ht.gates, if_neg hj]
  have havailable : ∀ j, j ≠ request.channel →
      d'.gateAvailable j = c.shared.gateAvailable j := fun j hj =>
    available_congr (hgates j hj) fun g hg => by
      rw [ht.semaphores, if_neg]
      rintro rfl
      exact hne j hj hg
  have htaken : d'.gateAvailable request.channel = false := by
    simp [Driver.gateAvailable, ht.gates, ht.semaphores]
  have havail := ht.available
  have hfree : gateHeld c.shared.engine request.channel = false := by
    refine Bool.eq_false_iff.mpr fun h => ?_
    rw [hs.held _ h] at havail
    cases havail
  refine ⟨fun index => ?_, fun index h => ?_, fun index g h => ?_, fun i j g hi hj => ?_, ?_⟩
  · by_cases hi : index = request.channel
    · subst hi
      have hbefore := hs.token request.channel
      have hbusy : d'.busy request.channel = true := by
        rw [Driver.busy, htaken, ht.held, hfree]
        rfl
      rw [Driver.busy, ht.available, Bool.not_true, Bool.false_and] at hbefore
      rw [hbusy]
      refine hbefore.acquire ?_
      rw [tokens_cons hl, if_pos (by simp [Frame.holds]), hbefore t]
    · rw [busy_congr (havailable index hi) (ht.held index)]
      refine (hs.token index).keep ?_
      rw [tokens_cons hl, if_neg (by simpa [Frame.holds] using Ne.symm hi), Nat.add_zero]
  · rw [ht.held] at h
    by_cases hi : index = request.channel
    · subst hi
      rw [hfree] at h
      cases h
    · exact (havailable index hi).trans (hs.held index h)
  · rw [ht.gates] at h
    have hcount : c.shared.semaphoreCount ≤ d'.semaphoreCount := by
      rcases ht.source with ⟨-, h⟩ | ⟨-, -, h⟩ <;> omega
    split at h
    · obtain rfl := Option.some.inj h
      rcases ht.source with ⟨hsource, h⟩ | ⟨-, rfl, h⟩
      · exact (hs.handle _ _ hsource).trans_le hcount
      · show c.shared.semaphoreCount < d'.semaphoreCount
        omega
    · exact (hs.handle index g h).trans_le hcount
  · rw [ht.gates] at hi hj
    split at hi <;> split at hj
    · simp_all
    · obtain rfl := Option.some.inj hi
      exact absurd hj (hne j ‹_›)
    · obtain rfl := Option.some.inj hj
      exact absurd hi (hne i ‹_›)
    · exact hs.distinct i j g hi hj
  · have hkeep : ∀ u, ∀ f ∈ gated (c.thread u), Starts d' f := by
      refine fun u f hf => starts_congr (fun index hindex => hgates index ?_) (hs.starting u f hf)
      rintro rfl
      exact absurd hindex (by simp [hs.not_holds ht.available u f hf])
    refine starting_update hkeep fun f hf => ?_
    rw [hl] at hf
    rcases List.mem_cons.mp hf with rfl | hf
    · exact (ht.gates _).trans (if_pos rfl)
    · exact hkeep t f hf

theorem drop (hs : Gates c) {index : ℕ} (h : c.shared.gateAvailable index = true)
    (hl : gated l' = gated (c.thread t)) :
    Gates ⟨c.shared.setChannel index {}, Function.update c.thread t l'⟩ := by
  have hgate : ((c.shared.setChannel index {}).channels index).gate = none := by
    simp [Driver.setChannel]
  have hgates : ∀ j, j ≠ index → ((c.shared.setChannel index {}).channels j).gate =
      (c.shared.channels j).gate := fun j hj => by
    simp [Driver.setChannel, Function.update_of_ne hj]
  have havailable : ∀ j, (c.shared.setChannel index {}).gateAvailable j =
      c.shared.gateAvailable j := fun j => by
    by_cases hj : j = index
    · subst hj
      rw [h, Driver.gateAvailable, hgate]
    · exact available_congr (hgates j hj) fun _ _ => rfl
  have hsome : ∀ j g, ((c.shared.setChannel index {}).channels j).gate = some g →
      (c.shared.channels j).gate = some g := fun j g hg => by
    refine (hgates j ?_).symm.trans hg
    rintro rfl
    rw [hgate] at hg
    cases hg
  refine ⟨fun j => ?_, fun j hj => (havailable j).trans (hs.held j hj),
    fun j g hg => hs.handle j g (hsome j g hg),
    fun i j g hi hj => hs.distinct i j g (hsome i g hi) (hsome j g hj), ?_⟩
  · rw [busy_congr (havailable j) rfl]
    exact (hs.token j).keep (tokens_congr hl j)
  · have hkeep : ∀ u, ∀ f ∈ gated (c.thread u), Starts (c.shared.setChannel index {}) f := by
      refine fun u f hf => starts_congr (fun j hj => hgates j ?_) (hs.starting u f hf)
      rintro rfl
      exact absurd hj (by simp [hs.not_holds h u f hf])
    exact starting_update hkeep (hl ▸ hkeep t)

theorem give (hs : Gates c) {f : Frame} {index : ℕ} (hd : Gives c.shared index d')
    (hf : ∀ j, f.holds j = decide (index = j)) (hl : gated (c.thread t) = f :: gated l') :
    Gates ⟨d', Function.update c.thread t l'⟩ := by
  obtain ⟨htaken, hfree, hzero⟩ := hs.of_holds hl (by simp [hf] : f.holds index = true)
  have hgate : ∃ gate, (c.shared.channels index).gate = some gate := by
    cases h : (c.shared.channels index).gate with
    | none => simp [Driver.gateAvailable, h] at htaken
    | some gate => exact ⟨gate, rfl⟩
  obtain ⟨gate, hgate⟩ := hgate
  have havailable : ∀ j, j ≠ index → d'.gateAvailable j = c.shared.gateAvailable j := fun j hj =>
    available_congr (hd.gates j) fun g hg => by
      rw [hd.semaphores, if_neg]
      exact fun hindex => hj (hs.distinct j index g hg hindex)
  have hgiven : d'.gateAvailable index = true := by
    simp [Driver.gateAvailable, hd.gates, hd.semaphores, hgate]
  refine ⟨fun j => ?_, fun j hj => ?_, fun j g hg => hd.count ▸ hs.handle j g ((hd.gates j).symm.trans hg),
    fun i j g hi hj => hs.distinct i j g ((hd.gates i).symm.trans hi) ((hd.gates j).symm.trans hj), ?_⟩
  · by_cases hj : j = index
    · subst hj
      rw [Driver.busy, hgiven]
      exact (hs.token j).release (by rw [tokens_cons hl, if_pos (by simp [hf])]; omega) hzero
    · rw [busy_congr (havailable j hj) (hd.held j)]
      refine (hs.token j).keep ?_
      rw [tokens_cons hl, if_neg (by simpa [hf] using Ne.symm hj), Nat.add_zero]
  · rw [hd.held] at hj
    have hne : j ≠ index := by
      rintro rfl
      rw [hfree] at hj
      cases hj
    exact (havailable j hne).trans (hs.held j hj)
  · have hkeep : ∀ u, ∀ x ∈ gated (c.thread u), Starts d' x := fun u x hx =>
      starts_congr (fun j _ => hd.gates j) (hs.starting u x hx)
    exact starting_update hkeep fun x hx => hkeep t x (hl ▸ List.mem_cons_of_mem _ hx)

/-- The gate passes from a frame to the engine. -/
theorem hold (hs : Gates c) {e : Engine} {f : Frame} {index : ℕ}
    (he : ∀ j, gateHeld e j = if j = index then true else gateHeld c.shared.engine j)
    (hf : ∀ j, f.holds j = decide (index = j)) (hl : gated (c.thread t) = f :: gated l') :
    Gates ⟨{ c.shared with engine := e }, Function.update c.thread t l'⟩ := by
  obtain ⟨htaken, -, hzero⟩ := hs.of_holds hl (by simp [hf] : f.holds index = true)
  refine ⟨fun j => ?_, fun j hj => ?_, hs.handle, hs.distinct,
    starting_update (fun u x hx => hs.starting u x hx) fun x hx =>
      hs.starting t x (hl ▸ List.mem_cons_of_mem _ hx)⟩
  · by_cases hj : j = index
    · subst hj
      simp only [Driver.busy, he, if_true, Bool.not_true, Bool.and_false]
      exact (hs.token j).release (by rw [tokens_cons hl, if_pos (by simp [hf])]; omega) hzero
    · have hbusy : ({ c.shared with engine := e } : Driver).busy j = c.shared.busy j :=
        busy_congr rfl ((he j).trans (if_neg hj))
      rw [hbusy]
      refine (hs.token j).keep ?_
      rw [tokens_cons hl, if_neg (by simpa [hf] using Ne.symm hj), Nat.add_zero]
  · by_cases h : j = index
    · subst h
      exact htaken
    · exact hs.held j (by simpa [he, h] using hj)

/-- The gate passes from the engine to a frame. -/
theorem complete (hs : Gates c) {e : Engine} {f : Frame} {index : ℕ}
    (hheld : gateHeld c.shared.engine index = true)
    (he : ∀ j, gateHeld e j = if j = index then false else gateHeld c.shared.engine j)
    (hf : ∀ j, f.holds j = decide (index = j)) (hstart : Starts c.shared f)
    (hl : gated l' = f :: gated (c.thread t)) :
    Gates ⟨{ c.shared with engine := e }, Function.update c.thread t l'⟩ := by
  have htaken := hs.held index hheld
  refine ⟨fun j => ?_, fun j hj => ?_, hs.handle, hs.distinct,
    starting_update (fun u x hx => hs.starting u x hx) fun x hx => ?_⟩
  · by_cases hj : j = index
    · subst hj
      have hbefore := hs.token j
      rw [Driver.busy, htaken, hheld] at hbefore
      have hbusy : ({ c.shared with engine := e } : Driver).busy j = true := by
        simp only [Driver.busy, he, if_true, Bool.not_false, Bool.and_true]
        exact Bool.not_eq_true' _ |>.mpr htaken
      rw [hbusy]
      exact hbefore.acquire (by rw [tokens_cons hl, if_pos (by simp [hf]), hbefore t])
    · have hbusy : ({ c.shared with engine := e } : Driver).busy j = c.shared.busy j :=
        busy_congr rfl ((he j).trans (if_neg hj))
      rw [hbusy]
      refine (hs.token j).keep ?_
      rw [tokens_cons hl, if_neg (by simpa [hf] using Ne.symm hj), Nat.add_zero]
  · by_cases h : j = index
    · subst h
      exact htaken
    · exact hs.held j (by simpa [he, h] using hj)
  · rw [hl] at hx
    rcases List.mem_cons.mp hx with rfl | hx
    · exact hstart
    · exact hs.starting t x hx

end Gates

theorem gates_step : PreservesWhen (fire step)
    (fun c a => Keeps c.shared (c.thread a.1) a.2) Gates := by
  intro c a c' hok h hs
  obtain ⟨d', l', hstep, rfl⟩ := fire_eq_some.mp h
  cases effect_of_step hok hstep with
  | quiet hd hl => exact hs.quiet hd hl
  | take ht hl => exact hs.take ht hl
  | drop index havail hl => exact hs.drop havail hl
  | refuse hl =>
    have hgate := hs.starting a.1 _ (by rw [hl]; exact List.mem_cons_self)
    exact hs.give (gives_give hgate) (fun j => rfl) hl
  | hold he hl => exact hs.hold he (fun j => rfl) hl
  | complete hheld he hl =>
    exact hs.complete (f := .publishCompletion _) hheld he (fun j => rfl) trivial hl
  | give hl => exact hs.give (gives_publishCompletion _) (fun j => rfl) hl

/-- A gate that nobody has is available. -/
theorem Gates.available_of_free (hs : Gates c) {index : ℕ}
    (hheld : gateHeld c.shared.engine index = false)
    (hnone : ∀ u, LedcDriver.tokens index (c.thread u) = 0) :
    c.shared.gateAvailable index = true := by
  cases havail : c.shared.gateAvailable index with
  | true => rfl
  | false =>
    have htoken := hs.token index
    rw [Driver.busy, havail, hheld] at htoken
    obtain ⟨u, hu, -⟩ := htoken
    rw [hnone u] at hu
    cases hu

theorem Gates.held_eq_false (hs : Gates c) {index : ℕ}
    (h : c.shared.gateAvailable index = true) : gateHeld c.shared.engine index = false := by
  refine Bool.eq_false_iff.mpr fun hheld => ?_
  rw [hs.held index hheld] at h
  cases h

theorem Gates.tokens_eq_zero (hs : Gates c) {index : ℕ} (h : c.shared.busy index = false)
    (u : ℕ) : LedcDriver.tokens index (c.thread u) = 0 := by
  have htoken := hs.token index
  rw [h] at htoken
  exact htoken u

/-- A step that moves no frame with a gate takes from nobody what nobody has. -/
theorem Gates.available_of_unmoved (hs : Gates c) (hs' : Gates ⟨d', Function.update c.thread t l'⟩)
    (hl : gated l' = gated (c.thread t)) {index : ℕ} (hheld : gateHeld d'.engine index = false)
    (hbusy : c.shared.busy index = false) : d'.gateAvailable index = true := by
  have hnone := hs.tokens_eq_zero hbusy
  refine hs'.available_of_free hheld (forall_update (Q := fun l => LedcDriver.tokens index l = 0).mpr
    ⟨(tokens_congr hl index).trans (hnone t), fun u _ => hnone u⟩)

theorem deconfigured {config : ChannelConfig} (hdeconfigure : config.deconfigure = true)
    (hmode : validMode config.speedMode = true) (hchannel : validChannel config.channel = true) :
    (d.channelConfig (some config)).2.1 =
      d.setChannel (fadeIndex config.speedMode config.channel) {} := by
  simp [Driver.channelConfig, hdeconfigure, hmode, hchannel]

theorem keeps_deconfigure {config : ChannelConfig} (hs : Gates c)
    (h : step (.call (.channelConfig (some config))) c.shared (c.thread t) = some (d', l'))
    (hs' : Gates ⟨d', Function.update c.thread t l'⟩) :
    Keeps c.shared (c.thread t) (.call (.channelConfig (some config))) := by
  intro hdeconfigure hmode hchannel
  simp only [step] at h
  split at h
  · obtain ⟨rfl, rfl⟩ := Prod.mk.inj (Option.some.inj h)
    have hd := deconfigured (d := c.shared) hdeconfigure hmode hchannel
    have havail : (begin c.shared (.channelConfig (some config))).1.gateAvailable
        (fadeIndex config.speedMode config.channel) = true := by
      simp [begin, published, hd, Driver.gateAvailable, Driver.setChannel]
    have hheld : gateHeld c.shared.engine (fadeIndex config.speedMode config.channel) = false := by
      have hheld := hs'.held_eq_false havail
      simpa only [begin, published, hd, Driver.setChannel] using hheld
    have hbusy : (begin c.shared (.channelConfig (some config))).1.busy
        (fadeIndex config.speedMode config.channel) = false := by
      rw [Driver.busy, havail]
      rfl
    obtain ⟨hself, hothers⟩ := (forall_update
      (Q := fun l => tokens (fadeIndex config.speedMode config.channel) l = 0)).mp
      (hs'.tokens_eq_zero hbusy)
    refine hs.available_of_free hheld fun u => ?_
    by_cases hu : u = t
    · subst hu
      exact (tokens_congr (gated_push _ _) _).symm.trans hself
    · exact hothers u hu
  · cases h

theorem keeps_cancel {nowUs : ℤ} (hs : Gates c)
    (h : step (.clock nowUs) c.shared (c.thread t) = some (d', l'))
    (hs' : Gates ⟨d', Function.update c.thread t l'⟩) :
    Keeps c.shared (c.thread t) (.clock nowUs) := by
  intro index rest hstack hactive hindex
  by_contra hstate
  have harmed : (c.shared.engine.channels index).state = .armed ∨
      (c.shared.engine.channels index).state = .queued := by
    tauto
  have hheld : gateHeld c.shared.engine index = true := by
    rcases harmed with h | h <;> simp [gateHeld, h]
  obtain ⟨⟨alarm, drainNow, e⟩, hcancel⟩ := Option.isSome_iff_exists.mp (cancel_isSome nowUs harmed)
  have hl : c.thread t = ⟨false, .cancel index :: rest⟩ := by
    rw [← hstack, ← hactive]
  rw [hl] at h
  simp only [step, cancelEngine, hcancel, hindex] at h
  cases h
  have hfree := (gateHeld_cancel hcancel index).trans (if_pos rfl)
  have havail := hs.available_of_unmoved hs' (by rw [gated_ofEngine, hl]; rfl) hfree
    (by simp [Driver.busy, hheld])
  exact absurd havail (by simpa [Driver.gateAvailable] using hs.held index hheld)

theorem keeps_waitDone (hs : Gates c) (h : step .resume c.shared (c.thread t) = some (d', l'))
    (hs' : Gates ⟨d', Function.update c.thread t l'⟩) :
    Keeps c.shared (c.thread t) .resume := by
  intro gate rest hstack hsemaphore index hgate
  obtain ⟨active, hl⟩ : ∃ active, c.thread t = ⟨active, .waitDone gate :: rest⟩ :=
    ⟨(c.thread t).active, by rw [← hstack]⟩
  rw [hl] at h
  simp only [step, resume, Driver.take, hsemaphore] at h
  cases h
  have havail : c.shared.gateAvailable index = true := by
    rw [Driver.gateAvailable, hgate]
    exact hsemaphore
  have hbusy : c.shared.busy index = false := by
    rw [Driver.busy, havail]
    rfl
  have hafter := hs.available_of_unmoved hs' (by rw [hl]; rfl) (hs.held_eq_false havail) hbusy
  simp [Driver.gateAvailable, hgate] at hafter

/-- The condition is exact: a step that does not keep to it breaks the invariant. -/
theorem gates_iff_keeps {a : ℕ × Event} {c' : System} (h : fire step c a = some c')
    (hs : Gates c) : Gates c' ↔ Keeps c.shared (c.thread a.1) a.2 := by
  refine ⟨fun hs' => ?_, fun hok => gates_step hok h hs⟩
  obtain ⟨t, a⟩ := a
  obtain ⟨d', l', hstep, rfl⟩ := fire_eq_some.mp h
  cases a with
  | call call =>
    cases call with
    | channelConfig config =>
      cases config with
      | none => trivial
      | some config => exact keeps_deconfigure hs hstep hs'
    | _ => trivial
  | clock nowUs => exact keeps_cancel hs hstep hs'
  | resume => exact keeps_waitDone hs hstep hs'
  | _ => trivial

end Steps

section Contract

variable {c : System} {events : List (ℕ × Event)}

/-- With no call in progress nobody but the engine can have a gate. -/
theorem Gates.available_iff (hs : Gates c) (hidle : Idle c) (index : ℕ) :
    c.shared.gateAvailable index = true ↔ gateHeld c.shared.engine index = false := by
  have hnone : ∀ t, tokens index (c.thread t) = 0 := by
    intro t
    refine List.countP_eq_zero.mpr fun f hf => ?_
    obtain ⟨hmem, hgated⟩ := List.mem_filter.mp hf
    have hcall := hidle t f hmem
    cases f <;> simp_all [Frame.isCall, Frame.gated]
  cases hheld : gateHeld c.shared.engine index with
  | true => simp [hs.held index hheld]
  | false => simp [hs.available_of_free hheld hnone]

/-- A fade on a channel that the engine does not hold gets the gate and the engine. -/
theorem fadeStart_of_available {d : Driver} {mode channel : ℕ} {fadeMode : FadeMode}
    {created : Bool} (hmode : validMode mode = true) (hchannel : validChannel channel = true)
    (hfadeMode : fadeMode ≠ .max) (hinstalled : d.fadeInstalled = true)
    (hconfigured : (d.channels (fadeIndex mode channel)).configured = true)
    (hvalid : validOutput (d.timerOf mode (d.channels (fadeIndex mode channel)))
      (d.channels (fadeIndex mode channel)).fadeTarget
      (d.channels (fadeIndex mode channel)).hpoint = true)
    (hcreated : (d.channels (fadeIndex mode channel)).gate = none → created = true)
    (havail : d.gateAvailable (fadeIndex mode channel) = true)
    (hheld : gateHeld d.engine (fadeIndex mode channel) = false) :
    ∃ gate request d', d.fadeStart mode channel fadeMode created = .ok (gate, request, d') ∧
      ∀ nowUs, (d'.engine.start request nowUs).isSome := by
  have htake : ∃ gate d₁ d', d.ensureGate (fadeIndex mode channel) created = some (gate, d₁) ∧
      d₁.take gate = some d' := by
    cases hgate : (d.channels (fadeIndex mode channel)).gate with
    | none =>
      refine ⟨_, _, _, by rw [Driver.ensureGate, hgate, hcreated hgate]; rfl, if_pos ?_⟩
      simp [Driver.give]
    | some gate =>
      rw [Driver.gateAvailable, hgate] at havail
      exact ⟨gate, d, _, by rw [Driver.ensureGate, hgate], if_pos havail⟩
  obtain ⟨gate, d₁, d', hensure, htake⟩ := htake
  refine ⟨gate, d'.request mode channel, d', ?_, fun nowUs => start_isSome nowUs ?_⟩
  · simp [Driver.fadeStart, hmode, hchannel, hfadeMode, hinstalled, hconfigured, hvalid, hensure,
      htake]
  · exact ((takes_of_ensureGate hensure htake).held _).trans hheld

/-- While the steps keep to the condition, in every state without a call in progress a
gate is available exactly when the engine does not hold it; a fade on such a channel is
then never refused for its gate or by the engine's state. -/
theorem gate_contract (hr : run (fire step) systemStart events = some c)
    (hok : Meets (fire step) (fun c a => Keeps c.shared (c.thread a.1) a.2) systemStart events)
    (hidle : Idle c) :
    (∀ index, c.shared.gateAvailable index = true ↔ gateHeld c.shared.engine index = false) ∧
    ∀ mode channel fadeMode created, validMode mode = true → validChannel channel = true →
      fadeMode ≠ .max → c.shared.fadeInstalled = true →
      (c.shared.channels (fadeIndex mode channel)).configured = true →
      validOutput (c.shared.timerOf mode (c.shared.channels (fadeIndex mode channel)))
        (c.shared.channels (fadeIndex mode channel)).fadeTarget
        (c.shared.channels (fadeIndex mode channel)).hpoint = true →
      ((c.shared.channels (fadeIndex mode channel)).gate = none → created = true) →
      gateHeld c.shared.engine (fadeIndex mode channel) = false →
      ∃ gate request d, c.shared.fadeStart mode channel fadeMode created = .ok (gate, request, d) ∧
        ∀ nowUs, (d.engine.start request nowUs).isSome := by
  have havailable := (gates_step.run hok hr gates_start).available_iff hidle
  refine ⟨havailable, fun mode channel fadeMode created hm hc hf hi hcfg hv hcr hheld => ?_⟩
  exact fadeStart_of_available hm hc hf hi hcfg hv hcr ((havailable _).mpr hheld) hheld

end Contract

section Instances

/-- Install, a timer of 5 kHz and 10 bits, channel 0 on pin 5, and a fade to set up. -/
def configured (desiredFadeTimeMs : ℤ) : List (ℕ × Event) :=
  [(0, .call (.fadeFuncInstall (.ok 7) true)),
    (0, .call (.timerConfig (some ⟨0, 10, 0, 5000, false⟩) 0)), (0, .resume),
    (0, .call (.channelConfig (some ⟨5, 0, 0, 0, 0, 0, false, false⟩))), (0, .resume), (0, .resume),
    (0, .call (.setFadeWithTime 0 0 100 desiredFadeTimeMs))]

/-- The fade is started and its first signal is published. -/
def startedFade : List (ℕ × Event) :=
  configured 1 ++ [(0, .call (.fadeStart 0 0 .noWait true)), (0, .clock 0), (0, .scheduled 1),
    (0, .resume), (0, .resume), (0, .resume), (0, .resume), (0, .resume), (0, .scheduler true)]

theorem gate_contract_startedFade : ∃ c, run (fire step) systemStart startedFade = some c ∧
    gateHeld c.shared.engine 0 = true ∧ c.shared.gateAvailable 0 = false ∧
    (c.shared.gateAvailable 1 = true ↔ gateHeld c.shared.engine 1 = false) := by
  have hidle : ∀ c, run (fire step) systemStart startedFade = some c → Idle c := by
    rintro c h t
    obtain rfl := Option.some.inj h
    by_cases h0 : t = 0
    · subst h0
      exact fun f hf => absurd hf List.not_mem_nil
    · intro f hf
      simp [Function.update, h0, systemStart] at hf
  refine ⟨_, rfl, by decide, by decide, (@gate_contract _ startedFade rfl ?_
    (hidle _ rfl)).1 1⟩
  -- nobody waits, nothing is cancelled and nothing is deconfigured
  have resumed : ∀ {d : Driver} {l : Local}, (∀ gate rest, l.stack ≠ .waitDone gate :: rest) →
      Keeps d l .resume := fun h gate rest hstack => absurd hstack (h gate rest)
  refine .cons trivial rfl (.cons trivial rfl (.cons (resumed nofun) rfl
    (.cons (fun h => nomatch h) rfl (.cons (resumed nofun) rfl (.cons (resumed nofun) rfl
    (.cons trivial rfl (.cons trivial rfl (.cons nofun rfl (.cons trivial rfl
    (.cons (resumed nofun) rfl (.cons (resumed nofun) rfl (.cons (resumed nofun) rfl
    (.cons (resumed nofun) rfl (.cons (resumed nofun) rfl (.cons trivial rfl trivial)))))))))))))))

/-- A fade without duration is started, completes, and is waited for. -/
def waitedFade : List (ℕ × Event) :=
  configured 0 ++ [(0, .call (.fadeStart 0 0 .waitDone true)), (0, .clock 0)] ++
    List.replicate 9 (0, .resume) ++ [(0, .scheduler true), (1, .interrupt)] ++
    List.replicate 17 (1, .resume) ++ [(0, .resume)]

/-- The waiting call leaves with the gate, and the next fade is refused. -/
theorem gate_leaked_waitedFade : ∃ c, run (fire step) systemStart waitedFade = some c ∧ Idle c ∧
    gateHeld c.shared.engine 0 = false ∧ c.shared.gateAvailable 0 = false ∧
    c.shared.fadeStart 0 0 .noWait true = .error .invalidState := by
  refine ⟨_, rfl, fun t => ?_, by decide, by decide, rfl⟩
  by_cases h0 : t = 0
  · subst h0
    exact fun f hf => absurd hf List.not_mem_nil
  by_cases h1 : t = 1
  · subst h1
    exact fun f hf => absurd hf List.not_mem_nil
  · intro f hf
    simp [Function.update, h0, h1, systemStart] at hf

end Instances

end RooTesting.LedcDriver
