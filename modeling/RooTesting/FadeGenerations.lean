import RooTesting.FadeDrainer

/-! # The generations of a fade

What every fade did is written down beside the run. A generation completes at most once,
never after it was cancelled, and only when its endpoint has been written; an item of an
earlier generation is dropped when the drainer takes it from the queue. -/
namespace RooTesting.FadeEngine
open Transition Threads

/-- What happened, latest first. -/
inductive Entry where
  | started (channel generation : ℕ) (r : Request)
  | cancelled (channel generation : ℕ)
  | took (item : Delivery)
  | wrote (item : Delivery)
  | pended (channel generation : ℕ)
  | completed (completion : Completion)
  deriving DecidableEq

/-- What a step does that the outside can see. -/
def observe (e : Engine) (l : Local) : Event → List Entry
  | .start r nowUs =>
    if !l.active && r.accepted nowUs then
      match e.start r nowUs with
      | none => []
      | some (generation, _) => [.started r.channel generation r]
    else []
  | .cancel index nowUs =>
    if !l.active && index < kChannels && (e.cancel index nowUs).isSome then
      [.cancelled index (e.channels index).generation]
    else []
  | .takeCompletion index => ((e.takeCompletion index).map fun c => .completed c.1).toList
  | .resume =>
    match l.stack with
    | .loop :: _ =>
      match e.pop with
      | .take item _ => [.took item]
      | _ => []
    | .write item :: _ => [.wrote item]
    | .finalize item :: _ =>
      let c := e.channels item.channel
      if c.generation = item.generation ∧ c.state = .queued then
        [.pended item.channel item.generation]
      else []
    | _ => []
  | _ => []

/-- A run with what happened in it. -/
def recordedStep (x : System × List Entry) (a : ℕ × Event) : Option (System × List Entry) :=
  (fire step x.1 a).map fun c => (c, observe x.1.shared (x.1.thread a.1) a.2 ++ x.2)

/-- The step does not bring a generation counter back to zero. -/
def Unwrapped (x : System × List Entry) (a : ℕ × Event) : Prop :=
  match a.2 with
  | .start r _ => (x.1.shared.channels r.channel).generation + 1 < uint64Size
  | .cancel index _ => (x.1.shared.channels index).generation + 1 < uint64Size
  | _ => True

/-- The signal at the exact target of a fade. -/
def Request.endpoint (r : Request) : VoltageSignal :=
  .square r.frequencyHz (.constant (r.targetDuty / (period r.resolution : ℚ))) r.carrierOriginUs
    r.pulseStartPhase r.inverted

/-- The delivery after which a fade completes. -/
def Request.finalizer (r : Request) (channel generation : ℕ) : Delivery :=
  ⟨r.endpoint, r.pin, true, channel, generation⟩

/-- A history in which a generation completes once, after its endpoint was written and
unless it was cancelled, and in which only items of the current generation are taken. -/
def Legal : List Entry → Prop
  | [] => True
  | .started i g _ :: h => (∀ g' r, .started i g' r ∈ h → g' < g) ∧ Legal h
  | .cancelled _ _ :: h => Legal h
  | .took item :: h => ((∀ g r, .started item.channel g r ∈ h → g ≤ item.generation) ∧
      .cancelled item.channel item.generation ∉ h) ∧ Legal h
  | .wrote item :: h => .took item ∈ h ∧ Legal h
  | .pended i g :: h => ((∃ r, .started i g r ∈ h ∧ .wrote (r.finalizer i g) ∈ h) ∧
      .cancelled i g ∉ h ∧ .pended i g ∉ h) ∧ Legal h
  | .completed c :: h => ((∃ r, .started c.channel c.generation r ∈ h ∧ c.duty = r.targetDuty) ∧
      .pended c.channel c.generation ∈ h ∧ .cancelled c.channel c.generation ∉ h ∧
      ∀ duty, .completed ⟨c.channel, c.generation, duty⟩ ∉ h) ∧ Legal h

/-- A channel and the history agree. -/
structure Chronicle (i : ℕ) (c : Channel) (h : List Entry) : Prop where
  started : ∀ g r, .started i g r ∈ h → g ≤ c.generation
  unique : ∀ g r r', .started i g r ∈ h → .started i g r' ∈ h → r = r'
  cancelled : ∀ g, .cancelled i g ∈ h → g < c.generation
  pended : ∀ g, .pended i g ∈ h →
    g < c.generation ∨ g = c.generation ∧ (c.state = .pending ∨ c.state = .idle)
  completed : ∀ g duty, .completed ⟨i, g, duty⟩ ∈ h →
    g < c.generation ∨ g = c.generation ∧ c.state = .idle
  busy : c.state = .armed ∨ c.state = .queued ∨ c.state = .pending →
    .started i c.generation c.request ∈ h
  target : c.state = .queued ∨ c.state = .pending → c.duty = c.request.targetDuty
  pending : c.state = .pending → .pended i c.generation ∈ h

/-- The channel whose fade an entry is about. -/
def Entry.channel : Entry → Option ℕ
  | .started i .. | .cancelled i _ | .pended i _ => some i
  | .completed c => some c.channel
  | .took _ | .wrote _ => none

section Chronicles

variable {i : ℕ} {c c' : Channel} {h : List Entry}

theorem Chronicle.cons (hc : Chronicle i c h) {e : Entry} (he : e.channel ≠ some i) :
    Chronicle i c (e :: h) := by
  have hmem : ∀ x : Entry, x.channel = some i → (x ∈ e :: h ↔ x ∈ h) := by
    intro x hx
    constructor
    · intro hin
      rcases List.mem_cons.mp hin with rfl | hin
      · exact absurd hx he
      · exact hin
    · exact List.mem_cons_of_mem e
  constructor
  · intro g r hs
    exact hc.started g r ((hmem _ rfl).mp hs)
  · intro g r r' hs hs'
    exact hc.unique g r r' ((hmem _ rfl).mp hs) ((hmem _ rfl).mp hs')
  · intro g hs
    exact hc.cancelled g ((hmem _ rfl).mp hs)
  · intro g hs
    exact hc.pended g ((hmem _ rfl).mp hs)
  · intro g duty hs
    exact hc.completed g duty ((hmem _ rfl).mp hs)
  · intro hs
    exact (hmem _ rfl).mpr (hc.busy hs)
  · exact hc.target
  · intro hs
    exact (hmem _ rfl).mpr (hc.pending hs)

/-- A start takes a generation that was never used. -/
theorem Chronicle.start (hc : Chronicle i c h) {r : Request} (hr : c'.request = r)
    (hg : c'.generation = c.generation + 1)
    (hstate : c'.state = .armed ∨ c'.state = .queued ∧ c'.duty = r.targetDuty) :
    Chronicle i c' (.started i (c.generation + 1) r :: h) ∧
      ∀ g r, .started i g r ∈ h → g < c.generation + 1 := by
  have hnew : ∀ g r, .started i g r ∈ h → g < c.generation + 1 := by
    intro g r hs
    have := hc.started g r hs
    omega
  refine ⟨?_, hnew⟩
  constructor
  · intro g r' hs
    rcases List.mem_cons.mp hs with heq | hs
    · cases heq
      omega
    · have := hc.started g r' hs
      omega
  · intro g r₁ r₂ h₁ h₂
    rcases List.mem_cons.mp h₁ with heq₁ | h₁ <;> rcases List.mem_cons.mp h₂ with heq₂ | h₂
    · cases heq₁
      cases heq₂
      rfl
    · cases heq₁
      exact absurd (hnew _ _ h₂) (by omega)
    · cases heq₂
      exact absurd (hnew _ _ h₁) (by omega)
    · exact hc.unique g r₁ r₂ h₁ h₂
  · intro g hs
    have := hc.cancelled g (by simpa using hs)
    omega
  · intro g hs
    have := hc.pended g (by simpa using hs)
    omega
  · intro g duty hs
    have := hc.completed g duty (by simpa using hs)
    omega
  · intro _
    rw [hg, hr]
    exact List.mem_cons_self
  · intro hs
    rcases hstate with ha | ⟨-, hd⟩
    · simp [ha] at hs
    · rw [hr]
      exact hd
  · intro hs
    rcases hstate with ha | ⟨ha, -⟩ <;> simp [ha] at hs

theorem Chronicle.cancel (hc : Chronicle i c h) (hg : c'.generation = c.generation + 1)
    (hstate : c'.state = .cancelled) : Chronicle i c' (.cancelled i c.generation :: h) := by
  constructor
  · intro g r hs
    have := hc.started g r (by simpa using hs)
    omega
  · intro g r r' hs hs'
    exact hc.unique g r r' (by simpa using hs) (by simpa using hs')
  · intro g hs
    rcases List.mem_cons.mp hs with heq | hs
    · cases heq
      omega
    · have := hc.cancelled g hs
      omega
  · intro g hs
    have := hc.pended g (by simpa using hs)
    omega
  · intro g duty hs
    have := hc.completed g duty (by simpa using hs)
    omega
  · intro hs
    simp [hstate] at hs
  · intro hs
    simp [hstate] at hs
  · intro hs
    simp [hstate] at hs

/-- A channel that only changes its state, with a new entry or without one. -/
theorem Chronicle.deadline (hc : Chronicle i c h) (hstate : c.state = .armed) :
    Chronicle i { c with duty := c.request.targetDuty, state := .queued } h := by
  constructor
  · exact hc.started
  · exact hc.unique
  · exact hc.cancelled
  · intro g hs
    have := hc.pended g hs
    simp only [hstate] at this
    simpa using this
  · intro g duty hs
    have := hc.completed g duty hs
    simp only [hstate] at this
    simpa using this
  · intro _
    exact hc.busy (Or.inl hstate)
  · intro _
    rfl
  · intro hs
    cases hs

theorem Chronicle.finalize (hc : Chronicle i c h) (hstate : c.state = .queued) :
    Chronicle i { c with state := .pending } (.pended i c.generation :: h) ∧
      .cancelled i c.generation ∉ h ∧ .pended i c.generation ∉ h := by
  refine ⟨?_, fun hs => absurd (hc.cancelled _ hs) (Nat.lt_irrefl _), fun hs => ?_⟩
  · constructor
    · intro g r hs
      exact hc.started g r (by simpa using hs)
    · intro g r r' hs hs'
      exact hc.unique g r r' (by simpa using hs) (by simpa using hs')
    · intro g hs
      exact hc.cancelled g (by simpa using hs)
    · intro g hs
      rcases List.mem_cons.mp hs with heq | hs
      · cases heq
        exact Or.inr ⟨rfl, Or.inl rfl⟩
      · have := hc.pended g hs
        simp only [hstate] at this
        exact Or.inl (by simpa using this)
    · intro g duty hs
      have := hc.completed g duty (by simpa using hs)
      simp only [hstate] at this
      exact Or.inl (by simpa using this)
    · intro _
      exact List.mem_cons_of_mem _ (hc.busy (Or.inr (Or.inl hstate)))
    · intro _
      exact hc.target (Or.inl hstate)
    · intro _
      exact List.mem_cons_self
  · have := hc.pended _ hs
    simp [hstate] at this

theorem Chronicle.take (hc : Chronicle i c h) (hstate : c.state = .pending) :
    Chronicle i { c with state := .idle, alarm := 0 }
        (.completed ⟨i, c.generation, c.duty⟩ :: h) ∧
      .started i c.generation c.request ∈ h ∧ c.duty = c.request.targetDuty ∧
      .pended i c.generation ∈ h ∧ .cancelled i c.generation ∉ h ∧
      ∀ duty, .completed ⟨i, c.generation, duty⟩ ∉ h := by
  refine ⟨?_, hc.busy (Or.inr (Or.inr hstate)), hc.target (Or.inr hstate), hc.pending hstate,
    fun hs => absurd (hc.cancelled _ hs) (Nat.lt_irrefl _), fun duty hs => ?_⟩
  · constructor
    · intro g r hs
      exact hc.started g r (by simpa using hs)
    · intro g r r' hs hs'
      exact hc.unique g r r' (by simpa using hs) (by simpa using hs')
    · intro g hs
      exact hc.cancelled g (by simpa using hs)
    · intro g hs
      rcases hc.pended g (by simpa using hs) with hlt | ⟨heq, -⟩
      · exact Or.inl hlt
      · exact Or.inr ⟨heq, Or.inr rfl⟩
    · intro g duty hs
      rcases List.mem_cons.mp hs with heq | hs
      · cases heq
        exact Or.inr ⟨rfl, rfl⟩
      · rcases hc.completed g duty hs with hlt | ⟨heq, -⟩
        · exact Or.inl hlt
        · exact Or.inr ⟨heq, rfl⟩
    · intro hs
      simp at hs
    · intro hs
      simp at hs
    · intro hs
      simp at hs
  · have := hc.completed _ _ hs
    simp [hstate] at this

end Chronicles

/-- A finalizing item carries the endpoint of the fade of its generation. -/
def Prepared (h : List Entry) (item : Delivery) : Prop :=
  item.finalize = true → ∃ r, .started item.channel item.generation r ∈ h ∧
    item = r.finalizer item.channel item.generation

/-- What a frame of the drain loop has done. -/
def Knows (h : List Entry) : Frame → Prop
  | .write item => .took item ∈ h ∧ Prepared h item
  | .finalize item => .wrote item ∈ h ∧ item.finalize = true ∧ Prepared h item
  | _ => True

/-- The engine and the history agree. -/
structure Told (x : System × List Entry) : Prop where
  channels : ∀ i, Chronicle i (x.1.shared.channels i) x.2
  queue : ∀ item ∈ x.1.shared.delivery, Prepared x.2 item
  frames : ∀ t, ∀ f ∈ (x.1.thread t).stack, Knows x.2 f
  legal : Legal x.2

section Tellings

variable {h : List Entry} {e e' : Engine}

theorem Prepared.append {item : Delivery} (hi : Prepared h item) (es : List Entry) :
    Prepared (es ++ h) item := by
  intro hf
  obtain ⟨r, hs, heq⟩ := hi hf
  exact ⟨r, List.mem_append_right es hs, heq⟩

theorem Knows.append {f : Frame} (hf : Knows h f) (es : List Entry) : Knows (es ++ h) f := by
  cases f with
  | write item => exact ⟨List.mem_append_right es hf.1, hf.2.append es⟩
  | finalize item => exact ⟨List.mem_append_right es hf.1, hf.2.1, hf.2.2.append es⟩
  | _ => trivial

/-- What a step has to show. -/
theorem Told.move {x : System × List Entry} (hx : Told x) {t : ℕ} {l' : Local} {k : List Entry}
    (hchannels : ∀ i, Chronicle i (e'.channels i) (k ++ x.2))
    (hqueue : ∀ item ∈ e'.delivery, item ∈ x.1.shared.delivery ∨ Prepared (k ++ x.2) item)
    (hframes : ∀ f ∈ l'.stack, f ∈ (x.1.thread t).stack ∨ Knows (k ++ x.2) f)
    (hlegal : Legal (k ++ x.2)) :
    Told (⟨e', Function.update x.1.thread t l'⟩, k ++ x.2) := by
  constructor
  · exact hchannels
  · intro item hitem
    rcases hqueue item hitem with hold | hnew
    · exact (hx.queue item hold).append k
    · exact hnew
  · have hmine : ∀ f ∈ l'.stack, Knows (k ++ x.2) f := by
      intro f hf
      rcases hframes f hf with hold | hnew
      · exact (hx.frames t f hold).append k
      · exact hnew
    exact (forall_update (Q := fun l : Local => ∀ f ∈ l.stack, Knows (k ++ x.2) f)).mpr
      ⟨hmine, fun u _ f hf => (hx.frames u f hf).append k⟩
  · exact hlegal

theorem chronicles_update {channels : ℕ → Channel} (hc : ∀ j, Chronicle j (channels j) h) {i : ℕ}
    {c : Channel} {x : Entry} (hx : x.channel = some i) (hi : Chronicle i c (x :: h)) (j : ℕ) :
    Chronicle j (Function.update channels i c j) (x :: h) := by
  by_cases hj : j = i
  · subst hj
    simpa using hi
  · rw [Function.update_of_ne hj]
    apply (hc j).cons
    rw [hx]
    exact fun heq => hj (Option.some.inj heq).symm

theorem chronicles_keep {channels : ℕ → Channel} (hc : ∀ j, Chronicle j (channels j) h) {i : ℕ}
    {c : Channel} (hi : Chronicle i c h) (j : ℕ) :
    Chronicle j (Function.update channels i c j) h := by
  by_cases hj : j = i
  · subst hj
    simpa using hi
  · rw [Function.update_of_ne hj]
    exact hc j

/-- The section of `Start` on the channel and the queue. -/
theorem start_spec {r : Request} {nowUs : ℤ} {generation : ℕ} {drainNow : Bool}
    (hs : e.start r nowUs = some (generation, drainNow, e'))
    (hwrap : (e.channels r.channel).generation + 1 < uint64Size) :
    generation = (e.channels r.channel).generation + 1 ∧
      ∃ c, e'.channels = Function.update e.channels r.channel c ∧ c.request = r ∧
        c.generation = (e.channels r.channel).generation + 1 ∧
        (c.state = .armed ∨ c.state = .queued ∧ c.duty = r.targetDuty) ∧
        ∀ item ∈ e'.delivery, item ∈ e.delivery ∨
          (item.finalize = true → item = r.finalizer r.channel generation) := by
  have hmod : ((e.channels r.channel).generation + 1) % uint64Size =
      (e.channels r.channel).generation + 1 := Nat.mod_eq_of_lt hwrap
  unfold Engine.start at hs
  dsimp only at hs
  rw [hmod] at hs
  split at hs
  · split at hs
    · rename_i himmediate
      simp only [Engine.enqueue, Option.some.injEq, Prod.mk.injEq] at hs
      obtain ⟨rfl, -, rfl⟩ := hs
      refine ⟨rfl, _, rfl, rfl, rfl, Or.inr ⟨rfl, rfl⟩, fun item hitem => ?_⟩
      rcases List.mem_append.mp hitem with hold | hnew
      · exact Or.inl hold
      · apply Or.inr
        intro hf
        rcases List.mem_cons.mp hnew with rfl | hnew
        · cases hf
        · rw [List.mem_singleton.mp hnew]
          rfl
    · rename_i himmediate
      simp only [Engine.enqueue, Option.some.injEq, Prod.mk.injEq] at hs
      obtain ⟨rfl, -, rfl⟩ := hs
      refine ⟨rfl, _, rfl, rfl, rfl, Or.inl rfl, fun item hitem => ?_⟩
      rcases List.mem_append.mp hitem with hold | hnew
      · exact Or.inl hold
      · apply Or.inr
        intro hf
        rw [List.mem_singleton.mp hnew] at hf
        cases hf
  · cases hs

theorem cancel_spec {index : ℕ} {nowUs : ℤ} {alarm : ℕ} {drainNow : Bool}
    (hs : e.cancel index nowUs = some (alarm, drainNow, e'))
    (hwrap : (e.channels index).generation + 1 < uint64Size) :
    ∃ c, e'.channels = Function.update e.channels index c ∧
      c.generation = (e.channels index).generation + 1 ∧ c.state = .cancelled ∧
      ∀ item ∈ e'.delivery, item ∈ e.delivery ∨ item.finalize = false := by
  have hmod : ((e.channels index).generation + 1) % uint64Size =
      (e.channels index).generation + 1 := Nat.mod_eq_of_lt hwrap
  unfold Engine.cancel at hs
  dsimp only at hs
  rw [hmod] at hs
  split at hs
  · obtain ⟨-, hs⟩ := Prod.mk.inj (Option.some.inj hs)
    obtain ⟨-, rfl⟩ := Prod.mk.inj hs
    refine ⟨_, rfl, rfl, rfl, fun item hitem => ?_⟩
    rcases List.mem_append.mp hitem with hold | hnew
    · exact Or.inl hold
    · rw [List.mem_singleton.mp hnew]
      exact Or.inr rfl
  · cases hs

theorem deadline_spec {index generation : ℕ} {drainNow : Bool}
    (hs : e.deadline index generation = some (drainNow, e')) :
    (e.channels index).generation = generation ∧ (e.channels index).state = .armed ∧
      e'.channels = Function.update e.channels index { e.channels index with
        duty := (e.channels index).request.targetDuty, state := .queued } ∧
      ∀ item ∈ e'.delivery, item ∈ e.delivery ∨ (item.finalize = true →
        item = (e.channels index).request.finalizer index generation) := by
  unfold Engine.deadline at hs
  dsimp only at hs
  split at hs
  · rename_i hcurrent
    obtain ⟨-, rfl⟩ := Prod.mk.inj (Option.some.inj hs)
    refine ⟨hcurrent.1, hcurrent.2, rfl, fun item hitem => ?_⟩
    rcases List.mem_append.mp hitem with hold | hnew
    · exact Or.inl hold
    · apply Or.inr
      intro hf
      rcases List.mem_cons.mp hnew with rfl | hnew
      · cases hf
      · rw [List.mem_singleton.mp hnew]
        rfl
  · cases hs

/-- An item is taken when its generation is the current one, and else dropped. -/
theorem pop_taken {item : Delivery} (hp : e.pop = .take item e') :
    e.delivery = item :: e'.delivery ∧ e'.channels = e.channels ∧
      (e.channels item.channel).generation = item.generation := by
  unfold Engine.pop at hp
  split at hp
  · split at hp
    · cases hp
    · rename_i hq
      dsimp only at hp
      split at hp
      · rename_i hg
        cases hp
        exact ⟨hq, rfl, hg⟩
      · cases hp
  · cases hp

theorem pop_skipped (hp : e.pop = .skip e') :
    ∃ item, e.delivery = item :: e'.delivery ∧ e'.channels = e.channels := by
  unfold Engine.pop at hp
  split at hp
  · split at hp
    · cases hp
    · rename_i hq
      dsimp only at hp
      split at hp
      · cases hp
      · cases hp
        exact ⟨_, hq, rfl⟩
  · cases hp

theorem finalize_current {item : Delivery}
    (hc : (e.channels item.channel).generation = item.generation ∧
      (e.channels item.channel).state = .queued) :
    e.finalize item = (e.notifier,
      e.setChannel item.channel { e.channels item.channel with state := .pending }) := by
  rw [Engine.finalize]
  exact if_pos hc

theorem finalize_stale {item : Delivery}
    (hc : ¬((e.channels item.channel).generation = item.generation ∧
      (e.channels item.channel).state = .queued)) : e.finalize item = (false, e) := by
  rw [Engine.finalize]
  exact if_neg hc

end Tellings

section Steps

variable {x : System × List Entry} {t : ℕ} {e' : Engine} {l' : Local}

theorem told_start : Told (start, []) := by
  constructor
  · intro i
    constructor <;> simp [start, initial]
  · simp [start, initial]
  · simp [start]
  · trivial

/-- A step that the channels and the history do not notice. -/
theorem Told.quiet (hx : Told x) (hchannels : e'.channels = x.1.shared.channels)
    (hqueue : ∀ item ∈ e'.delivery, item ∈ x.1.shared.delivery)
    (hframes : ∀ f ∈ l'.stack, f ∈ (x.1.thread t).stack ∨ Knows x.2 f) :
    Told (⟨e', Function.update x.1.thread t l'⟩, x.2) := by
  apply hx.move (k := [])
  · rw [hchannels]
    exact hx.channels
  · exact fun item hitem => Or.inl (hqueue item hitem)
  · exact hframes
  · exact hx.legal

theorem knows_drainIf (h : List Entry) (drainNow : Bool) : ∀ f ∈ drainIf drainNow, Knows h f := by
  intro f hf
  cases drainNow with
  | false => cases hf
  | true =>
    rw [List.mem_singleton.mp hf]
    trivial

variable (t) in
theorem Told.same (hx : Told x) :
    Told (⟨x.1.shared, Function.update x.1.thread t (x.1.thread t)⟩, x.2) :=
  hx.quiet rfl (fun _ h => h) fun _ h => Or.inl h

/-- The frames that a call pushes are known, and the others are as before. -/
theorem push_known (l : Local) {h : List Entry} {fs : List Frame} (hfs : ∀ f ∈ fs, Knows h f) :
    ∀ f ∈ (l.push fs).stack, f ∈ l.stack ∨ Knows h f := by
  intro f hf
  rcases List.mem_append.mp hf with hnew | hold
  · exact Or.inr (hfs f hnew)
  · exact Or.inl hold

private theorem told_begin_start (hx : Told x) {r : Request} {nowUs : ℤ}
    (hok : Unwrapped x (t, .start r nowUs))
    (hb : begin x.1.shared (x.1.thread t) (.start r nowUs) = some (e', l')) :
    Told (⟨e', Function.update x.1.thread t l'⟩,
      observe x.1.shared (x.1.thread t) (.start r nowUs) ++ x.2) := by
  simp only [begin, observe] at hb ⊢
  split at hb
  · rename_i hguard
    rw [if_pos hguard]
    cases hs : x.1.shared.start r nowUs with
    | none =>
      simp only [hs] at hb ⊢
      cases hb
      exact hx.same t
    | some result =>
      obtain ⟨generation, drainNow, e₁⟩ := result
      simp only [hs] at hb ⊢
      cases hb
      obtain ⟨rfl, c, hchannels, hr, hg, hstate, hqueue⟩ := start_spec hs hok
      obtain ⟨hchronicle, hnew⟩ := (hx.channels r.channel).start hr hg hstate
      apply hx.move
      · rw [hchannels]
        exact chronicles_update hx.channels rfl hchronicle
      · intro item hitem
        rcases hqueue item hitem with hold | hitem
        · exact Or.inl hold
        · apply Or.inr
          intro hf
          have heq := hitem hf
          rw [heq]
          exact ⟨r, List.mem_cons_self, rfl⟩
      · apply push_known
        split
        · exact knows_drainIf _ drainNow
        · simp [Knows]
      · exact ⟨hnew, hx.legal⟩
  · rename_i hguard
    cases hb
    rw [if_neg hguard]
    exact hx.same t

private theorem told_begin_cancel (hx : Told x) {index : ℕ} {nowUs : ℤ}
    (hok : Unwrapped x (t, .cancel index nowUs))
    (hb : begin x.1.shared (x.1.thread t) (.cancel index nowUs) = some (e', l')) :
    Told (⟨e', Function.update x.1.thread t l'⟩,
      observe x.1.shared (x.1.thread t) (.cancel index nowUs) ++ x.2) := by
  simp only [begin, observe] at hb ⊢
  split at hb
  · rename_i hguard
    cases hs : x.1.shared.cancel index nowUs with
    | none =>
      simp only [hs] at hb
      cases hb
      simpa [hs] using hx.same t
    | some result =>
      obtain ⟨alarm, drainNow, e₁⟩ := result
      simp only [hs] at hb
      cases hb
      obtain ⟨c, hchannels, hg, hstate, hqueue⟩ := cancel_spec hs hok
      rw [if_pos (by simpa [hs] using hguard)]
      apply hx.move
      · rw [hchannels]
        exact chronicles_update hx.channels rfl ((hx.channels index).cancel hg hstate)
      · intro item hitem
        rcases hqueue item hitem with hold | hf
        · exact Or.inl hold
        · exact Or.inr fun hf' => absurd (hf.symm.trans hf') Bool.false_ne_true
      · apply push_known
        simp [Knows]
      · exact hx.legal
  · rename_i hguard
    cases hb
    rw [if_neg fun hand => hguard ((Bool.and_eq_true _ _).mp hand).1]
    exact hx.same t

private theorem told_begin_deadline (hx : Told x) {index generation : ℕ}
    (hb : begin x.1.shared (x.1.thread t) (.deadline index generation) = some (e', l')) :
    Told (⟨e', Function.update x.1.thread t l'⟩,
      observe x.1.shared (x.1.thread t) (.deadline index generation) ++ x.2) := by
  simp only [begin, observe] at hb ⊢
  cases hs : x.1.shared.deadline index generation with
  | none =>
    simp only [hs] at hb
    cases hb
    exact hx.same t
  | some result =>
    obtain ⟨drainNow, e₁⟩ := result
    simp only [hs] at hb
    cases hb
    obtain ⟨hg, hstate, hchannels, hqueue⟩ := deadline_spec hs
    have hchronicle := hx.channels index
    apply hx.move (k := [])
    · rw [hchannels]
      exact chronicles_keep hx.channels (hchronicle.deadline hstate)
    · intro item hitem
      rcases hqueue item hitem with hold | hitem
      · exact Or.inl hold
      · apply Or.inr
        intro hf
        rw [hitem hf]
        exact ⟨_, hg ▸ hchronicle.busy (Or.inl hstate), rfl⟩
    · exact push_known _ (knows_drainIf _ drainNow)
    · exact hx.legal

private theorem told_begin_takeCompletion (hx : Told x) {index : ℕ}
    (hb : begin x.1.shared (x.1.thread t) (.takeCompletion index) = some (e', l')) :
    Told (⟨e', Function.update x.1.thread t l'⟩,
      observe x.1.shared (x.1.thread t) (.takeCompletion index) ++ x.2) := by
  simp only [begin, observe] at hb ⊢
  cases hs : x.1.shared.takeCompletion index with
  | none =>
    simp only [hs] at hb
    cases hb
    exact hx.same t
  | some result =>
    obtain ⟨completion, e₁⟩ := result
    simp only [hs] at hb
    cases hb
    unfold Engine.takeCompletion at hs
    dsimp only at hs
    split at hs
    · rename_i hpending
      cases hs
      obtain ⟨hchronicle, hstarted, hduty, hpended, hcancelled, hcompleted⟩ :=
        (hx.channels index).take hpending.2
      apply hx.move (k := [_])
      · exact chronicles_update hx.channels rfl hchronicle
      · exact fun item hitem => Or.inl hitem
      · exact fun f hf => Or.inl hf
      · exact ⟨⟨⟨_, hstarted, hduty⟩, hpended, hcancelled, hcompleted⟩, hx.legal⟩
    · cases hs

private theorem told_begin (hx : Told x) {a : Event} (hok : Unwrapped x (t, a))
    (hb : begin x.1.shared (x.1.thread t) a = some (e', l')) :
    Told (⟨e', Function.update x.1.thread t l'⟩,
      observe x.1.shared (x.1.thread t) a ++ x.2) := by
  cases a with
  | start r nowUs => exact told_begin_start hx hok hb
  | cancel index nowUs => exact told_begin_cancel hx hok hb
  | deadline index generation => exact told_begin_deadline hx hb
  | takeCompletion index => exact told_begin_takeCompletion hx hb
  | setCompletionNotifier set =>
    cases hb
    exact hx.quiet rfl (fun _ h => h) fun _ h => Or.inl h
  | scheduled alarm => cases hb
  | resume => cases hb

/-- The top frame gives way to others. -/
private theorem frames_replace {f : Frame} {rest l : List Frame} {active : Bool}
    {k : List Entry} (ht : x.1.thread t = ⟨active, f :: rest⟩)
    (hl : ∀ g ∈ l, Knows (k ++ x.2) g) :
    ∀ g ∈ l ++ rest, g ∈ (x.1.thread t).stack ∨ Knows (k ++ x.2) g := by
  intro g hg
  rcases List.mem_append.mp hg with hnew | hold
  · exact Or.inr (hl g hnew)
  · rw [ht]
    exact Or.inl (List.mem_cons_of_mem f hold)

private theorem told_resume (hx : Told x) {active : Bool} {f : Frame} {rest : List Frame}
    (ht : x.1.thread t = ⟨active, f :: rest⟩)
    (hr : resume x.1.shared active rest f = some (e', l')) :
    Told (⟨e', Function.update x.1.thread t l'⟩,
      observe x.1.shared ⟨active, f :: rest⟩ .resume ++ x.2) := by
  have hknows := hx.frames t f (by simp [ht])
  cases f with
  | startAlarm channel generation drainNow => cases hr
  | cancelAlarm alarm drainNow =>
    cases hr
    exact hx.quiet rfl (fun _ h => h) (frames_replace (k := []) ht (knows_drainIf _ drainNow))
  | drain =>
    cases hr
    cases active with
    | true => exact hx.quiet rfl (fun _ h => h) (frames_replace (k := []) (l := []) ht (by simp))
    | false =>
      exact hx.quiet rfl (fun _ h => h)
        (frames_replace (k := []) (l := [.loop]) ht (by simp [Knows]))
  | loop =>
    simp only [resume, observe] at hr ⊢
    cases hp : x.1.shared.pop with
    | stop =>
      simp only [hp] at hr ⊢
      cases hr
      exact hx.quiet rfl (fun _ h => h)
        (frames_replace (k := []) (l := [.relinquish]) ht (by simp [Knows]))
    | skip e₁ =>
      simp only [hp] at hr ⊢
      cases hr
      obtain ⟨item, hq, hchannels⟩ := pop_skipped hp
      refine hx.quiet hchannels (fun item hitem => ?_)
        (frames_replace (k := []) (l := [.loop]) ht (by simp [Knows]))
      rw [hq]
      exact List.mem_cons_of_mem _ hitem
    | take item e₁ =>
      simp only [hp] at hr ⊢
      cases hr
      obtain ⟨hq, hchannels, hg⟩ := pop_taken hp
      have hchronicle := hx.channels item.channel
      apply hx.move (k := [.took item])
      · rw [hchannels]
        exact fun i => (hx.channels i).cons (by simp [Entry.channel])
      · intro other hother
        rw [hq]
        exact Or.inl (List.mem_cons_of_mem _ hother)
      · apply frames_replace (l := [_]) ht
        intro g hmem
        rw [List.mem_singleton.mp hmem]
        exact ⟨List.mem_cons_self, (hx.queue item (by simp [hq])).append _⟩
      · refine ⟨⟨fun g r hs => hg ▸ hchronicle.started g r hs, fun hs => ?_⟩, hx.legal⟩
        exact absurd (hchronicle.cancelled _ hs) (by omega)
  | write item =>
    cases hr
    obtain ⟨htook, hprepared⟩ := hknows
    apply hx.move (k := [.wrote item])
    · exact fun i => (hx.channels i).cons (by simp [Entry.channel])
    · exact fun item hitem => Or.inl hitem
    · apply frames_replace (l := [_]) ht
      intro g hg
      rw [List.mem_singleton.mp hg]
      split
      · rename_i hf
        exact ⟨List.mem_cons_self, hf, hprepared.append _⟩
      · trivial
    · exact ⟨htook, hx.legal⟩
  | finalize item =>
    obtain ⟨hwrote, hf, hprepared⟩ := hknows
    obtain ⟨r, hstarted, hitem⟩ := hprepared hf
    simp only [resume, observe] at hr ⊢
    by_cases hcurrent : (x.1.shared.channels item.channel).generation = item.generation ∧
        (x.1.shared.channels item.channel).state = .queued
    · rw [finalize_current hcurrent] at hr
      rw [if_pos hcurrent]
      cases hr
      obtain ⟨hchronicle, hcancelled, hpended⟩ :=
        (hx.channels item.channel).finalize hcurrent.2
      rw [hcurrent.1] at hcancelled hpended
      apply hx.move
      · rw [← hcurrent.1]
        exact chronicles_update hx.channels rfl hchronicle
      · exact fun item hitem => Or.inl hitem
      · apply frames_replace (l := [_]) ht
        intro g hg
        rw [List.mem_singleton.mp hg]
        split <;> trivial
      · exact ⟨⟨⟨r, hstarted, hitem ▸ hwrote⟩, hcancelled, hpended⟩, hx.legal⟩
    · rw [finalize_stale hcurrent] at hr
      rw [if_neg hcurrent]
      cases hr
      exact hx.quiet rfl (fun _ h => h)
        (frames_replace (k := []) (l := [.loop]) ht (by simp [Knows]))
  | notify =>
    cases hr
    exact hx.quiet rfl (fun _ h => h) (frames_replace (k := []) (l := [.loop]) ht (by simp [Knows]))
  | relinquish =>
    cases hr
    exact hx.quiet rfl (fun _ h => h) (frames_replace (k := []) (l := []) ht (by simp))

theorem told_step : PreservesWhen recordedStep Unwrapped Told := by
  intro x a x' hok hstep hx
  obtain ⟨t, a⟩ := a
  obtain ⟨c', hfire, rfl⟩ := Option.map_eq_some_iff.mp hstep
  obtain ⟨e', l', hp, rfl⟩ := fire_eq_some.mp hfire
  dsimp only at hp ⊢
  generalize hl : x.1.thread t = l at hp
  unfold step at hp
  split at hp
  · exact told_resume hx hl hp
  · cases hp
  · rename_i alarm active channel generation drainNow rest
    obtain ⟨rfl, rfl⟩ := Prod.mk.inj (Option.some.inj hp)
    obtain ⟨hq, -⟩ := storeAlarm_queue (e := x.1.shared) channel generation alarm
    apply hx.move (k := [])
    · unfold Engine.storeAlarm
      dsimp only
      split
      · have hc := hx.channels channel
        exact chronicles_keep hx.channels ⟨hc.started, hc.unique, hc.cancelled, hc.pended,
          hc.completed, hc.busy, hc.target, hc.pending⟩
      · exact hx.channels
    · rw [hq]
      exact fun item hitem => Or.inl hitem
    · exact frames_replace hl (knows_drainIf _ drainNow)
    · exact hx.legal
  · split at hp
    · subst hl
      exact told_begin hx hok hp
    · cases hp

end Steps

section Runs

theorem Legal.append {k h : List Entry} (hl : Legal (k ++ h)) : Legal h := by
  induction k with
  | nil => exact hl
  | cons x k ih => cases x <;> first | exact ih hl.2 | exact ih hl

/-- In a run in which no generation counter wraps, a generation completes at most once and
never after its cancellation, with the duty that was asked for, and is pending only when its
endpoint has been written to its pin. An alarm of an earlier generation does nothing, an
item of one is dropped, and what is written was current when the drainer took it; there is
at most one drainer, so at most one such item. -/
theorem generations_contract {events : List (ℕ × Event)} {c : System} {history : List Entry}
    (hr : run recordedStep (start, []) events = some (c, history))
    (hwrap : Meets recordedStep Unwrapped (start, []) events) :
    (∀ later completion earlier, history = later ++ .completed completion :: earlier →
      (∃ r, .started completion.channel completion.generation r ∈ earlier ∧
        completion.duty = r.targetDuty) ∧
      .pended completion.channel completion.generation ∈ earlier ∧
      .cancelled completion.channel completion.generation ∉ earlier ∧
      ∀ duty, .completed ⟨completion.channel, completion.generation, duty⟩ ∉ earlier) ∧
    (∀ later i g earlier, history = later ++ .pended i g :: earlier →
      (∃ r, .started i g r ∈ earlier ∧ .wrote (r.finalizer i g) ∈ earlier) ∧
      .cancelled i g ∉ earlier ∧ .pended i g ∉ earlier) ∧
    (∀ later i g r earlier, history = later ++ .started i g r :: earlier →
      ∀ g' r', .started i g' r' ∈ earlier → g' < g) ∧
    (∀ later item earlier, history = later ++ .wrote item :: earlier → .took item ∈ earlier) ∧
    (∀ later item earlier, history = later ++ .took item :: earlier →
      (∀ g r, .started item.channel g r ∈ earlier → g ≤ item.generation) ∧
      .cancelled item.channel item.generation ∉ earlier) ∧
    (∀ t u item item', .write item ∈ (c.thread t).stack → .write item' ∈ (c.thread u).stack →
      t = u ∧ drains (c.thread t) = 1) ∧
    ∀ t i g c', (c.shared.channels i).generation ≠ g →
      fire step c (t, .deadline i g) = some c' → c' = c := by
  have htold : Told (c, history) := told_step.run hwrap hr told_start
  have hdrainer : Drainer c := by
    have hkeep : Preserves recordedStep fun x => Drainer x.1 := by
      intro x a x' hstep hx
      obtain ⟨c', hfire, rfl⟩ := Option.map_eq_some_iff.mp hstep
      obtain ⟨e', l', hp, rfl⟩ := fire_eq_some.mp hfire
      exact hx.step (effect_of_step hp)
    exact hkeep.run hr drainer_start
  have hlegal : ∀ later entry earlier, history = later ++ entry :: earlier →
      Legal (entry :: earlier) := by
    intro later entry earlier heq
    apply Legal.append (k := later)
    rw [← heq]
    exact htold.legal
  refine ⟨fun later completion earlier heq => ?_, fun later i g earlier heq => ?_,
    fun later i g r earlier heq => ?_, fun later item earlier heq => ?_,
    fun later item earlier heq => ?_, fun t u item item' ht hu => ?_, fun t i g c' hg hfire => ?_⟩
  · exact (hlegal _ _ _ heq).1
  · exact (hlegal _ _ _ heq).1
  · exact (hlegal _ _ _ heq).1
  · exact (hlegal _ _ _ heq).1
  · exact (hlegal _ _ _ heq).1
  · have hdrains : ∀ {v : ℕ} {d : Delivery}, .write d ∈ (c.thread v).stack →
        0 < drains (c.thread v) := fun hmem => List.countP_pos_iff.mpr ⟨_, hmem, rfl⟩
    have ht' := hdrains ht
    have hle := drains_le_owners (c.thread t)
    have hone := hdrainer.held.count_le_one t
    refine ⟨hdrainer.held.eq_of_pos (ht'.trans_le hle) ?_, by omega⟩
    exact (hdrains hu).trans_le (drains_le_owners _)
  · have hnone : c.shared.deadline i g = none := by
      rw [Engine.deadline]
      exact if_neg fun h => hg h.1
    obtain ⟨e', l', hp, rfl⟩ := fire_eq_some.mp hfire
    simp only [step, begin, hnone] at hp
    split at hp
    · cases hp
      simp
    · cases hp

/-- A fade completes and its completion is taken. -/
def takenFade : List (ℕ × Event) :=
  [(1, .start (immediateFade 0) 0), (1, .resume), (1, .resume), (1, .resume), (1, .resume),
    (1, .resume), (1, .resume), (1, .resume), (1, .resume), (1, .takeCompletion 0)]

theorem generations_contract_takenFade : ∃ c history,
    run recordedStep (start, []) takenFade = some (c, history) ∧
    .completed ⟨0, 1, 8⟩ ∈ history ∧ .pended 0 1 ∈ history.tail := by
  refine ⟨_, _, rfl, by decide, ?_⟩
  refine ((@generations_contract takenFade _ _ rfl ?_).1 [] ⟨0, 1, 8⟩ _ rfl).2.1
  refine .cons (show 0 + 1 < uint64Size by decide) rfl (.cons trivial rfl (.cons trivial rfl (.cons trivial rfl
    (.cons trivial rfl (.cons trivial rfl (.cons trivial rfl (.cons trivial rfl
    (.cons trivial rfl (.cons trivial rfl trivial)))))))))

/-- Another thread cancels the fade between the drainer's look at an item and its write. -/
def cancelledWrite : List (ℕ × Event) :=
  [(1, .start (immediateFade 0) 0), (1, .resume), (1, .resume), (2, .cancel 0 0), (1, .resume)]

/-- The last thing to happen is the write of an item of the cancelled generation. -/
theorem stale_write_cancelledWrite : ∃ c earlier item,
    run recordedStep (start, []) cancelledWrite = some (c, .wrote item :: .cancelled 0 1 :: earlier) ∧
    item.channel = 0 ∧ item.generation = 1 ∧ (c.shared.channels 0).generation = 2 :=
  ⟨_, _, _, rfl, rfl, rfl, rfl⟩

end Runs

end RooTesting.FadeEngine
