import RooTesting.FadeEngine
import RooTesting.Threads

/-! # The delivery queue of the fade engine under any number of threads

Starts, cancellations and deadlines append to the queue; the one that finds nobody
draining drains. Sinks and notifiers run between the sections of the drain and may
make every call themselves. -/
namespace RooTesting.FadeEngine
open Transition Threads

/-- A call in progress, by the step it takes next. -/
inductive Frame where
  | startAlarm (channel generation : ℕ) (drainNow : Bool)
  | cancelAlarm (alarm : ℕ) (drainNow : Bool)
  | drain
  | loop
  | write (item : Delivery)
  | finalize (item : Delivery)
  | notify
  | relinquish
  deriving DecidableEq

/-- A thread with its `kLedcDeliveryActive`. -/
structure Local where
  active : Bool
  stack : List Frame
  deriving DecidableEq

inductive Event where
  | start (r : Request) (nowUs : ℤ)
  | scheduled (alarm : ℕ)
  | cancel (index : ℕ) (nowUs : ℤ)
  | deadline (index generation : ℕ)
  | takeCompletion (index : ℕ)
  | setCompletionNotifier (set : Bool)
  | resume
  deriving DecidableEq

/-- A thread outside the engine, or in a sink or in the notifier, may make a call. -/
def callable : List Frame → Bool
  | [] => true
  | .write _ :: _ => true
  | .notify :: _ => true
  | _ => false

def Local.push (l : Local) (fs : List Frame) : Local := { l with stack := fs ++ l.stack }

def drainIf (drainNow : Bool) : List Frame := if drainNow then [.drain] else []

/-- The next step of the innermost call of a thread. -/
def resume (e : Engine) (active : Bool) (rest : List Frame) : Frame → Option (Engine × Local)
  | .startAlarm .. => none
  | .cancelAlarm _ drainNow => some (e, ⟨active, drainIf drainNow ++ rest⟩)
  | .drain => some (e, if active then ⟨active, rest⟩ else ⟨true, .loop :: rest⟩)
  | .loop =>
    match e.pop with
    | .stop => some (e, ⟨active, .relinquish :: rest⟩)
    | .skip e => some (e, ⟨active, .loop :: rest⟩)
    | .take item e => some (e, ⟨active, .write item :: rest⟩)
  | .write item => some (e, ⟨active, (if item.finalize then .finalize item else .loop) :: rest⟩)
  | .finalize item =>
    let r := e.finalize item
    some (r.2, ⟨active, (if r.1 then .notify else .loop) :: rest⟩)
  | .notify => some (e, ⟨active, .loop :: rest⟩)
  | .relinquish => some (e.relinquish, ⟨false, rest⟩)

/-- The first section of a call. -/
def begin (e : Engine) (l : Local) : Event → Option (Engine × Local)
  | .start r nowUs =>
    if !l.active && r.accepted nowUs then
      match e.start r nowUs with
      | none => some (e, l)
      | some (generation, drainNow, e) => some (e, l.push
          (if r.immediate then drainIf drainNow else [.startAlarm r.channel generation drainNow]))
    else some (e, l)
  | .cancel index nowUs =>
    if !l.active && index < kChannels then
      match e.cancel index nowUs with
      | none => some (e, l)
      | some (alarm, drainNow, e) => some (e, l.push [.cancelAlarm alarm drainNow])
    else some (e, l)
  | .deadline index generation =>
    match e.deadline index generation with
    | none => some (e, l)
    | some (drainNow, e) => some (e, l.push (drainIf drainNow))
  | .takeCompletion index => some (((e.takeCompletion index).map Prod.snd).getD e, l)
  | .setCompletionNotifier set => some (e.setCompletionNotifier set, l)
  | _ => none

/-- One atomic step of one thread. -/
def step : Program Engine Local Event
  | .resume, e, ⟨active, f :: rest⟩ => resume e active rest f
  | .resume, _, ⟨_, []⟩ => none
  | .scheduled alarm, e, ⟨active, .startAlarm channel generation drainNow :: rest⟩ =>
    some (e.storeAlarm channel generation alarm, ⟨active, drainIf drainNow ++ rest⟩)
  | a, e, l => if callable l.stack then begin e l a else none

abbrev System := Config Engine Local

def start : System := ⟨initial, fun _ => ⟨false, []⟩⟩

section Views

/-- Frames of the drain loop. -/
def Frame.drains : Frame → Bool
  | .loop | .write _ | .finalize _ | .notify | .relinquish => true
  | _ => false

/-- Frames whose thread is still going to call `drain`. -/
def Frame.willDrain : Frame → Bool
  | .startAlarm _ _ drainNow => drainNow
  | .cancelAlarm _ drainNow => drainNow
  | .drain => true
  | _ => false

/-- Frames of a drain loop that looks at the queue again. -/
def Frame.examines : Frame → Bool
  | .loop | .write _ | .finalize _ | .notify => true
  | _ => false

def owners (l : Local) : ℕ := l.stack.countP fun f => f.drains || f.willDrain

def drains (l : Local) : ℕ := l.stack.countP Frame.drains

/-- A waiting delivery has a drainer that examines the queue again, or a call that is
going to drain. -/
def Served (c : System) : Prop :=
  c.shared.delivery ≠ [] → c.shared.draining = true ∧
    ∃ t, (∃ f ∈ (c.thread t).stack, f.examines) ∨
      (c.thread t).active = false ∧ ∃ f ∈ (c.thread t).stack, f.willDrain

/-- The section of the call appends to the queue. -/
def Event.enqueues (e : Engine) (l : Local) : Event → Bool
  | .start r nowUs => !l.active && r.accepted nowUs && (e.start r nowUs).isSome
  | .cancel index nowUs => !l.active && index < kChannels && (e.cancel index nowUs).isSome
  | .deadline index generation => (e.deadline index generation).isSome
  | _ => false

/-- Nothing is appended between a drainer's decision to stop and its release. -/
def ReleasesUndisturbed (c : System) (a : ℕ × Event) : Prop :=
  (∃ t, .relinquish ∈ (c.thread t).stack) → a.2.enqueues c.shared (c.thread a.1) = false

end Views

section Effects

/-- What a step does to the queue and to its ownership. -/
inductive Effect (e : Engine) (l : Local) : Event → Engine → Local → Prop where
  | quiet {a e' l'} (hq : e'.delivery = e.delivery) (hd : e'.draining = e.draining)
      (hactive : l'.active = l.active) (howners : owners l' = owners l)
      (hdrains : drains l' = drains l) (hrel : .relinquish ∈ l'.stack → .relinquish ∈ l.stack) :
      Effect e l a e' l'
  | append {a e' l' drainNow} (happ : Appends e drainNow e') (henq : a.enqueues e l = true)
      (hactive : l'.active = l.active) (howners : owners l' = owners l + if drainNow then 1 else 0)
      (hdrains : drains l' = drains l) (hrel : .relinquish ∈ l'.stack → .relinquish ∈ l.stack) :
      Effect e l a e' l'
  | enter {a rest} (hl : l = ⟨false, .drain :: rest⟩) : Effect e l a e ⟨true, .loop :: rest⟩
  | nested {a rest} (hl : l = ⟨true, .drain :: rest⟩) : Effect e l a e ⟨true, rest⟩
  | pop {a item items f rest} (hq : e.delivery = item :: items) (hl : l.stack = .loop :: rest)
      (hf : f.drains = true) (hne : f ≠ .relinquish) :
      Effect e l a { e with delivery := items } ⟨l.active, f :: rest⟩
  | stop {a rest} (hq : e.draining = true → e.delivery = []) (hl : l.stack = .loop :: rest) :
      Effect e l a e ⟨l.active, .relinquish :: rest⟩
  | release {a rest} (hl : l.stack = .relinquish :: rest) : Effect e l a e.relinquish ⟨false, rest⟩

variable {e e' : Engine} {l l' : Local}

theorem owners_push (l : Local) (fs : List Frame) : owners (l.push fs) =
    fs.countP (fun f => f.drains || f.willDrain) + owners l := by
  simp [owners, Local.push, List.countP_append]

theorem drains_push (l : Local) (fs : List Frame) :
    drains (l.push fs) = fs.countP Frame.drains + drains l := by
  simp [drains, Local.push, List.countP_append]

/-- A call that appends pushes at most the promise to drain. -/
theorem Effect.of_push {a : Event} {drainNow : Bool} {fs : List Frame} (happ : Appends e drainNow e')
    (henq : a.enqueues e l = true)
    (hfs : fs.countP (fun f => f.drains || f.willDrain) = if drainNow then 1 else 0)
    (hdrains : fs.countP Frame.drains = 0) : Effect e l a e' (l.push fs) := by
  refine .append happ henq rfl ?_ ?_ fun h => ?_
  · rw [owners_push, hfs, Nat.add_comm]
  · rw [drains_push, hdrains, Nat.zero_add]
  · refine (List.mem_append.mp h).resolve_left fun hmem => ?_
    exact absurd hdrains (List.countP_pos_iff.mpr ⟨_, hmem, rfl⟩).ne'

theorem Effect.same {a : Event} (hq : e'.delivery = e.delivery) (hd : e'.draining = e.draining) :
    Effect e l a e' l :=
  .quiet hq hd rfl rfl rfl id

theorem effect_begin {a : Event} (h : begin e l a = some (e', l')) : Effect e l a e' l' := by
  have drainIf_counts : ∀ drainNow : Bool,
      (drainIf drainNow).countP (fun f => f.drains || f.willDrain) = (if drainNow then 1 else 0) ∧
        (drainIf drainNow).countP Frame.drains = 0 := by decide
  cases a with
  | start r nowUs =>
    simp only [begin] at h
    split at h
    · rename_i hguard
      split at h
      · obtain ⟨rfl, rfl⟩ := Prod.mk.inj (Option.some.inj h)
        exact .same rfl rfl
      · rename_i generation drainNow e₁ hs
        obtain ⟨rfl, rfl⟩ := Prod.mk.inj (Option.some.inj h)
        refine .of_push (start_eq_some hs) (by simp [Event.enqueues, hguard, hs]) ?_ ?_
        · split
          · exact (drainIf_counts drainNow).1
          · cases drainNow <;> rfl
        · split
          · exact (drainIf_counts drainNow).2
          · rfl
    · obtain ⟨rfl, rfl⟩ := Prod.mk.inj (Option.some.inj h)
      exact .same rfl rfl
  | cancel index nowUs =>
    simp only [begin] at h
    split at h
    · rename_i hguard
      split at h
      · obtain ⟨rfl, rfl⟩ := Prod.mk.inj (Option.some.inj h)
        exact .same rfl rfl
      · rename_i alarm drainNow e₁ hs
        obtain ⟨rfl, rfl⟩ := Prod.mk.inj (Option.some.inj h)
        refine .of_push (cancel_eq_some hs) (by simp [Event.enqueues, hguard, hs]) ?_ rfl
        cases drainNow <;> rfl
    · obtain ⟨rfl, rfl⟩ := Prod.mk.inj (Option.some.inj h)
      exact .same rfl rfl
  | deadline index generation =>
    simp only [begin] at h
    split at h
    · obtain ⟨rfl, rfl⟩ := Prod.mk.inj (Option.some.inj h)
      exact .same rfl rfl
    · rename_i drainNow e₁ hs
      obtain ⟨rfl, rfl⟩ := Prod.mk.inj (Option.some.inj h)
      exact .of_push (deadline_eq_some hs) (by simp [Event.enqueues, hs]) (drainIf_counts _).1
        (drainIf_counts _).2
  | takeCompletion index =>
    obtain ⟨rfl, rfl⟩ := Prod.mk.inj (Option.some.inj h)
    cases ht : e.takeCompletion index with
    | none => exact .same rfl rfl
    | some r => exact .same (takeCompletion_queue ht).1 (takeCompletion_queue ht).2
  | setCompletionNotifier set =>
    obtain ⟨rfl, rfl⟩ := Prod.mk.inj (Option.some.inj h)
    exact .same rfl rfl
  | scheduled alarm => cases h
  | resume => cases h

/-- A frame gives way to frames with the same share in the drain. -/
theorem Effect.of_replace {a : Event} {active : Bool} {f : Frame} {b rest : List Frame}
    (hq : e'.delivery = e.delivery) (hd : e'.draining = e.draining)
    (howners : owners ⟨active, b⟩ = owners ⟨active, [f]⟩)
    (hdrains : drains ⟨active, b⟩ = drains ⟨active, [f]⟩) (hrel : .relinquish ∉ b) :
    Effect e ⟨active, f :: rest⟩ a e' ⟨active, b ++ rest⟩ := by
  refine .quiet hq hd rfl ?_ ?_ fun h => ?_
  · simp only [owners, List.countP_append, List.countP_cons, List.countP_nil] at howners ⊢
    omega
  · simp only [drains, List.countP_append, List.countP_cons, List.countP_nil] at hdrains ⊢
    omega
  · exact List.mem_cons_of_mem _ ((List.mem_append.mp h).resolve_left hrel)

theorem effect_resume {active : Bool} {f : Frame} {rest : List Frame}
    (h : resume e active rest f = some (e', l')) :
    Effect e ⟨active, f :: rest⟩ .resume e' l' := by
  cases f with
  | startAlarm channel generation drainNow => cases h
  | cancelAlarm alarm drainNow =>
    obtain ⟨rfl, rfl⟩ := Prod.mk.inj (Option.some.inj h)
    refine .of_replace rfl rfl ?_ ?_ ?_ <;> cases drainNow <;>
      simp [drainIf, owners, drains, Frame.drains, Frame.willDrain]
  | drain =>
    obtain ⟨rfl, rfl⟩ := Prod.mk.inj (Option.some.inj h)
    cases active with
    | true => exact .nested rfl
    | false => exact .enter rfl
  | loop =>
    simp only [resume] at h
    rcases pop_cases (e := e) with ⟨hpop, hq⟩ | ⟨item, items, -, hq, hpop | hpop⟩
    · rw [hpop] at h
      obtain ⟨rfl, rfl⟩ := Prod.mk.inj (Option.some.inj h)
      exact .stop hq rfl
    · rw [hpop] at h
      obtain ⟨rfl, rfl⟩ := Prod.mk.inj (Option.some.inj h)
      exact .pop hq rfl rfl (by simp)
    · rw [hpop] at h
      obtain ⟨rfl, rfl⟩ := Prod.mk.inj (Option.some.inj h)
      exact .pop hq rfl rfl (by simp)
  | write item =>
    obtain ⟨rfl, rfl⟩ := Prod.mk.inj (Option.some.inj h)
    cases hf : item.finalize with
    | true => exact .of_replace (b := [.finalize item]) rfl rfl rfl rfl (by simp)
    | false => exact .of_replace (b := [.loop]) rfl rfl rfl rfl (by simp)
  | finalize item =>
    obtain ⟨rfl, rfl⟩ := Prod.mk.inj (Option.some.inj h)
    obtain ⟨hq, hd⟩ := finalize_queue (e := e) item
    cases hf : (e.finalize item).1 with
    | true => exact .of_replace (b := [.notify]) hq hd rfl rfl (by simp)
    | false => exact .of_replace (b := [.loop]) hq hd rfl rfl (by simp)
  | notify =>
    obtain ⟨rfl, rfl⟩ := Prod.mk.inj (Option.some.inj h)
    exact .of_replace (b := [.loop]) rfl rfl rfl rfl (by simp)
  | relinquish =>
    obtain ⟨rfl, rfl⟩ := Prod.mk.inj (Option.some.inj h)
    exact .release rfl

theorem effect_of_step {a : Event} (h : step a e l = some (e', l')) : Effect e l a e' l' := by
  unfold step at h
  split at h
  · exact effect_resume h
  · cases h
  · rename_i alarm active channel generation drainNow rest
    obtain ⟨rfl, rfl⟩ := Prod.mk.inj (Option.some.inj h)
    obtain ⟨hq, hd⟩ := storeAlarm_queue (e := e) channel generation alarm
    refine .of_replace hq hd ?_ ?_ ?_ <;> cases drainNow <;>
      simp [drainIf, owners, drains, Frame.drains, Frame.willDrain]
  · split at h
    · exact effect_begin h
    · cases h

end Effects

end RooTesting.FadeEngine
