import Mathlib.Data.Int.Notation
import Mathlib.Data.Nat.Notation
import Mathlib.Logic.Function.Basic
import Mathlib.Data.Rat.Init
import Mathlib.Tactic.Common
import Mathlib.Algebra.Group.Int.Defs
import Mathlib.Algebra.Group.Nat.Defs

/-! # The LEDC fade engine

Sixteen channels and one delivery queue behind one lock. The sections of the engine
are functions of its state; clock readings and alarm ids come in as arguments. Duties
and phases are the exact ratios that the doubles of the source represent. -/
namespace RooTesting.FadeEngine

def kChannels : ℕ := 16
def kMaxVoltageSignalDurationMicros : ℕ := 2 ^ 53
def uint64Size : ℕ := 2 ^ 64
def int64Max : ℤ := 2 ^ 63 - 1

structure Request where
  channel : ℕ
  pin : ℤ
  frequencyHz : ℕ
  resolution : ℕ
  startDuty : ℕ
  targetDuty : ℕ
  carrierOriginUs : ℤ
  pulseStartPhase : ℚ := 0
  inverted : Bool := false
  durationUs : ℕ := 0
  deriving DecidableEq

inductive DutyProfile where
  | constant (duty : ℚ)
  | linearFade (startDuty targetDuty : ℚ) (fadeStartUs : ℤ) (durationUs : ℕ)
  deriving DecidableEq

/-- A constant level of zero volts, or a square wave between zero and the digital high. -/
inductive VoltageSignal where
  | zero
  | square (frequencyHz : ℕ) (duty : DutyProfile) (originUs : ℤ) (phase : ℚ) (inverted : Bool)
  deriving DecidableEq

inductive State where
  | idle | armed | queued | pending | cancelled
  deriving DecidableEq

structure Channel where
  state : State
  request : Request
  generation : ℕ
  duty : ℕ
  fadeStartUs : ℤ
  alarm : ℕ
  deriving DecidableEq

structure Delivery where
  signal : VoltageSignal
  pin : ℤ
  finalize : Bool
  channel : ℕ
  generation : ℕ
  deriving DecidableEq

/-- The state behind the engine's lock. The flag says whether a notifier is set. -/
structure Engine where
  channels : ℕ → Channel
  delivery : List Delivery
  draining : Bool
  notifier : Bool

structure Completion where
  channel : ℕ
  generation : ℕ
  duty : ℕ
  deriving DecidableEq

structure Snapshot where
  generation : ℕ := 0
  duty : ℕ := 0
  gateHeld : Bool := false
  completionPending : Bool := false
  deriving DecidableEq

def period (resolution : ℕ) : ℕ := 2 ^ resolution

/-- The duty that a fade has reached after the elapsed time; the product is one of 64 bits. -/
def materialize (r : Request) (elapsedUs : ℤ) : ℕ :=
  if r.durationUs = 0 ∨ elapsedUs ≤ 0 then r.startDuty
  else if r.durationUs ≤ elapsedUs.toNat then r.targetDuty
  else if r.startDuty ≤ r.targetDuty then
    r.startDuty + (r.targetDuty - r.startDuty) * elapsedUs.toNat % uint64Size / r.durationUs
  else r.startDuty - (r.startDuty - r.targetDuty) * elapsedUs.toNat % uint64Size / r.durationUs

def Channel.signal (c : Channel) (endpoint : Bool) : VoltageSignal :=
  let scale : ℚ := period c.request.resolution
  let duty : DutyProfile :=
    if endpoint then .constant (c.request.targetDuty / scale)
    else .linearFade (c.request.startDuty / scale) (c.request.targetDuty / scale) c.fadeStartUs
      c.request.durationUs
  .square c.request.frequencyHz duty c.request.carrierOriginUs c.request.pulseStartPhase
    c.request.inverted

def emptyRequest : Request := ⟨0, 0, 0, 0, 0, 0, 0, 0, false, 0⟩

def initial : Engine := ⟨fun _ => ⟨.idle, emptyRequest, 0, 0, 0, 0⟩, [], false, false⟩

/-- A fade that reaches its target at once. -/
def Request.immediate (r : Request) : Bool := r.durationUs = 0 || r.startDuty = r.targetDuty

/-- The checks of `Start` before the lock. -/
def Request.accepted (r : Request) (nowUs : ℤ) : Bool :=
  !(kChannels ≤ r.channel || r.pin < 0 || r.frequencyHz = 0 || r.resolution = 0 ||
    20 < r.resolution || period r.resolution < r.startDuty || period r.resolution < r.targetDuty ||
    kMaxVoltageSignalDurationMicros < r.durationUs) &&
  !(0 < r.durationUs && int64Max - r.durationUs < nowUs)

namespace Engine

variable (e : Engine)

def setChannel (index : ℕ) (c : Channel) : Engine :=
  { e with channels := Function.update e.channels index c }

/-- Appends to the queue and claims the drain when nobody has it. -/
def enqueue (items : List Delivery) : Bool × Engine :=
  (!e.draining, { e with delivery := e.delivery ++ items, draining := true })

def setCompletionNotifier (set : Bool) : Engine := { e with notifier := set }

/-- The first locked section of `Start`: the new generation and whether to drain. -/
def start (r : Request) (nowUs : ℤ) : Option (ℕ × Bool × Engine) :=
  let c := e.channels r.channel
  if c.state = .idle ∨ c.state = .cancelled then
    let generation := (c.generation + 1) % uint64Size
    let c : Channel := { c with
      request := r
      duty := r.startDuty
      fadeStartUs := nowUs
      state := if r.immediate then .queued else .armed
      generation := generation }
    let begin : Delivery := ⟨c.signal false, r.pin, false, r.channel, generation⟩
    if r.immediate then
      let c := { c with duty := r.targetDuty }
      some (generation, (e.setChannel r.channel c).enqueue
        [begin, ⟨c.signal true, r.pin, true, r.channel, generation⟩])
    else some (generation, (e.setChannel r.channel c).enqueue [begin])
  else none

/-- The second locked section of `Start`, after the alarm has been scheduled. -/
def storeAlarm (channel generation alarm : ℕ) : Engine :=
  let c := e.channels channel
  if c.generation = generation then e.setChannel channel { c with alarm := alarm } else e

/-- The locked section of `Cancel`: the alarm to cancel and whether to drain. -/
def cancel (index : ℕ) (nowUs : ℤ) : Option (ℕ × Bool × Engine) :=
  let c := e.channels index
  if c.state = .armed ∨ c.state = .queued then
    let duty := materialize c.request (nowUs - c.fadeStartUs)
    let generation := (c.generation + 1) % uint64Size
    let signal : VoltageSignal := .square c.request.frequencyHz
      (.constant (duty / (period c.request.resolution : ℚ))) c.request.carrierOriginUs
      c.request.pulseStartPhase c.request.inverted
    some (c.alarm, (e.setChannel index { c with
      duty := duty, state := .cancelled, generation := generation }).enqueue
        [⟨signal, c.request.pin, false, index, generation⟩])
  else none

/-- The locked section of the deadline callback. -/
def deadline (index generation : ℕ) : Option (Bool × Engine) :=
  let c := e.channels index
  if c.generation = generation ∧ c.state = .armed then
    let c := { c with duty := c.request.targetDuty, state := .queued }
    some ((e.setChannel index c).enqueue
      [⟨c.signal true, c.request.pin, false, index, generation⟩,
        ⟨c.signal true, c.request.pin, true, index, generation⟩])
  else none

/-- What the locked section of the drain loop finds. -/
inductive Pop where
  | stop
  | skip (e : Engine)
  | take (item : Delivery) (e : Engine)

def pop : Pop :=
  if e.draining then
    match e.delivery with
    | [] => .stop
    | item :: rest =>
      let e := { e with delivery := rest }
      if (e.channels item.channel).generation = item.generation then .take item e else .skip e
  else .stop

/-- The locked section after a finalizing delivery has been written; the flag says
whether the notifier is called. -/
def finalize (item : Delivery) : Bool × Engine :=
  let c := e.channels item.channel
  if c.generation = item.generation ∧ c.state = .queued then
    (e.notifier, e.setChannel item.channel { c with state := .pending })
  else (false, e)

/-- The locked section in which the drain ends. -/
def relinquish : Engine := { e with draining := false }

def snapshot (index : ℕ) (nowUs : ℤ) : Snapshot :=
  if kChannels ≤ index then {}
  else
    let c := e.channels index
    { generation := c.generation
      duty := if c.state = .armed then materialize c.request (nowUs - c.fadeStartUs) else c.duty
      gateHeld := c.state = .armed || c.state = .queued || c.state = .pending
      completionPending := c.state = .pending }

def takeCompletion (index : ℕ) : Option (Completion × Engine) :=
  let c := e.channels index
  if index < kChannels ∧ c.state = .pending then
    some (⟨index, c.generation, c.duty⟩, e.setChannel index { c with state := .idle, alarm := 0 })
  else none

end Engine

section Sections

variable {e e' : Engine}

@[simp] theorem channels_setChannel (index : ℕ) (c : Channel) :
    (e.setChannel index c).channels = Function.update e.channels index c := rfl

@[simp] theorem delivery_setChannel (index : ℕ) (c : Channel) :
    (e.setChannel index c).delivery = e.delivery := rfl

@[simp] theorem draining_setChannel (index : ℕ) (c : Channel) :
    (e.setChannel index c).draining = e.draining := rfl

/-- A section that appends to the queue: it claims the drain exactly when nobody has it. -/
structure Appends (e : Engine) (drainNow : Bool) (e' : Engine) : Prop where
  drainNow : drainNow = !e.draining
  draining : e'.draining = true
  delivery : ∃ items, items ≠ [] ∧ e'.delivery = e.delivery ++ items

theorem appends_enqueue {e₀ : Engine} {items : List Delivery} {drainNow : Bool}
    (h : e.enqueue items = (drainNow, e')) (hne : items ≠ []) (hd : e.draining = e₀.draining)
    (hq : e.delivery = e₀.delivery) : Appends e₀ drainNow e' := by
  obtain ⟨rfl, rfl⟩ := Prod.mk.inj h
  exact ⟨by rw [hd], rfl, items, hne, by rw [hq]⟩

theorem start_eq_some {r : Request} {nowUs : ℤ} {generation : ℕ} {drainNow : Bool}
    (h : e.start r nowUs = some (generation, drainNow, e')) : Appends e drainNow e' := by
  unfold Engine.start at h
  dsimp only at h
  split at h
  · split at h
    · obtain ⟨-, h⟩ := Prod.mk.inj (Option.some.inj h)
      exact appends_enqueue h (by simp) rfl rfl
    · obtain ⟨-, h⟩ := Prod.mk.inj (Option.some.inj h)
      exact appends_enqueue h (by simp) rfl rfl
  · cases h

theorem cancel_eq_some {index : ℕ} {nowUs : ℤ} {alarm : ℕ} {drainNow : Bool}
    (h : e.cancel index nowUs = some (alarm, drainNow, e')) : Appends e drainNow e' := by
  unfold Engine.cancel at h
  dsimp only at h
  split at h
  · obtain ⟨-, h⟩ := Prod.mk.inj (Option.some.inj h)
    exact appends_enqueue h (by simp) rfl rfl
  · cases h

theorem deadline_eq_some {index generation : ℕ} {drainNow : Bool}
    (h : e.deadline index generation = some (drainNow, e')) : Appends e drainNow e' := by
  unfold Engine.deadline at h
  dsimp only at h
  split at h
  · exact appends_enqueue (Option.some.inj h) (by simp) rfl rfl
  · cases h

theorem storeAlarm_queue (channel generation alarm : ℕ) :
    (e.storeAlarm channel generation alarm).delivery = e.delivery ∧
      (e.storeAlarm channel generation alarm).draining = e.draining := by
  unfold Engine.storeAlarm
  dsimp only
  split <;> exact ⟨rfl, rfl⟩

theorem finalize_queue (item : Delivery) :
    (e.finalize item).2.delivery = e.delivery ∧ (e.finalize item).2.draining = e.draining := by
  unfold Engine.finalize
  dsimp only
  split <;> exact ⟨rfl, rfl⟩

theorem takeCompletion_queue {index : ℕ} {completion : Completion}
    (h : e.takeCompletion index = some (completion, e')) :
    e'.delivery = e.delivery ∧ e'.draining = e.draining := by
  unfold Engine.takeCompletion at h
  dsimp only at h
  split at h
  · obtain ⟨-, rfl⟩ := Prod.mk.inj (Option.some.inj h)
    exact ⟨rfl, rfl⟩
  · cases h

/-- Every item that the drain loop takes or skips leaves the queue. -/
theorem pop_cases : (e.pop = .stop ∧ (e.draining = true → e.delivery = [])) ∨
    ∃ item rest, e.draining = true ∧ e.delivery = item :: rest ∧
      (e.pop = .take item { e with delivery := rest } ∨ e.pop = .skip { e with delivery := rest }) := by
  unfold Engine.pop
  cases hd : e.draining with
  | false => exact Or.inl ⟨by simp, fun h => by cases h⟩
  | true =>
    cases hq : e.delivery with
    | nil => exact Or.inl ⟨by simp, fun _ => rfl⟩
    | cons item rest =>
      refine Or.inr ⟨item, rest, rfl, rfl, ?_⟩
      simp only [if_true]
      split
      · exact Or.inl (by simp_all)
      · exact Or.inr (by simp_all)

end Sections

end RooTesting.FadeEngine
