import RooTesting.SntpDeliveries
import Mathlib.Tactic.Ring.RingNF

/-! # The wall clock that the SNTP client sets

Unix time is an anchor: a value and the uptime it was set at. A reading adds the uptime elapsed
since. The value that a delivery publishes was computed at the uptime of its poll, and the anchor
takes the uptime of the publication. -/
namespace RooTesting.Sntp
open Transition Threads

def kNanosPerMicrosecond : ℤ := 1000

def checked (x : ℤ) : Option ℤ := if inInt64 x then some x else none

structure WallClock where
  referenceUnixUs : ℤ := 0
  referenceUptimeUs : ℤ := 0
  deriving DecidableEq

namespace WallClock

def setUnixTimeMicros (unixUs now : ℤ) : WallClock := ⟨unixUs, now⟩

def getUnixTimeMicros (clock : WallClock) (now : ℤ) : Option ℤ :=
  (checked (now - clock.referenceUptimeUs)).bind fun elapsed =>
    checked (clock.referenceUnixUs + elapsed)

def resetToPowerOnMapping : WallClock := {}

theorem getUnixTimeMicros_eq {clock : WallClock} {now : ℤ}
    (hnow : inInt64 (now - clock.referenceUptimeUs) = true) :
    clock.getUnixTimeMicros now = checked (clock.referenceUnixUs + (now - clock.referenceUptimeUs)) := by
  rw [getUnixTimeMicros, checked, if_pos hnow]
  rfl

end WallClock

/-- A poll answered from the reference source: the reference of the server, the uptime it was
configured at and the uptime of the answer. -/
structure Poll where
  unixUs : ℤ
  referenceUptime : ℤ
  uptime : ℤ
  deriving DecidableEq

def Poll.answer (p : Poll) : ℤ := p.unixUs + (p.uptime - p.referenceUptime)

/-- The client beside the wall clock, in manual mode. `polls` tells what a claim was answered
from, and `source` is the poll whose answer was the last to set the wall clock, with the uptime at
which it did. -/
structure World where
  sntp : System := start
  uptimeNs : ℤ := 0
  wall : WallClock := {}
  polls : ℕ → Option Poll := fun _ => none
  source : Option (Poll × ℤ) := none

/-- The uptime is moved by explicit calls only. -/
inductive Act
  | advance (ns : ℤ)
  | sntp (t : ℕ) (a : Event)
  | setUnixTimeMicros (unixUs : ℤ)
  | resetToPowerOnMapping

/-- The call reads its uptime from the clock. -/
def Event.readsAt (now : ℤ) : Event → Bool
  | .timerWake n _ | .init n | .restart n | .configureServer _ n => n == now
  | _ => true

namespace World

variable (w : World)

def now : ℤ := w.uptimeNs / kNanosPerMicrosecond

def getUnixTimeMicros : Option ℤ := w.wall.getUnixTimeMicros w.now

/-- What the claim of a call is answered from. -/
def poll : Event → Option Poll
  | .timerWake now _ =>
    let c := w.sntp.shared.client
    match c.behavior.timeSource with
    | .reference => some ⟨c.behavior.referenceUnixUs, c.referenceUptime, now⟩
    | .host => none
  | _ => none

def claims (c : System) (a : Event) : ℕ → Option Poll :=
  if c.shared.next = w.sntp.shared.next then w.polls
  else Function.update w.polls w.sntp.shared.next (w.poll a)

/-- The poll that a publication delivers the answer of. -/
def delivered (id : ℕ) : Local → Option Poll
  | .retire _ :: _ => w.polls id
  | _ => none

/-- `PublishTime` sets the wall clock in its locked section. -/
def publishes (t : ℕ) : Event → Option (ℤ × Option Poll)
  | .resume => match w.sntp.thread t with
    | .publish id unixUs :: rest => some (unixUs, w.delivered id rest)
    | _ => none
  | _ => none

def set (unixUs : ℤ) (poll : Option Poll) : World :=
  { w with
    wall := WallClock.setUnixTimeMicros unixUs w.now
    source := poll.map fun p => (p, w.now) }

def sntpStep (overridden : Bool) (t : ℕ) (a : Event) : Option World :=
  if a.readsAt w.now then
    (fire (step overridden) w.sntp (t, a)).map fun c =>
      let w' := { w with sntp := c, polls := w.claims c a }
      match w.publishes t a with
      | some (unixUs, poll) => w'.set unixUs poll
      | none => w'
  else none

end World

def act (overridden : Bool) (w : World) : Act → Option World
  | .advance ns =>
    if 0 ≤ ns ∧ ns ≤ int64Max - w.uptimeNs then some { w with uptimeNs := w.uptimeNs + ns }
    else none
  | .sntp t a => w.sntpStep overridden t a
  | .setUnixTimeMicros unixUs => some (w.set unixUs none)
  | .resetToPowerOnMapping =>
    some { w with wall := WallClock.resetToPowerOnMapping, source := none }

theorem frame_claimed {s : Shared} {l : Local} (hbooks : Books s) (h : Sits s l) {id : ℕ} {v : ℤ}
    (hmem : .sync id v ∈ l ∨ .publish id v ∈ l) : id < s.next := by
  have hretires : id ∈ retires l := by
    have hnested := h.nested
    clear h
    induction l with
    | nil =>
      rcases hmem with hmem | hmem
      · cases hmem
      · cases hmem
    | cons f rest ih =>
      have hbelow : ∀ other, other ∈ retires rest → other ∈ retires (f :: rest) := by
        intro other hother
        cases f with
        | retire _ => exact List.mem_cons_of_mem _ hother
        | _ => exact hother
      have hrest : Nested rest := by
        cases f with
        | sync _ _ => exact hnested.2
        | publish _ _ => exact hnested.2
        | _ => exact hnested
      by_cases htop : f = .sync id v ∨ f = .publish id v
      · apply hbelow
        apply delivery_mem
        rcases htop with rfl | rfl
        · exact hnested.1
        · exact hnested.1
      · push Not at htop
        apply hbelow
        apply ih _ hrest
        rcases hmem with hmem | hmem
        · exact Or.inl (List.mem_of_ne_of_mem htop.1.symm hmem)
        · exact Or.inr (List.mem_of_ne_of_mem htop.2.symm hmem)
  exact hbooks.claimed id ((hbooks.inFlight id).mp (h.inFlight id hretires)).1

def Frame.publishes : Frame → Bool
  | .sync _ _ | .publish _ _ => true
  | _ => false

/-- The value is the answer of the poll that the claim was made by. -/
def Told (polls : ℕ → Option Poll) (id : ℕ) (v : ℤ) : Prop := ∀ p, polls id = some p → v = p.answer

/-- What is to be published for a poll is its answer. -/
structure Honest (polls : ℕ → Option Poll) (l : Local) : Prop where
  sync : ∀ id v, .sync id v ∈ l → Told polls id v
  publish : ∀ id v other rest, (.publish id v :: .retire other :: rest) <:+ l → Told polls id v

namespace Honest

variable {polls : ℕ → Option Poll} {f : Frame} {l rest : Local}

theorem nil : Honest polls [] := by
  constructor
  · intro id v hmem
    cases hmem
  · intro id v other rest hsuffix
    cases List.suffix_nil.mp hsuffix

theorem tail (h : Honest polls (f :: rest)) : Honest polls rest := by
  constructor
  · intro id v hmem
    exact h.sync id v (List.mem_cons_of_mem _ hmem)
  · intro id v other below hsuffix
    exact h.publish id v other below (hsuffix.trans (List.suffix_cons f rest))

theorem push (h : Honest polls rest) (hsync : ∀ id v, f = .sync id v → Told polls id v)
    (hpublish : ∀ id v other below, f = .publish id v → rest = .retire other :: below →
      Told polls id v) : Honest polls (f :: rest) := by
  constructor
  · intro id v hmem
    rcases List.mem_cons.mp hmem with htop | hmem
    · exact hsync id v htop.symm
    · exact h.sync id v hmem
  · intro id v other below hsuffix
    rcases List.suffix_cons_iff.mp hsuffix with htop | hsuffix
    · obtain ⟨hf, hrest⟩ := List.cons.inj htop
      exact hpublish id v other below hf.symm hrest.symm
    · exact h.publish id v other below hsuffix

theorem pushSync (h : Honest polls rest) {id : ℕ} {v : ℤ} (htold : Told polls id v) :
    Honest polls (.sync id v :: rest) := by
  apply h.push
  · intro other w hf
    cases hf
    exact htold
  · intro other w _ below hf
    cases hf

theorem pushPublish (h : Honest polls rest) {id : ℕ} {v : ℤ}
    (htold : ∀ other below, rest = .retire other :: below → Told polls id v) :
    Honest polls (.publish id v :: rest) := by
  apply h.push
  · intro other w hf
    cases hf
  · intro other w below rest hf hrest
    cases hf
    exact htold below rest hrest

/-- A frame that publishes nothing. -/
theorem quiet (h : Honest polls rest) (hf : f.publishes = false) : Honest polls (f :: rest) := by
  apply h.push
  · rintro id v rfl
    cases hf
  · rintro id v other below rfl
    cases hf

/-- A claim that no frame of the stack names. -/
theorem update (h : Honest polls l) {next : ℕ} (p : Option Poll)
    (hfresh : ∀ id v, .sync id v ∈ l ∨ .publish id v ∈ l → id < next) :
    Honest (Function.update polls next p) l := by
  have hold : ∀ {id v}, Told polls id v → id < next → Told (Function.update polls next p) id v := by
    intro id v htold hlt q hq
    rw [Function.update_of_ne hlt.ne] at hq
    exact htold q hq
  constructor
  · intro id v hmem
    exact hold (h.sync id v hmem) (hfresh id v (Or.inl hmem))
  · intro id v other rest hsuffix
    apply hold (h.publish id v other rest hsuffix)
    exact hfresh id v (Or.inr (hsuffix.subset List.mem_cons_self))

end Honest

section Steps

variable {overridden : Bool} {polls : ℕ → Option Poll} {s s' : Shared} {l l' : Local}

theorem Honest.resume {f : Frame} {rest : Local} (h : Honest polls (f :: rest))
    (hr : resume overridden s rest f = some (s', l')) : Honest polls l' := by
  have htail := h.tail
  cases f with
  | sync id v =>
    cases hr
    cases overridden with
    | true => exact htail.quiet rfl
    | false =>
      apply htail.pushPublish
      intro _ _ _
      rw [ofTimeval_toTimeval]
      exact h.sync id v List.mem_cons_self
  | publish id v =>
    obtain ⟨-, hr⟩ := Option.ite_none_right_eq_some.mp hr
    cases hcallback : s.client.callback with
    | none =>
      rw [show s.publish id v = (_, none) from Prod.ext rfl hcallback] at hr
      cases hr
      exact htail
    | some g =>
      rw [show s.publish id v = (_, some g) from Prod.ext rfl hcallback] at hr
      cases hr
      exact htail.quiet rfl
  | drain =>
    cases hr
    split
    · exact htail.quiet rfl
    · exact htail.quiet rfl
  | _ =>
    cases hr
    exact htail

/-- The answer of the reference source. -/
theorem timerWake_answer {now v : ℤ} {host : Option ℤ}
    (hr : s.timerWake now host = some (s', some v))
    (hsource : s.client.behavior.timeSource = .reference) :
    v = s.client.behavior.referenceUnixUs + (now - s.client.referenceUptime) := by
  have hresponse : ∀ {w}, s.client.response now host = some w →
      w = s.client.behavior.referenceUnixUs + (now - s.client.referenceUptime) := by
    intro w hw
    obtain ⟨-, hw⟩ := Option.ite_none_right_eq_some.mp hw
    rw [Client.serverTimeLocked, hsource] at hw
    obtain ⟨-, hw⟩ := Option.ite_none_right_eq_some.mp hw
    exact (Option.some.inj hw).symm
  unfold Shared.timerWake at hr
  split at hr
  · cases hr
  · obtain ⟨c, -, heq⟩ := Option.map_eq_some_iff.mp hr
    obtain ⟨-, hv⟩ := Prod.mk.inj heq
    split at hv
    · exact hresponse hv
    · cases hv

/-- A call pushes what is to be published for the claim that it makes. -/
theorem Honest.call {a : Event} (h : Honest polls l) (hcallable : callable l = true)
    (hc : call overridden s l a = some (s', l'))
    (hwake : ∀ now host v, a = .timerWake now host → s.timerWake now host = some (s', some v) →
      Told polls s.next v)
    (hsync : s'.next ≠ s.next → (∀ now host, a ≠ .timerWake now host) → polls s.next = none) :
    Honest polls l' := by
  cases a with
  | timerWake now host =>
    obtain ⟨-, hc⟩ := Option.ite_none_right_eq_some.mp hc
    obtain ⟨⟨r, response⟩, hr, heq⟩ := Option.map_eq_some_iff.mp hc
    cases response with
    | none =>
      cases heq
      exact h
    | some v =>
      cases heq
      exact (h.quiet rfl).pushSync (hwake now host v rfl hr)
  | syncTime unixUs =>
    simp only [Sntp.call] at hc
    split at hc
    · cases hc
      exact h.quiet rfl
    · split at hc
      · cases hc
        apply h.pushPublish
        intro other below hl
        rw [hl] at hcallable
        cases hcallable
      · obtain ⟨-, hc⟩ := Option.ite_none_left_eq_some.mp hc
        cases hc
        apply (h.quiet rfl).pushPublish
        intro _ _ _ p hp
        rw [hsync (Nat.succ_ne_self _) fun _ _ he => by cases he] at hp
        cases hp
  | reset =>
    obtain ⟨-, hc⟩ := Option.ite_none_right_eq_some.mp hc
    obtain ⟨r, -, heq⟩ := Option.map_eq_some_iff.mp hc
    cases heq
    exact h.quiet rfl
  | init now | restart now | setServerName index name | setServer index address =>
    obtain ⟨r, -, heq⟩ := Option.map_eq_some_iff.mp hc
    cases heq
    exact h
  | resume => cases hc
  | _ =>
    cases hc
    exact h

end Steps

/-- The wall clock stands at the answer of its source, set at an uptime between the poll and
now. -/
structure Exact (w : World) : Prop where
  inv : Inv w.sntp
  honest : ∀ t, Honest w.polls (w.sntp.thread t)
  started : 0 ≤ w.uptimeNs
  bounded : w.uptimeNs ≤ int64Max
  asked : ∀ id p, w.polls id = some p → 0 ≤ p.uptime ∧ p.uptime ≤ w.now
  source : ∀ p q, w.source = some (p, q) →
    0 ≤ p.uptime ∧ p.uptime ≤ q ∧ q ≤ w.now ∧ w.wall = ⟨p.answer, q⟩

/-- The publication of a polled answer is on top of the destructor of its claim. -/
theorem publishes_eq_some {w : World} {t : ℕ} {a : Event} {unixUs : ℤ} {p : Poll}
    (h : w.publishes t a = some (unixUs, some p)) :
    ∃ id other below, w.sntp.thread t = .publish id unixUs :: .retire other :: below ∧
      w.polls id = some p := by
  cases a with
  | resume =>
    unfold World.publishes at h
    dsimp only at h
    split at h
    · rename_i id v rest hthread
      obtain ⟨rfl, hpoll⟩ := Prod.mk.inj (Option.some.inj h)
      unfold World.delivered at hpoll
      split at hpoll
      · exact ⟨id, _, _, hthread, hpoll⟩
      · cases hpoll
    · cases h
  | _ => cases h

theorem start_exact : Exact {} where
  inv := start_inv
  honest t := Honest.nil
  started := le_refl 0
  bounded := by decide
  asked id p h := by cases h
  source p q h := by cases h

namespace Exact

variable {w : World} {overridden : Bool}

theorem now_nonneg (h : Exact w) : 0 ≤ w.now :=
  Int.ediv_nonneg h.started (by decide)

theorem now_le (h : Exact w) : w.now ≤ int64Max :=
  (Int.ediv_le_self _ h.started).trans h.bounded

theorem advance (h : Exact w) {ns : ℤ} (hns : 0 ≤ ns) (hle : ns ≤ int64Max - w.uptimeNs) :
    Exact { w with uptimeNs := w.uptimeNs + ns } := by
  have hlater : w.now ≤ World.now { w with uptimeNs := w.uptimeNs + ns } := by
    apply Int.ediv_le_ediv (by decide)
    exact Int.le_add_of_nonneg_right hns
  have hstarted := h.started
  constructor
  · exact h.inv
  · exact h.honest
  · dsimp only
    omega
  · dsimp only
    omega
  · intro id p hp
    obtain ⟨hzero, hasked⟩ := h.asked id p hp
    exact ⟨hzero, hasked.trans hlater⟩
  · intro p q hsource
    obtain ⟨hzero, hasked, hset, hwall⟩ := h.source p q hsource
    exact ⟨hzero, hasked, hset.trans hlater, hwall⟩

theorem set (h : Exact w) {unixUs : ℤ} {poll : Option Poll}
    (hpoll : ∀ p, poll = some p → 0 ≤ p.uptime ∧ p.uptime ≤ w.now ∧ unixUs = p.answer) :
    Exact (w.set unixUs poll) := by
  refine ⟨h.inv, h.honest, h.started, h.bounded, h.asked, ?_⟩
  intro p published hsource
  obtain ⟨q, hq, heq⟩ := Option.map_eq_some_iff.mp hsource
  cases heq
  obtain ⟨hzero, hasked, hunix⟩ := hpoll p hq
  refine ⟨hzero, hasked, le_refl _, ?_⟩
  rw [World.set, WallClock.setUnixTimeMicros, hunix]

theorem poll_asked (h : Exact w) {a : Event} (hreads : a.readsAt w.now = true) {p : Poll}
    (hp : w.poll a = some p) : 0 ≤ p.uptime ∧ p.uptime ≤ w.now := by
  cases a with
  | timerWake now host =>
    have hnow : now = w.now := eq_of_beq hreads
    unfold World.poll at hp
    dsimp only at hp
    split at hp
    · cases hp
      subst hnow
      exact ⟨h.now_nonneg, le_refl _⟩
    · cases hp
  | _ => cases hp

theorem poll_eq_none {a : Event} (h : ∀ now host, a ≠ .timerWake now host) : w.poll a = none := by
  cases a with
  | timerWake now host => exact absurd rfl (h now host)
  | _ => rfl

/-- The answer that a wake has computed is that of the poll noted for its claim. -/
theorem poll_answer {now v : ℤ} {host : Option ℤ} {s' : Shared} {p : Poll}
    (hr : w.sntp.shared.timerWake now host = some (s', some v))
    (hp : w.poll (.timerWake now host) = some p) : v = p.answer := by
  unfold World.poll at hp
  dsimp only at hp
  split at hp
  · rename_i hsource
    cases hp
    exact timerWake_answer hr hsource
  · cases hp

theorem claims (h : Exact w) {t : ℕ} {a : Event} {c : System} (hreads : a.readsAt w.now = true)
    (hfire : fire (step overridden) w.sntp (t, a) = some c) :
    Exact { w with sntp := c, polls := w.claims c a } := by
  have hbefore : ∀ u, Honest (w.claims c a) (w.sntp.thread u) := by
    intro u
    unfold World.claims
    split
    · exact h.honest u
    · exact (h.honest u).update _ fun _ _ => frame_claimed h.inv.books (h.inv.sits u)
  have hnew : c.shared.next ≠ w.sntp.shared.next → w.claims c a w.sntp.shared.next = w.poll a := by
    intro hne
    rw [World.claims, if_neg hne, Function.update_self]
  obtain ⟨s', l', hstep, rfl⟩ := fire_eq_some.mp hfire
  have hwake : ∀ now host v, a = .timerWake now host →
      w.sntp.shared.timerWake now host = some (s', some v) →
        Told (w.claims ⟨s', Function.update w.sntp.thread t l'⟩ a) w.sntp.shared.next v := by
    intro now host v ha hr p hp
    rcases timerWake_cases hr with ⟨hnone, -⟩ | ⟨_, r, -, -, -, rfl, hs, -⟩
    · cases hnone
    · have hne : r.next + 1 ≠ w.sntp.shared.next := by
        rw [hs.next]
        exact Nat.succ_ne_self _
      rw [hnew hne, ha] at hp
      exact poll_answer hr hp
  have hmine : Honest (w.claims ⟨s', Function.update w.sntp.thread t l'⟩ a) l' := by
    have hl := hbefore t
    cases a with
    | resume =>
      cases hthread : w.sntp.thread t with
      | nil =>
        rw [hthread] at hstep
        cases hstep
      | cons f rest =>
        rw [hthread] at hstep hl
        exact hl.resume hstep
    | _ =>
      obtain ⟨hcallable, hcall⟩ := Option.ite_none_right_eq_some.mp hstep
      exact hl.call hcallable hcall hwake fun hne hno => (hnew hne).trans (poll_eq_none hno)
  constructor
  · exact inv_preserves overridden hfire h.inv
  · exact forall_update.mpr ⟨hmine, fun u _ => hbefore u⟩
  · exact h.started
  · exact h.bounded
  · intro id p hp
    dsimp only [World.claims] at hp
    split at hp
    · exact h.asked id p hp
    · by_cases hid : id = w.sntp.shared.next
      · rw [hid, Function.update_self] at hp
        exact h.poll_asked hreads hp
      · rw [Function.update_of_ne hid] at hp
        exact h.asked id p hp
  · exact h.source

end Exact

theorem act_preserves (overridden : Bool) : Preserves (act overridden) Exact := by
  intro w a w' hact h
  cases a with
  | advance ns =>
    obtain ⟨⟨hns, hle⟩, heq⟩ := Option.ite_none_right_eq_some.mp hact
    cases heq
    exact h.advance hns hle
  | sntp t a =>
    obtain ⟨hreads, hact⟩ := Option.ite_none_right_eq_some.mp hact
    obtain ⟨c, hfire, heq⟩ := Option.map_eq_some_iff.mp hact
    have hclaims := h.claims hreads hfire
    cases hpublishes : w.publishes t a with
    | none =>
      rw [hpublishes] at heq
      cases heq
      exact hclaims
    | some told =>
      obtain ⟨unixUs, poll⟩ := told
      rw [hpublishes] at heq
      cases heq
      apply hclaims.set
      intro p hp
      subst hp
      obtain ⟨id, other, below, hthread, hpoll⟩ := publishes_eq_some hpublishes
      obtain ⟨hzero, hasked⟩ := h.asked id p hpoll
      refine ⟨hzero, hasked, ?_⟩
      exact (h.honest t).publish id unixUs other below (hthread ▸ List.suffix_refl _) p hpoll
  | setUnixTimeMicros unixUs =>
    cases hact
    apply h.set
    intro p hp
    cases hp
  | resetToPowerOnMapping =>
    cases hact
    refine ⟨h.inv, h.honest, h.started, h.bounded, h.asked, ?_⟩
    intro p q hsource
    cases hsource

/-- No subtraction of uptimes overflows. -/
theorem Exact.read {w : World} (h : Exact w) {p : Poll} {q : ℤ} (hsource : w.source = some (p, q)) :
    w.getUnixTimeMicros =
      checked (p.unixUs + (w.now - p.referenceUptime) - (q - p.uptime)) := by
  obtain ⟨hzero, hasked, hset, hwall⟩ := h.source p q hsource
  have hmax := h.now_le
  have helapsed : inInt64 (w.now - q) = true := by
    apply decide_eq_true
    have hmin : int64Min ≤ 0 := by decide
    omega
  rw [World.getUnixTimeMicros, hwall, WallClock.getUnixTimeMicros_eq helapsed, Poll.answer]
  congr 1
  ring

/-- Where the last change of the wall clock was a delivery from the reference source, the Unix time
is that of the server less the uptime that passed from the poll to the publication. The `timeval`
of a value gives the value back, and its microseconds are in range. -/
theorem wall_clock_exact (overridden : Bool) {es : List Act} {w : World}
    (hr : run (act overridden) {} es = some w) :
    (∀ p q, w.source = some (p, q) → p.uptime ≤ q ∧ q ≤ w.now ∧
      w.getUnixTimeMicros =
        checked (p.unixUs + (w.now - p.referenceUptime) - (q - p.uptime)) ∧
      (q = p.uptime →
        w.getUnixTimeMicros = checked (p.unixUs + (w.now - p.referenceUptime)))) ∧
    ∀ unixUs, inInt64 unixUs = true → ofTimeval (toTimeval unixUs) = unixUs ∧
      0 ≤ (toTimeval unixUs).2 ∧ (toTimeval unixUs).2 < 1000000 := by
  have h : Exact w := (act_preserves overridden).run hr start_exact
  refine ⟨fun p q hsource => ?_, fun unixUs _ => ⟨ofTimeval_toTimeval unixUs, toTimeval_usec unixUs⟩⟩
  obtain ⟨-, hasked, hset, -⟩ := h.source p q hsource
  refine ⟨hasked, hset, h.read hsource, fun hq => ?_⟩
  rw [h.read hsource, hq, sub_self, sub_zero]

/-- The reference server of the runs below, configured at uptime 5. -/
def referenceServer : ServerBehavior := { timeSource := .reference, referenceUnixUs := 7000000 }

def polledAt100005 : List Act :=
  [.advance 5000, .sntp 1 (.configureServer referenceServer 5), .sntp 1 (.setServer 0 1),
   .sntp 1 (.init 5), .advance 100000000, .sntp 0 (.timerWake 100005 none), .sntp 0 .resume]

theorem wall_clock_exact_at_once :
    ∃ w, run (act false) {} (polledAt100005 ++ [.sntp 0 .resume, .advance 20000999]) = some w ∧
      w.now = 120005 ∧ w.source = some (⟨7000000, 5, 100005⟩, 100005) ∧
      w.getUnixTimeMicros = checked (7000000 + (w.now - 5)) := by
  have hrun : (run (act false) {} (polledAt100005 ++ [.sntp 0 .resume, .advance 20000999])).map
      (fun w => (w.now, w.source)) = some (120005, some (⟨7000000, 5, 100005⟩, 100005)) := by
    decide +kernel
  obtain ⟨w, hw, heq⟩ := Option.map_eq_some_iff.mp hrun
  obtain ⟨hnow, hsource⟩ := Prod.mk.inj heq
  exact ⟨w, hw, hnow, hsource, ((wall_clock_exact false hw).1 _ _ hsource).2.2.2 rfl⟩

/-- The uptime is advanced between the poll and its publication. -/
theorem late_publication_behind : ¬ ∀ (es : List Act) (w : World) (p : Poll) (q : ℤ),
    run (act false) {} es = some w → w.source = some (p, q) →
      w.getUnixTimeMicros = checked (p.unixUs + (w.now - p.referenceUptime)) := by
  intro h
  have hrun : (run (act false) {}
      (polledAt100005 ++ [.advance 10000, .sntp 0 .resume, .advance 20000999])).map
      (fun w => (w.now, w.source, w.getUnixTimeMicros)) =
        some (120015, some (⟨7000000, 5, 100005⟩, 100015), some 7120000) := by
    decide +kernel
  obtain ⟨w, hw, heq⟩ := Option.map_eq_some_iff.mp hrun
  obtain ⟨hnow, heq⟩ := Prod.mk.inj heq
  obtain ⟨hsource, hread⟩ := Prod.mk.inj heq
  have hsame := h _ w _ _ hw hsource
  rw [hread, hnow] at hsame
  exact absurd hsame (by decide +kernel)

end RooTesting.Sntp
