import RooTesting.WifiStates

/-! # The streams of connection and address events

Each stream tells when something that the state holds began and ended. A section decides on an
event and the event is posted later, so a stream follows the state when the posts of a stream
are made in the order of their sections and when an attempt that took a connection or an
address away is left to announce it. -/
namespace RooTesting.Wifi
open Transition Threads

/-- What the events of a stream are about, which events these are (a beginning with the
generation of its attempt, or an end), and which completions have an end still to announce
when what they are about is gone. -/
structure Stream where
  of : Event → Option (Option ℕ)
  held : State → Bool
  possible : State → Bool
  owes : PendingConnection → Phase → Bool

def connection : Stream where
  of
    | .staConnected generation _ => some (some generation)
    | .staDisconnected _ _ => some none
    | _ => none
  held s := s.connectedAp.isSome
  possible _ := true
  owes _ phase := match phase with
    | .spawn | .delay _ _ | .fail _ | .lostIp _ _ | .associate _ _ => true
    | _ => false

def address : Stream where
  of
    | .staGotIp generation _ => some (some generation)
    | .staLostIp => some none
    | _ => none
  held s := s.hasStationIp
  possible s := s.stationNetif.isSome
  owes pending phase := match phase with
    | .spawn | .delay _ _ | .fail _ | .lostIp _ _ => pending.lostPreviousIp
    | .failLostIp | .dropLostIp => true
    | _ => false

/-- A call that puts an end to all attempts. -/
def supersedes (s : State) : Call → Bool
  | .reset => true
  | .init => s.driver = .uninitialized
  | .deinit => s.driver = .stopped
  | .start | .setConfig _ | .scan _ => false
  | .stop => s.driver = .started
  | .restore => s.driver ≠ .uninitialized
  | .disconnect => s.driver = .started && hasStation s.mode
  | .setMode mode => s.driver ≠ .uninitialized && mode.any fun mode => !hasStation mode
  | .connect _ _ =>
    s.driver = .started && hasStation s.mode && !s.scanInProgress && s.station ≠ .connecting &&
      s.stationConfig.ssid ≠ ""

def Call.isRestore : Call → Bool
  | .restore => true
  | _ => false

namespace Stream

variable (x : Stream)

/-- The event of the stream among some posts. -/
def announces (posts : List Event) : Option (Option ℕ) := posts.findSome? x.of

/-- The last event of the stream that was posted is a beginning. -/
def lastBegan : List Entry → Bool
  | [] => false
  | .posted event :: history => (x.of event).elim (lastBegan history) Option.isSome
  | .returned _ :: history => lastBegan history

/-- The last event of the stream that a section decided on, posted or not, is a beginning, or
is none. -/
structure Decided (c : System) (began : Bool) : Prop where
  followed : ∀ t kind, x.announces (c.thread t).posts = some kind → kind.isSome ≠ began →
    ∃ u kind', x.announces (c.thread u).posts = some kind' ∧ kind'.isSome = began ∧
      (c.thread t).number < (c.thread u).number
  posted : (∀ t kind, x.announces (c.thread t).posts = some kind → kind.isSome ≠ began) →
    x.lastBegan c.shared.history = began

/-- The end of something that is gone is yet to be announced. -/
def Owed (c : System) : Prop := x.Decided c true ∧ x.held c.shared.state = false

/-- The next post of a thread does not overtake one of the other kind. -/
def InOrder (c : System) (t : ℕ) : Prop :=
  ∀ event posts kind, (c.thread t).posts = event :: posts → x.of event = some kind →
    ∀ u kind', x.announces (c.thread u).posts = some kind' → kind'.isSome ≠ kind.isSome →
      (c.thread t).number < (c.thread u).number

/-- The steps that a stream follows: posts in the order of their sections, no end to all
attempts and no failure to create a task while an event is owed, and no restore that takes away
what is held. -/
def Orderly (c : System) : ℕ × Action → Prop
  | (_, .call call) => supersedes c.shared.state call = true →
    ¬x.Owed c ∧ (call.isRestore = true → x.held c.shared.state = false)
  | (t, .post) => x.InOrder c t
  | (t, .advance _ created) => created = false → ∀ pending,
    (c.thread t).rest = .completing pending .spawn →
      pending.generation = c.shared.state.connectGeneration → ¬x.Owed c

/-- No beginning is posted behind the return of the call that put an end to its attempt. -/
def Prompt : List Entry → Prop
  | [] => True
  | .posted event :: history =>
    (∀ generation, x.of event = some (some generation) →
      Entry.returned (generation + 1) ∉ history) ∧ Prompt history
  | .returned _ :: history => Prompt history

/-- What a section of a call does to a stream. -/
inductive CallEffect (s : State) (call : Call) (done : Section) : Prop
  | kept (hgeneration : done.state.connectGeneration = s.connectGeneration)
      (hheld : x.held done.state = x.held s) (hposts : x.announces done.posts = none)
      (hrest : done.rest = .done)
  | ended (hsupersedes : supersedes s call = true)
      (hgeneration : done.state.connectGeneration = s.connectGeneration + 1)
      (hheld : x.held done.state = false)
      (hposts : x.announces done.posts = if x.held s then some none else none)
      (hrest : done.rest = .returning done.state.connectGeneration)
  | reset (hsupersedes : supersedes s call = true)
      (hgeneration : done.state.connectGeneration = s.connectGeneration + 1)
      (hheld : x.held done.state = false) (hposts : x.announces done.posts = none)
      (hrest : done.rest = .done) (hrestore : x.held s = true → call.isRestore = true)
  | replaced (pending : PendingConnection) (phase : Phase)
      (hsupersedes : supersedes s call = true)
      (hgeneration : done.state.connectGeneration = s.connectGeneration + 1)
      (hheld : x.held done.state = false) (hposts : x.announces done.posts = none)
      (hrest : done.rest = .completing pending phase)
      (hpending : pending.generation = done.state.connectGeneration)
      (howes : x.held s = true → x.owes pending phase = true ∧ x.possible done.state = true)

/-- What a section of the current attempt does to a stream. -/
inductive CompletionEffect (s : State) (pending : PendingConnection) (phase : Phase)
    (created : Bool) (done : Section) : Prop
  | quiet (hheld : x.held done.state = x.held s) (hposts : x.announces done.posts = none)
      (howes : x.owes pending phase = true → x.held s = false → x.possible s = true →
        ∃ phase', done.rest = .completing pending phase' ∧ x.owes pending phase' = true)
  | announced (kind : Option ℕ) (hposts : x.announces done.posts = some kind)
      (hheld : x.held done.state = kind.isSome)
      (hkind : ∀ generation, kind = some generation → generation = pending.generation)
  | dropped (phase' : Phase) (hbefore : x.held s = true) (hheld : x.held done.state = false)
      (hposts : x.announces done.posts = none) (hpossible : x.possible done.state = true)
      (hrest : done.rest = .completing pending phase') (howes : x.owes pending phase' = true)
  | failed (hphase : phase = .spawn) (hcreated : created = false)
      (hheld : x.held done.state = x.held s) (hposts : x.announces done.posts = none)

/-- What was decided on last agrees with the state, or the current attempt owes an end. -/
def Settled (c : System) : Prop :=
  ∃ began, x.Decided c began ∧ (began = x.held c.shared.state ∨
    began = true ∧ x.held c.shared.state = false ∧ x.possible c.shared.state = true ∧
      ∃ t pending phase, (c.thread t).rest = .completing pending phase ∧
        pending.generation = c.shared.state.connectGeneration ∧ x.owes pending phase = true)

/-- The relations between a stream, the state and the threads. -/
structure Tracks (c : System) : Prop where
  few : ∀ t, ((c.thread t).posts.filterMap x.of).length ≤ 1
  earlier : ∀ t, (c.thread t).posts ≠ [] → (c.thread t).number < c.shared.sections
  decided : x.Settled c
  current : ∀ t generation, x.announces (c.thread t).posts = some (some generation) →
    generation ≤ c.shared.state.connectGeneration ∧
      (generation = c.shared.state.connectGeneration → x.held c.shared.state = true)
  owner : ∀ t u generation pending phase, t ≠ u →
    x.announces (c.thread t).posts = some (some generation) →
    (c.thread u).rest = .completing pending phase → pending.generation ≠ generation
  returning : ∀ t generation, (c.thread t).rest = .returning generation →
    generation ≤ c.shared.state.connectGeneration
  returned : ∀ generation, Entry.returned generation ∈ c.shared.history →
    generation ≤ c.shared.state.connectGeneration
  waits : ∀ t u generation, x.announces (c.thread t).posts = some (some generation) →
    (c.thread u).rest = .returning (generation + 1) →
    x.announces (c.thread u).posts = some none ∧ (c.thread t).number < (c.thread u).number
  unreturned : ∀ t generation, x.announces (c.thread t).posts = some (some generation) →
    Entry.returned (generation + 1) ∉ c.shared.history
  prompt : x.Prompt c.shared.history

/-- One thread, which has nothing left to post, commits a section. -/
structure Commits (c : System) (t : ℕ) (done : Section) (c' : System) : Prop where
  empty : (c.thread t).posts = []
  state : c'.shared.state = done.state
  history : c'.shared.history = c.shared.history
  sections : c'.shared.sections = c.shared.sections + 1
  self : c'.thread t = ⟨c.shared.sections, done.posts, done.rest⟩
  others : ∀ u, u ≠ t → c'.thread u = c.thread u

section Commit

variable {x} {c c' : System} {t : ℕ} {done : Section}

theorem announces_nil : x.announces [] = none := rfl

theorem Commits.announces_self (h : Commits c t done c') :
    x.announces (c'.thread t).posts = x.announces done.posts := by rw [h.self]

/-- A thread with an event to post is another one, or the event is of the section. -/
theorem Commits.announces_cases (h : Commits c t done c') {u : ℕ} {kind : Option ℕ}
    (hu : x.announces (c'.thread u).posts = some kind) :
    (u = t ∧ x.announces done.posts = some kind) ∨
      (u ≠ t ∧ x.announces (c.thread u).posts = some kind) := by
  by_cases hut : u = t
  · subst hut
    exact .inl ⟨rfl, h.announces_self.symm.trans hu⟩
  · rw [h.others u hut] at hu
    exact .inr ⟨hut, hu⟩

theorem Commits.ne_of_announces (h : Commits c t done c') {u : ℕ} {kind : Option ℕ}
    (hu : x.announces (c.thread u).posts = some kind) : u ≠ t := by
  rintro rfl
  rw [h.empty, announces_nil] at hu
  cases hu

theorem posts_ne_nil {posts : List Event} {kind : Option ℕ} (h : x.announces posts = some kind) :
    posts ≠ [] := by
  rintro rfl
  cases h

/-- A section that decides on no event leaves the last decision. -/
theorem Decided.keep {began : Bool} (h : x.Decided c began) (hc : Commits c t done c')
    (hposts : x.announces done.posts = none) : x.Decided c' began := by
  have hpending : ∀ {u kind}, x.announces (c.thread u).posts = some kind →
      x.announces (c'.thread u).posts = some kind := by
    intro u kind hu
    rw [hc.others u (hc.ne_of_announces hu)]
    exact hu
  constructor
  · intro u kind hu hkind
    rcases hc.announces_cases hu with ⟨-, hnew⟩ | ⟨hut, hold⟩
    · rw [hposts] at hnew
      cases hnew
    · obtain ⟨v, kind', hv, hbegan, hlt⟩ := h.followed u kind hold hkind
      refine ⟨v, kind', hpending hv, hbegan, ?_⟩
      rw [hc.others u hut, hc.others v (hc.ne_of_announces hv)]
      exact hlt
  · intro hall
    rw [hc.history]
    exact h.posted fun u kind hu => hall u kind (hpending hu)

/-- A section that decides on an event is the last to have done so. -/
theorem Decided.decide (hearlier : ∀ u, (c.thread u).posts ≠ [] →
    (c.thread u).number < c.shared.sections) (hc : Commits c t done c') {kind : Option ℕ}
    (hposts : x.announces done.posts = some kind) : x.Decided c' kind.isSome := by
  have hself : x.announces (c'.thread t).posts = some kind := hc.announces_self.trans hposts
  constructor
  · intro u kind' hu hkind
    refine ⟨t, kind, hself, rfl, ?_⟩
    rcases hc.announces_cases hu with ⟨-, hnew⟩ | ⟨hut, hold⟩
    · rw [hposts] at hnew
      cases hnew
      exact absurd rfl hkind
    · rw [hc.others u hut, hc.self]
      exact hearlier u (posts_ne_nil hold)
  · intro hall
    exact absurd rfl (hall t kind hself)

/-- A section keeps the relations when the beginnings that it decides on are of the current
generation, which it then leaves as it is, and when a call that returns has an end to announce
where something was held. -/
theorem Tracks.commit (h : x.Tracks c) (hc : Commits c t done c')
    (hfew : (done.posts.filterMap x.of).length ≤ 1)
    (hgeneration : c.shared.state.connectGeneration ≤ done.state.connectGeneration)
    (hnew : ∀ generation, x.announces done.posts = some (some generation) →
      generation = c.shared.state.connectGeneration ∧
      done.state.connectGeneration = c.shared.state.connectGeneration ∧
      x.held done.state = true ∧ done.rest ≠ .returning (generation + 1) ∧
      ∀ u pending phase, u ≠ t → (c.thread u).rest = .completing pending phase →
        pending.generation ≠ generation)
    (hcompleting : ∀ pending phase, done.rest = .completing pending phase →
      c.shared.state.connectGeneration < pending.generation ∨
        ∃ phase', (c.thread t).rest = .completing pending phase')
    (hreturning : ∀ generation, done.rest = .returning generation →
      generation = c.shared.state.connectGeneration + 1 ∧
      done.state.connectGeneration = c.shared.state.connectGeneration + 1 ∧
      (x.held c.shared.state = true → x.announces done.posts = some none))
    (hheld : done.state.connectGeneration = c.shared.state.connectGeneration →
      (∃ u, u ≠ t ∧ x.announces (c.thread u).posts =
        some (some c.shared.state.connectGeneration)) →
      x.held c.shared.state = true → x.held done.state = true)
    (hdecided : x.Settled c') : x.Tracks c' := by
  have hrest : ∀ {u}, (c'.thread u).rest = if u = t then done.rest else (c.thread u).rest := by
    intro u
    by_cases hu : u = t
    · rw [if_pos hu, hu, hc.self]
    · rw [if_neg hu, hc.others u hu]
  constructor
  case few =>
    intro u
    by_cases hu : u = t
    · rw [hu, hc.self]
      exact hfew
    · rw [hc.others u hu]
      exact h.few u
  case earlier =>
    intro u hposts
    rw [hc.sections]
    by_cases hu : u = t
    · rw [hu, hc.self]
      exact Nat.lt_succ_self _
    · rw [hc.others u hu] at hposts ⊢
      exact (h.earlier u hposts).trans (Nat.lt_succ_self _)
  case decided => exact hdecided
  case current =>
    intro u generation hu
    rw [hc.state]
    rcases hc.announces_cases hu with ⟨-, hposts⟩ | ⟨hut, hold⟩
    · obtain ⟨rfl, hgen, hnow, -⟩ := hnew generation hposts
      exact ⟨hgen.ge, fun _ => hnow⟩
    · obtain ⟨hle, hcur⟩ := h.current u generation hold
      refine ⟨hle.trans hgeneration, fun heq => ?_⟩
      have hgen : generation = c.shared.state.connectGeneration := by omega
      exact hheld (heq.symm.trans hgen) ⟨u, hut, hgen ▸ hold⟩ (hcur hgen)
  case owner =>
    intro u v generation pending phase huv hu hv
    rw [hrest] at hv
    rcases hc.announces_cases hu with ⟨rfl, hposts⟩ | ⟨hut, hold⟩
    · rw [if_neg (Ne.symm huv)] at hv
      exact (hnew generation hposts).2.2.2.2 v pending phase (Ne.symm huv) hv
    · by_cases hvt : v = t
      · rw [if_pos hvt] at hv
        rcases hcompleting pending phase hv with hlt | ⟨phase', hbefore⟩
        · have hle := (h.current u generation hold).1
          omega
        · exact h.owner u t generation pending phase' hut hold hbefore
      · rw [if_neg hvt] at hv
        exact h.owner u v generation pending phase huv hold hv
  case returning =>
    intro u generation hu
    rw [hc.state]
    rw [hrest] at hu
    by_cases hut : u = t
    · rw [if_pos hut] at hu
      obtain ⟨rfl, hgen, -⟩ := hreturning generation hu
      exact hgen.ge
    · rw [if_neg hut] at hu
      exact (h.returning u generation hu).trans hgeneration
  case returned =>
    intro generation hmem
    rw [hc.history] at hmem
    rw [hc.state]
    exact (h.returned generation hmem).trans hgeneration
  case waits =>
    intro u v generation hu hv
    rw [hrest] at hv
    rcases hc.announces_cases hu with ⟨rfl, hposts⟩ | ⟨hut, hold⟩
    · obtain ⟨hgen, -, -, hne, -⟩ := hnew generation hposts
      by_cases hvt : v = u
      · rw [if_pos hvt] at hv
        exact absurd hv hne
      · rw [if_neg hvt] at hv
        have hle := h.returning v (generation + 1) hv
        omega
    · by_cases hvt : v = t
      · rw [if_pos hvt] at hv
        obtain ⟨hgen, -, hend⟩ := hreturning (generation + 1) hv
        have hnow := (h.current u generation hold).2 (by omega)
        rw [hvt, hc.self, hc.others u hut]
        exact ⟨hend hnow, h.earlier u (posts_ne_nil hold)⟩
      · rw [if_neg hvt] at hv
        rw [hc.others u hut, hc.others v hvt]
        exact h.waits u v generation hold hv
  case unreturned =>
    intro u generation hu hmem
    rw [hc.history] at hmem
    rcases hc.announces_cases hu with ⟨-, hposts⟩ | ⟨-, hold⟩
    · have hle := h.returned (generation + 1) hmem
      have hgen := (hnew generation hposts).1
      omega
    · exact h.unreturned u generation hold hmem
  case prompt =>
    rw [hc.history]
    exact h.prompt

/-- A section after which the call is over, and which announces nothing. -/
theorem Tracks.commit_done (h : x.Tracks c) (hc : Commits c t done c')
    (hfew : (done.posts.filterMap x.of).length ≤ 1)
    (hgeneration : c.shared.state.connectGeneration ≤ done.state.connectGeneration)
    (hposts : x.announces done.posts = none) (hrest : done.rest = .done)
    (hheld : done.state.connectGeneration = c.shared.state.connectGeneration →
      x.held c.shared.state = true → x.held done.state = true)
    (hdecided : x.Settled c') : x.Tracks c' := by
  apply h.commit hc hfew hgeneration
  · intro generation hnew
    rw [hposts] at hnew
    cases hnew
  · intro pending phase hcompleting
    rw [hrest] at hcompleting
    cases hcompleting
  · intro generation hreturning
    rw [hrest] at hreturning
    cases hreturning
  · exact fun hsame _ => hheld hsame
  · exact hdecided

theorem Tracks.call (h : x.Tracks c) {call : Call} (hc : Commits c t done c')
    (hidle : (c.thread t).rest = .done) (hfew : (done.posts.filterMap x.of).length ≤ 1)
    (hpossible : x.possible done.state = x.possible c.shared.state)
    (heffect : x.CallEffect c.shared.state call done)
    (horderly : x.Orderly c (t, .call call)) : x.Tracks c' := by
  obtain ⟨began, hdecided, hbegan⟩ := h.decided
  -- what was decided agrees with the state when a call puts an end to the attempts
  have hagrees : supersedes c.shared.state call = true → began = x.held c.shared.state := by
    intro hsupersedes
    rcases hbegan with hbegan | ⟨rfl, hheld, -⟩
    · exact hbegan
    · exact absurd ⟨hdecided, hheld⟩ (horderly hsupersedes).1
  cases heffect with
  | kept hgeneration hheld hposts hrest =>
    apply h.commit_done hc hfew hgeneration.ge hposts hrest
    · intro _ hnow
      rw [hheld]
      exact hnow
    · refine ⟨began, hdecided.keep hc hposts, ?_⟩
      rw [hc.state, hheld, hpossible, hgeneration]
      rcases hbegan with hbegan | ⟨htrue, hnone, hpos, u, pending, phase, hu, hpending, howes⟩
      · exact .inl hbegan
      · refine .inr ⟨htrue, hnone, hpos, u, pending, phase, ?_, hpending, howes⟩
        have hut : u ≠ t := by
          rintro rfl
          rw [hidle] at hu
          cases hu
        rw [hc.others u hut]
        exact hu
  | ended hsupersedes hgeneration hheld hposts hrest =>
    apply h.commit hc hfew (by omega)
    · intro generation hnew
      rw [hposts] at hnew
      split_ifs at hnew
      cases hnew
    · intro pending phase hcompleting
      rw [hrest] at hcompleting
      cases hcompleting
    · intro generation hreturning
      rw [hrest] at hreturning
      cases hreturning
      refine ⟨hgeneration, hgeneration, fun hnow => ?_⟩
      rw [hposts, if_pos hnow]
    · intro hsame
      omega
    · unfold Stream.Settled
      rw [hc.state, hheld]
      cases hnow : x.held c.shared.state with
      | true =>
        rw [hnow, if_pos rfl] at hposts
        exact ⟨false, Decided.decide h.earlier hc hposts, .inl rfl⟩
      | false =>
        rw [hnow, if_neg Bool.false_ne_true] at hposts
        exact ⟨began, hdecided.keep hc hposts, .inl ((hagrees hsupersedes).trans hnow)⟩
  | reset hsupersedes hgeneration hheld hposts hrest hrestore =>
    apply h.commit_done hc hfew (by omega) hposts hrest
    · intro hsame
      omega
    · have hnow : x.held c.shared.state = false := by
        rw [Bool.eq_false_iff]
        intro hnow
        rw [(horderly hsupersedes).2 (hrestore hnow)] at hnow
        cases hnow
      refine ⟨began, hdecided.keep hc hposts, .inl ?_⟩
      rw [hc.state, hheld, ← hnow]
      exact hagrees hsupersedes
  | replaced pending phase hsupersedes hgeneration hheld hposts hrest hpending howes =>
    apply h.commit hc hfew (by omega)
    · intro generation hnew
      rw [hposts] at hnew
      cases hnew
    · intro pending' phase' hcompleting
      rw [hrest] at hcompleting
      cases hcompleting
      exact .inl (by omega)
    · intro generation hreturning
      rw [hrest] at hreturning
      cases hreturning
    · intro hsame
      omega
    · refine ⟨began, hdecided.keep hc hposts, ?_⟩
      rw [hc.state, hheld]
      cases hnow : x.held c.shared.state with
      | true =>
        obtain ⟨howed, hpos⟩ := howes hnow
        refine .inr ⟨(hagrees hsupersedes).trans hnow, rfl, hpos, t, pending, phase, ?_, hpending,
          howed⟩
        rw [hc.self]
        exact hrest
      | false => exact .inl ((hagrees hsupersedes).trans hnow)

/-- A section of an attempt that is not the current one changes nothing and posts nothing. -/
theorem Tracks.stale (h : x.Tracks c) {pending : PendingConnection} {phase : Phase}
    (hc : Commits c t done c') (hbefore : (c.thread t).rest = .completing pending phase)
    (hstale : pending.generation ≠ c.shared.state.connectGeneration)
    (hstate : done.state = c.shared.state) (hposts : done.posts = [])
    (hrest : done.rest = .done ∨ ∃ phase', done.rest = .completing pending phase') :
    x.Tracks c' := by
  have hnone : x.announces done.posts = none := by rw [hposts, announces_nil]
  apply h.commit hc
  · rw [hposts]
    exact Nat.zero_le 1
  · rw [hstate]
  · intro generation hnew
    rw [hnone] at hnew
    cases hnew
  · intro pending' phase' hcompleting
    rcases hrest with hrest | ⟨phase'', hrest⟩ <;> rw [hrest] at hcompleting <;> cases hcompleting
    exact .inr ⟨phase, hbefore⟩
  · intro generation hreturning
    rcases hrest with hrest | ⟨phase'', hrest⟩ <;> rw [hrest] at hreturning <;> cases hreturning
  · intro _ _ hnow
    rwa [hstate]
  · obtain ⟨began, hdecided, hbegan⟩ := h.decided
    refine ⟨began, hdecided.keep hc hnone, ?_⟩
    rw [hc.state, hstate]
    rcases hbegan with hbegan | ⟨htrue, hheld, hpos, u, pending', phase', hu, hpending, howes⟩
    · exact .inl hbegan
    · refine .inr ⟨htrue, hheld, hpos, u, pending', phase', ?_, hpending, howes⟩
      have hut : u ≠ t := by
        rintro rfl
        rw [hbefore] at hu
        cases hu
        exact hstale hpending
      rw [hc.others u hut]
      exact hu

theorem Tracks.complete (h : x.Tracks c) {pending : PendingConnection} {phase : Phase}
    {retry : ConnectionAttempt} {created : Bool} (hc : Commits c t done c')
    (hbefore : (c.thread t).rest = .completing pending phase)
    (hcurrent : pending.generation = c.shared.state.connectGeneration)
    (hdistinct : ∀ u pending' phase', u ≠ t → (c.thread u).rest = .completing pending' phase' →
      pending'.generation ≠ pending.generation)
    (hgeneration : done.state.connectGeneration = c.shared.state.connectGeneration)
    (hfew : (done.posts.filterMap x.of).length ≤ 1)
    (hpossible : x.possible done.state = x.possible c.shared.state)
    (hrest : done.rest = .done ∨ ∃ phase', done.rest = .completing pending phase')
    (heffect : x.CompletionEffect c.shared.state pending phase created done)
    (horderly : x.Orderly c (t, .advance retry created)) : x.Tracks c' := by
  obtain ⟨began, hdecided, hbegan⟩ := h.decided
  have hnotReturning : ∀ generation, done.rest ≠ .returning generation := by
    intro generation hreturning
    rcases hrest with hrest | ⟨phase', hrest⟩ <;> rw [hrest] at hreturning <;> cases hreturning
  apply h.commit hc hfew hgeneration.ge
  · intro generation hnew
    have hkind : generation = pending.generation ∧ x.held done.state = true := by
      cases heffect with
      | quiet hheld hposts howes =>
        rw [hposts] at hnew
        cases hnew
      | announced kind hposts hheld hkind =>
        rw [hposts] at hnew
        cases hnew
        exact ⟨hkind generation rfl, hheld⟩
      | dropped phase' hbefore' hheld hposts hpos hphase howes =>
        rw [hposts] at hnew
        cases hnew
      | failed hphase hcreated hheld hposts =>
        rw [hposts] at hnew
        cases hnew
    obtain ⟨rfl, hheld⟩ := hkind
    exact ⟨hcurrent, hgeneration, hheld, hnotReturning _, hdistinct⟩
  · intro pending' phase' hcompleting
    rcases hrest with hrest | ⟨phase'', hrest⟩ <;> rw [hrest] at hcompleting <;> cases hcompleting
    exact .inr ⟨phase, hbefore⟩
  · intro generation hreturning
    exact absurd hreturning (hnotReturning generation)
  · rintro - ⟨u, hut, hu⟩
    exact absurd hcurrent (h.owner u t _ pending phase hut hu hbefore)
  · unfold Stream.Settled
    rw [hc.state, hgeneration, hpossible]
    have hself : (c'.thread t).rest = done.rest := by rw [hc.self]
    cases heffect with
    | quiet hheld hposts howes =>
      refine ⟨began, hdecided.keep hc hposts, ?_⟩
      rw [hheld]
      rcases hbegan with hbegan | ⟨htrue, hnone, hpos, u, pending', phase', hu, hpending, howed⟩
      · exact .inl hbegan
      · -- the current attempt is this one
        have hut : u = t := by
          by_contra hut
          exact hdistinct u pending' phase' hut hu (hpending.trans hcurrent.symm)
        subst hut
        rw [hbefore] at hu
        cases hu
        obtain ⟨phase'', hnext, howed'⟩ := howes howed hnone hpos
        exact .inr ⟨htrue, hnone, hpos, u, pending, phase'', hself.trans hnext, hcurrent, howed'⟩
    | announced kind hposts hheld hkind =>
      exact ⟨kind.isSome, Decided.decide h.earlier hc hposts, .inl hheld.symm⟩
    | dropped phase' hheld hgone hposts hpos hphase howes =>
      refine ⟨began, hdecided.keep hc hposts, .inr ⟨?_, hgone, hpossible ▸ hpos, t, pending, phase',
        hself.trans hphase, hcurrent, howes⟩⟩
      rcases hbegan with hbegan | ⟨htrue, -⟩
      · exact hbegan.trans hheld
      · exact htrue
    | failed hphase hcreated hheld hposts =>
      refine ⟨began, hdecided.keep hc hposts, .inl ?_⟩
      rw [hheld]
      rcases hbegan with hbegan | ⟨rfl, hnone, -⟩
      · exact hbegan
      · exact absurd ⟨hdecided, hnone⟩ (horderly hcreated pending (hphase ▸ hbefore) hcurrent)

end Commit

section Posts

variable {x} {c c' : System} {t : ℕ}

theorem announces_cons_some {event : Event} {posts : List Event} {kind : Option ℕ}
    (h : x.of event = some kind) : x.announces (event :: posts) = some kind := by
  rw [announces, List.findSome?_cons, h]

theorem announces_cons_none {event : Event} {posts : List Event} (h : x.of event = none) :
    x.announces (event :: posts) = x.announces posts := by
  rw [announces, List.findSome?_cons, h]
  rfl

/-- A thread has one event of the stream to post at most. -/
theorem announces_tail {event : Event} {posts : List Event} {kind : Option ℕ}
    (hfew : ((event :: posts).filterMap x.of).length ≤ 1) (h : x.of event = some kind) :
    x.announces posts = none := by
  rw [List.filterMap_cons_some h, List.length_cons] at hfew
  have hnil : posts.filterMap x.of = [] := List.length_eq_zero_iff.mp (by omega)
  rw [announces, List.findSome?_eq_none_iff]
  exact List.filterMap_eq_nil_iff.mp hnil

theorem few_tail {event : Event} {posts : List Event}
    (hfew : ((event :: posts).filterMap x.of).length ≤ 1) :
    (posts.filterMap x.of).length ≤ 1 := by
  cases h : x.of event with
  | none => rwa [List.filterMap_cons_none h] at hfew
  | some kind =>
    rw [List.filterMap_cons_some h, List.length_cons] at hfew
    omega

/-- A thread makes its next post. -/
structure Posts (c : System) (t : ℕ) (event : Event) (posts : List Event) (c' : System) :
    Prop where
  before : (c.thread t).posts = event :: posts
  state : c'.shared.state = c.shared.state
  sections : c'.shared.sections = c.shared.sections
  history : c'.shared.history = .posted event :: c.shared.history
  number : (c'.thread t).number = (c.thread t).number
  posts : (c'.thread t).posts = posts
  rest : (c'.thread t).rest = (c.thread t).rest
  others : ∀ u, u ≠ t → c'.thread u = c.thread u

variable {event : Event} {posts : List Event}

theorem Posts.number_eq (hp : Posts c t event posts c') (u : ℕ) :
    (c'.thread u).number = (c.thread u).number := by
  by_cases hu : u = t
  · rw [hu, hp.number]
  · rw [hp.others u hu]

theorem Posts.rest_eq (hp : Posts c t event posts c') (u : ℕ) :
    (c'.thread u).rest = (c.thread u).rest := by
  by_cases hu : u = t
  · rw [hu, hp.rest]
  · rw [hp.others u hu]

/-- What is to be posted was so before. -/
theorem Posts.announces_before (h : x.Tracks c) (hp : Posts c t event posts c') {u : ℕ}
    {kind : Option ℕ} (hu : x.announces (c'.thread u).posts = some kind) :
    x.announces (c.thread u).posts = some kind := by
  by_cases hut : u = t
  · have hfew := h.few t
    subst hut
    rw [hp.before] at hfew ⊢
    rw [hp.posts] at hu
    cases hof : x.of event with
    | none => rwa [announces_cons_none hof]
    | some kind' =>
      rw [announces_tail hfew hof] at hu
      cases hu
  · rwa [hp.others u hut] at hu

/-- What was to be posted is so still, or it is the event that is posted now. -/
theorem Posts.announces_after (hp : Posts c t event posts c') {u : ℕ} {kind : Option ℕ}
    (hu : x.announces (c.thread u).posts = some kind) :
    x.announces (c'.thread u).posts = some kind ∨ u = t ∧ x.of event = some kind := by
  by_cases hut : u = t
  · subst hut
    rw [hp.before] at hu
    rw [hp.posts]
    cases hof : x.of event with
    | none =>
      rw [announces_cons_none hof] at hu
      exact .inl hu
    | some kind' =>
      rw [announces_cons_some hof] at hu
      exact .inr ⟨rfl, hu⟩
  · rw [hp.others u hut]
    exact .inl hu

theorem Decided.post {began : Bool} (h : x.Tracks c) (hp : Posts c t event posts c')
    (horder : x.InOrder c t) (hdecided : x.Decided c began) : x.Decided c' began := by
  constructor
  · intro u kind hu hkind
    have hbefore := hp.announces_before h hu
    obtain ⟨v, kind', hv, hbegan, hlt⟩ := hdecided.followed u kind hbefore hkind
    rw [hp.number_eq u]
    rcases hp.announces_after hv with hv' | ⟨rfl, hof⟩
    · exact ⟨v, kind', hv', hbegan, by rwa [hp.number_eq v]⟩
    · -- the event of the last decision would overtake
      have hovertaken := horder event posts kind' hp.before hof u kind hbefore (hbegan ▸ hkind)
      omega
  · intro hall
    rw [hp.history, lastBegan]
    cases hof : x.of event with
    | none =>
      apply hdecided.posted
      intro u kind hu
      rcases hp.announces_after hu with hu' | ⟨-, hof'⟩
      · exact hall u kind hu'
      · rw [hof] at hof'
        cases hof'
    | some kind =>
      change kind.isSome = began
      by_contra hne
      have hself : x.announces (c.thread t).posts = some kind := by
        rw [hp.before]
        exact announces_cons_some hof
      obtain ⟨v, kind', hv, hbegan, -⟩ := hdecided.followed t kind hself hne
      rcases hp.announces_after hv with hv' | ⟨-, hof'⟩
      · exact hall v kind' hv' hbegan
      · rw [hof] at hof'
        cases hof'
        exact hne hbegan

theorem Tracks.post (h : x.Tracks c) (hp : Posts c t event posts c')
    (horder : x.InOrder c t) : x.Tracks c' := by
  have hself : ∀ {kind}, x.of event = some kind → x.announces (c.thread t).posts = some kind := by
    intro kind hof
    rw [hp.before]
    exact announces_cons_some hof
  constructor
  case few =>
    intro u
    by_cases hu : u = t
    · rw [hu, hp.posts]
      have hfew := h.few t
      rw [hp.before] at hfew
      exact few_tail hfew
    · rw [hp.others u hu]
      exact h.few u
  case earlier =>
    intro u hposts
    rw [hp.number_eq, hp.sections]
    apply h.earlier
    by_cases hu : u = t
    · rw [hu, hp.before]
      exact List.cons_ne_nil _ _
    · rwa [hp.others u hu] at hposts
  case decided =>
    obtain ⟨began, hdecided, hbegan⟩ := h.decided
    refine ⟨began, hdecided.post h hp horder, ?_⟩
    rw [hp.state]
    simpa only [hp.rest_eq] using hbegan
  case current =>
    intro u generation hu
    rw [hp.state]
    exact h.current u generation (hp.announces_before h hu)
  case owner =>
    intro u v generation pending phase huv hu hv
    rw [hp.rest_eq] at hv
    exact h.owner u v generation pending phase huv (hp.announces_before h hu) hv
  case returning =>
    intro u generation hu
    rw [hp.rest_eq] at hu
    rw [hp.state]
    exact h.returning u generation hu
  case returned =>
    intro generation hmem
    rw [hp.history] at hmem
    rw [hp.state]
    rcases List.mem_cons.mp hmem with heq | hmem
    · cases heq
    · exact h.returned generation hmem
  case waits =>
    intro u v generation hu hv
    have hbefore := hp.announces_before h hu
    rw [hp.rest_eq] at hv
    obtain ⟨hend, hlt⟩ := h.waits u v generation hbefore hv
    rw [hp.number_eq, hp.number_eq]
    rcases hp.announces_after hend with hend' | ⟨rfl, hof⟩
    · exact ⟨hend', hlt⟩
    · -- the end would overtake the beginning
      have hovertaken := horder event posts none hp.before hof u _ hbefore (by simp)
      omega
  case unreturned =>
    intro u generation hu hmem
    rw [hp.history] at hmem
    rcases List.mem_cons.mp hmem with heq | hmem
    · cases heq
    · exact h.unreturned u generation (hp.announces_before h hu) hmem
  case prompt =>
    rw [hp.history]
    exact ⟨fun generation hof => h.unreturned t generation (hself hof), h.prompt⟩

end Posts

section Returns

variable {x} {c c' : System} {t generation : ℕ}

/-- A call that put an end to all attempts returns. -/
structure Returns (c : System) (t generation : ℕ) (c' : System) : Prop where
  empty : (c.thread t).posts = []
  before : (c.thread t).rest = .returning generation
  state : c'.shared.state = c.shared.state
  sections : c'.shared.sections = c.shared.sections
  history : c'.shared.history = .returned generation :: c.shared.history
  self : c'.thread t = .idle
  others : ∀ u, u ≠ t → c'.thread u = c.thread u

theorem Returns.announces_eq (hr : Returns c t generation c') (u : ℕ) :
    x.announces (c'.thread u).posts = x.announces (c.thread u).posts := by
  by_cases hu : u = t
  · rw [hu, hr.self, hr.empty]
    rfl
  · rw [hr.others u hu]

theorem Returns.ne_of_announces (hr : Returns c t generation c') {u : ℕ} {kind : Option ℕ}
    (hu : x.announces (c.thread u).posts = some kind) : u ≠ t := by
  rintro rfl
  rw [hr.empty] at hu
  cases hu

theorem Decided.ret {began : Bool} (hr : Returns c t generation c')
    (hdecided : x.Decided c began) : x.Decided c' began := by
  constructor
  · intro u kind hu hkind
    rw [hr.announces_eq] at hu
    obtain ⟨v, kind', hv, hbegan, hlt⟩ := hdecided.followed u kind hu hkind
    refine ⟨v, kind', (hr.announces_eq v).trans hv, hbegan, ?_⟩
    rwa [hr.others u (hr.ne_of_announces hu), hr.others v (hr.ne_of_announces hv)]
  · intro hall
    rw [hr.history]
    exact hdecided.posted fun u kind hu => hall u kind ((hr.announces_eq u).trans hu)

theorem Tracks.ret (h : x.Tracks c) (hr : Returns c t generation c') : x.Tracks c' := by
  have hrest : ∀ {u}, (c'.thread u).rest = if u = t then .done else (c.thread u).rest := by
    intro u
    by_cases hu : u = t
    · rw [if_pos hu, hu, hr.self]
      rfl
    · rw [if_neg hu, hr.others u hu]
  constructor
  case few =>
    intro u
    by_cases hu : u = t
    · rw [hu, hr.self]
      exact Nat.zero_le 1
    · rw [hr.others u hu]
      exact h.few u
  case earlier =>
    intro u hposts
    rw [hr.sections]
    by_cases hu : u = t
    · rw [hu, hr.self] at hposts
      exact absurd rfl hposts
    · rw [hr.others u hu] at hposts ⊢
      exact h.earlier u hposts
  case decided =>
    obtain ⟨began, hdecided, hbegan⟩ := h.decided
    refine ⟨began, hdecided.ret hr, ?_⟩
    rw [hr.state]
    rcases hbegan with hbegan | ⟨htrue, hheld, hpos, u, pending, phase, hu, hpending, howes⟩
    · exact .inl hbegan
    · refine .inr ⟨htrue, hheld, hpos, u, pending, phase, ?_, hpending, howes⟩
      have hut : u ≠ t := by
        rintro rfl
        rw [hr.before] at hu
        cases hu
      rwa [hr.others u hut]
  case current =>
    intro u generation' hu
    rw [hr.announces_eq] at hu
    rw [hr.state]
    exact h.current u generation' hu
  case owner =>
    intro u v generation' pending phase huv hu hv
    rw [hr.announces_eq] at hu
    rw [hrest] at hv
    split_ifs at hv
    exact h.owner u v generation' pending phase huv hu hv
  case returning =>
    intro u generation' hu
    rw [hrest] at hu
    rw [hr.state]
    split_ifs at hu
    exact h.returning u generation' hu
  case returned =>
    intro generation' hmem
    rw [hr.history] at hmem
    rw [hr.state]
    rcases List.mem_cons.mp hmem with heq | hmem
    · cases heq
      exact h.returning t generation hr.before
    · exact h.returned generation' hmem
  case waits =>
    intro u v generation' hu hv
    rw [hr.announces_eq] at hu ⊢
    rw [hrest] at hv
    split_ifs at hv with hvt
    rw [hr.others u (hr.ne_of_announces hu), hr.others v hvt]
    exact h.waits u v generation' hu hv
  case unreturned =>
    intro u generation' hu hmem
    rw [hr.announces_eq] at hu
    rw [hr.history] at hmem
    rcases List.mem_cons.mp hmem with heq | hmem
    · cases heq
      have hend := (h.waits u t generation' hu hr.before).1
      rw [hr.empty] at hend
      cases hend
    · exact h.unreturned u generation' hu hmem
  case prompt =>
    rw [hr.history]
    exact h.prompt

end Returns

end Stream

end RooTesting.Wifi
