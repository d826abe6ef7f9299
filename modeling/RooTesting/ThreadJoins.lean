import RooTesting.Lifecycles
import RooTesting.Transition
import Mathlib.Logic.Equiv.Basic
import Mathlib.Tactic.Cases

/-! # Threads and their joins

A thread object owns a record that the task of the thread uses as well. The task calls its function
and gives a barrier. Whoever joins the thread waits for the barrier, and then deletes the task and
the record. Threads can be moved meanwhile, and any task starts and joins others. -/
namespace RooTesting.ThreadJoins
open Transition Lifecycles

/-- A task of its own, or the task of a thread, whose tag is its record. -/
inductive Task where
  | native (n : ℕ)
  | thread (record : ℕ)
  deriving DecidableEq

/-- Where the task of a record is in `run_thread`. -/
inductive Stage where
  | unborn | started | running | returned | given | deleted
  deriving DecidableEq

/-- All attributes are joinable, for nothing sets the flag. -/
structure ThreadState where
  stage : Stage
  joinMutexTaken : Bool
  joinBarrier : Bool
  deriving DecidableEq

/-- Where a task is in `join`: it has read `id_`, it has the mutex, or it has the barrier. -/
inductive Phase where
  | entered | waiting | woken
  deriving DecidableEq

structure Join where
  object : ℕ
  record : ℕ
  phase : Phase
  deriving DecidableEq

/-- What happens to a record. A `stale` access comes after its deletion. -/
inductive Mark where
  | start | call | return | give | delete | stale
  deriving DecidableEq

structure State where
  records : ℕ → ThreadState
  fresh : ℕ
  objects : ℕ → Option ℕ
  join : Task → Option Join
  log : List (Entry ℕ Mark)

def start : State where
  records := fun _ => ⟨.unborn, false, false⟩
  fresh := 0
  objects := fun _ => none
  join := fun _ => none
  log := []

namespace State

variable (s : State)

/-- What a record becomes, and the mark of it. -/
def become (i : ℕ) (r : ThreadState) (m : Mark) : State :=
  { s with
    records := Function.update s.records i r
    log := ⟨i, m⟩ :: s.log }

/-- `thread::start` for a new object. The scheduler is suspended meanwhile. -/
def startThread (object : ℕ) : State :=
  { s.become s.fresh ⟨.started, false, false⟩ .start with
    fresh := s.fresh + 1
    objects := Function.update s.objects object (some s.fresh) }

def swap (x y : ℕ) : State :=
  { s with objects := Function.update (Function.update s.objects x (s.objects y)) y (s.objects x) }

/-- One section of `run_thread`. -/
def advance (i : ℕ) (m : Mark) (before after : Stage) (barrier : Bool) : Option State :=
  let r := s.records i
  if r.stage = before then
    some (s.become i
      { r with
        stage := after
        joinBarrier := r.joinBarrier || barrier } m)
  else none

/-- The task goes on in `join`, and the record is left as `r`. -/
def rephase (t : Task) (j : Join) (r : ThreadState) : State :=
  { s with
    records := Function.update s.records j.record r
    join := Function.update s.join t (some j) }

/-- The last section of `join`, where the scheduler is suspended. -/
def finish (t : Task) (j : Join) : State :=
  { s.become j.record ⟨.deleted, false, true⟩ .delete with
    objects := Function.update s.objects j.object none
    join := Function.update s.join t none }

/-- There is no step where the task waits, nor where the process ends. -/
def proceed (t : Task) (j : Join) : Option State :=
  let r := s.records j.record
  if r.stage = .deleted then
    some { s with
      join := Function.update s.join t none
      log := ⟨j.record, .stale⟩ :: s.log }
  else
    match j.phase with
    | .entered =>
      if r.joinMutexTaken || decide (t = .thread j.record) then none
      else some (s.rephase t { j with phase := .waiting } { r with joinMutexTaken := true })
    | .waiting =>
      if r.joinBarrier then
        some (s.rephase t { j with phase := .woken } { r with joinBarrier := false })
      else none
    | .woken => some (s.finish t j)

/-- A thread calls others from within its function only. -/
def active (t : Task) : Bool :=
  (s.join t).isNone &&
    match t with
    | .native _ => true
    | .thread i => (s.records i).stage = .running

end State

inductive Act where
  | start (t : Task) (object : ℕ)
  | move (t : Task) (object source : ℕ)
  | swap (t : Task) (x y : ℕ)
  | destroy (t : Task) (object : ℕ)
  | join (t : Task) (object : ℕ)
  | proceed (t : Task)
  | call (record : ℕ)
  | return (record : ℕ)
  | give (record : ℕ)
  deriving DecidableEq

def step (s : State) : Act → Option State
  | .start t object =>
    if s.active t ∧ s.objects object = none then some (s.startThread object) else none
  | .move t object source =>
    if s.active t ∧ s.objects object = none then some (s.swap object source) else none
  | .swap t x y => if s.active t then some (s.swap x y) else none
  | .destroy t object => if s.active t ∧ s.objects object = none then some s else none
  | .join t object =>
    if s.active t then
      (s.objects object).map fun i => s.rephase t ⟨object, i, .entered⟩ (s.records i)
    else none
  | .proceed t => (s.join t).bind (s.proceed t)
  | .call i => s.advance i .call .started .running false
  | .return i =>
    if s.join (.thread i) = none then s.advance i .return .running .returned false else none
  | .give i => s.advance i .give .returned .given true

/-- The objects whose thread is joined or goes elsewhere. -/
def Act.uses : Act → List ℕ
  | .join _ object => [object]
  | .move _ _ source => [source]
  | .swap _ x y => [x, y]
  | .start _ _ | .destroy _ _ | .proceed _ | .call _ | .return _ | .give _ => []

/-- The object is being joined. -/
def State.Joined (s : State) (object : ℕ) : Prop :=
  ∃ t j, s.join t = some j ∧ j.object = object

/-- An object that is being joined is neither moved nor joined again. -/
def Exclusive (s : State) (a : Act) : Prop :=
  ∀ object ∈ a.uses, ¬ s.Joined object

/-- The marks on a record, latest first. -/
def Stage.marks : Stage → List Mark
  | .unborn => []
  | .started => [.start]
  | .running => [.call, .start]
  | .returned => [.return, .call, .start]
  | .given => [.give, .return, .call, .start]
  | .deleted => [.delete, .give, .return, .call, .start]

def Stage.Alive (stage : Stage) : Prop := stage ≠ .unborn ∧ stage ≠ .deleted

/-- The semaphores of a record, by where its joiner is. -/
def ThreadState.Fits (r : ThreadState) : Option Phase → Prop
  | none | some .entered =>
    r.joinMutexTaken = false ∧ (r.joinBarrier = true ↔ r.stage = .given)
  | some .waiting => r.joinMutexTaken = true ∧ (r.joinBarrier = true ↔ r.stage = .given)
  | some .woken => r.joinMutexTaken = true ∧ r.joinBarrier = false ∧ r.stage = .given

structure Inv (s : State) : Prop where
  unborn : ∀ i, s.fresh ≤ i → (s.records i).stage = .unborn
  alive : ∀ o i, s.objects o = some i → (s.records i).stage.Alive
  held : ∀ i, (s.records i).stage.Alive → ∃ o, s.objects o = some i
  unique : ∀ o p i, s.objects o = some i → s.objects p = some i → o = p
  joined : ∀ t j, s.join t = some j → s.objects j.object = some j.record
  fits : ∀ t j, s.join t = some j → (s.records j.record).Fits (some j.phase)
  idle : ∀ i, (s.records i).stage.Alive → (∀ t j, s.join t = some j → j.record ≠ i) →
    (s.records i).Fits none
  alone : ∀ t t' j j', s.join t = some j → s.join t' = some j' → j.record = j'.record → t = t'
  own : ∀ i j, s.join (.thread i) = some j → (s.records i).stage = .running
  lives : ∀ i, marksOf i s.log = (s.records i).stage.marks

theorem start_inv : Inv start where
  unborn := fun _ _ => rfl
  alive := fun _ _ h => nomatch h
  held := fun _ h => absurd rfl h.1
  unique := fun _ _ _ h => nomatch h
  joined := fun _ _ h => nomatch h
  fits := fun _ _ h => nomatch h
  idle := fun _ h => absurd rfl h.1
  alone := fun _ _ _ _ h => nomatch h
  own := fun _ _ h => nomatch h
  lives := fun _ => rfl

variable {s s' : State} {i x y : ℕ} {m : Mark} {t : Task} {j : Join}

theorem Inv.not_joined (h : Inv s) (hnone : s.objects x = none) : ¬ s.Joined x := by
  rintro ⟨t, j, hjoin, rfl⟩
  rw [h.joined t j hjoin] at hnone
  exact nomatch hnone

theorem objects_swap : (s.swap x y).objects = s.objects ∘ Equiv.swap x y := by
  funext z
  simp only [State.swap, Function.comp_apply]
  by_cases hy : z = y
  · rw [hy, Function.update_self, Equiv.swap_apply_right]
  · rw [Function.update_of_ne hy]
    by_cases hx : z = x
    · rw [hx, Function.update_self, Equiv.swap_apply_left]
    · rw [Function.update_of_ne hx, Equiv.swap_apply_of_ne_of_ne hx hy]

theorem Inv.swap (h : Inv s) (hx : ¬ s.Joined x) (hy : ¬ s.Joined y) : Inv (s.swap x y) where
  unborn := h.unborn
  alive := by
    intro o i ho
    rw [objects_swap] at ho
    exact h.alive _ i ho
  held := by
    intro i halive
    obtain ⟨o, ho⟩ := h.held i halive
    refine ⟨Equiv.swap x y o, ?_⟩
    rw [objects_swap, Function.comp_apply, Equiv.swap_apply_self]
    exact ho
  unique := by
    intro o p i ho hp
    rw [objects_swap] at ho hp
    exact (Equiv.swap x y).injective (h.unique _ _ i ho hp)
  joined := by
    intro t j hjoin
    have hne : ∀ z, ¬ s.Joined z → j.object ≠ z := fun z hz heq => hz ⟨t, j, hjoin, heq⟩
    rw [objects_swap, Function.comp_apply, Equiv.swap_apply_of_ne_of_ne (hne x hx) (hne y hy)]
    exact h.joined t j hjoin
  fits := h.fits
  idle := h.idle
  alone := h.alone
  own := h.own
  lives := h.lives

theorem lives_become (hlives : ∀ i, marksOf i s.log = (s.records i).stage.marks) {r : ThreadState}
    (hmarks : r.stage.marks = m :: (s.records i).stage.marks) (k : ℕ) :
    marksOf k (s.become i r m).log = ((s.become i r m).records k).stage.marks := by
  rw [State.become]
  dsimp only
  by_cases hk : i = k
  · rw [← hk, marksOf_cons_self, hlives i, Function.update_self, hmarks]
  · rw [marksOf_cons_of_ne hk, hlives k, Function.update_of_ne (Ne.symm hk)]

theorem Inv.startThread (h : Inv s) (hnone : s.objects x = none) : Inv (s.startThread x) := by
  have hunborn := h.unborn s.fresh (Nat.le_refl _)
  have hnot : ∀ o, s.objects o ≠ some s.fresh := by
    intro o ho
    exact (h.alive o _ ho).1 hunborn
  have hrecord : ∀ t j, s.join t = some j → j.record ≠ s.fresh := by
    intro t j hjoin heq
    exact hnot _ (heq ▸ h.joined t j hjoin)
  constructor
  · intro k hk
    have hne : k ≠ s.fresh := by
      rintro rfl
      exact absurd hk (by simp [State.startThread])
    simp only [State.startThread, State.become, Function.update_of_ne hne]
    exact h.unborn k (Nat.le_trans (Nat.le_succ _) hk)
  · intro o k ho
    simp only [State.startThread, State.become] at ho ⊢
    by_cases hox : o = x
    · rw [hox, Function.update_self] at ho
      rw [← Option.some.inj ho, Function.update_self]
      exact ⟨nofun, nofun⟩
    · rw [Function.update_of_ne hox] at ho
      have hk : k ≠ s.fresh := by
        rintro rfl
        exact hnot o ho
      rw [Function.update_of_ne hk]
      exact h.alive o k ho
  · intro k halive
    simp only [State.startThread, State.become] at halive ⊢
    by_cases hk : k = s.fresh
    · exact ⟨x, by rw [Function.update_self, hk]⟩
    · rw [Function.update_of_ne hk] at halive
      obtain ⟨o, ho⟩ := h.held k halive
      refine ⟨o, ?_⟩
      rw [Function.update_of_ne, ho]
      rintro rfl
      rw [hnone] at ho
      exact nomatch ho
  · intro o p k ho hp
    simp only [State.startThread, State.become] at ho hp
    by_cases hk : k = s.fresh
    · have hat : ∀ z, Function.update s.objects x (some s.fresh) z = some k → z = x := by
        intro z hz
        by_contra hne
        rw [Function.update_of_ne hne, hk] at hz
        exact hnot z hz
      rw [hat o ho, hat p hp]
    · have hat : ∀ z, Function.update s.objects x (some s.fresh) z = some k →
          s.objects z = some k := by
        intro z hz
        by_cases hzx : z = x
        · rw [hzx, Function.update_self] at hz
          exact absurd (Option.some.inj hz).symm hk
        · rwa [Function.update_of_ne hzx] at hz
      exact h.unique o p k (hat o ho) (hat p hp)
  · intro t j hjoin
    have hold := h.joined t j hjoin
    simp only [State.startThread, State.become]
    rw [Function.update_of_ne, hold]
    rintro rfl
    rw [hnone] at hold
    exact nomatch hold
  · intro t j hjoin
    simp only [State.startThread, State.become]
    rw [Function.update_of_ne (hrecord t j hjoin)]
    exact h.fits t j hjoin
  · intro k halive hidle
    simp only [State.startThread, State.become] at halive ⊢
    by_cases hk : k = s.fresh
    · rw [hk, Function.update_self]
      exact ⟨rfl, by decide⟩
    · rw [Function.update_of_ne hk] at halive ⊢
      exact h.idle k halive hidle
  · exact h.alone
  · intro k j hjoin
    have hold := h.own k j hjoin
    simp only [State.startThread, State.become]
    rw [Function.update_of_ne, hold]
    rintro rfl
    rw [hunborn] at hold
    exact nomatch hold
  · apply lives_become h.lives
    rw [hunborn]
    rfl

theorem ThreadState.Fits.advance {r : ThreadState} {p : Option Phase} {after : Stage}
    {barrier : Bool} (h : r.Fits p) (hbefore : r.stage ≠ .given)
    (hbarrier : barrier = true ↔ after = .given) :
    ({ r with
        stage := after
        joinBarrier := r.joinBarrier || barrier } : ThreadState).Fits p := by
  have hfalse : (r.joinBarrier = true ↔ r.stage = .given) → r.joinBarrier = false := by
    intro hiff
    rw [← Bool.not_eq_true, hiff]
    exact hbefore
  have hafter : r.joinBarrier = false → ((r.joinBarrier || barrier) = true ↔ after = .given) := by
    intro hr
    rw [hr, Bool.false_or]
    exact hbarrier
  rcases p with _ | p
  · exact ⟨h.1, hafter (hfalse h.2)⟩
  · cases p with
    | entered => exact ⟨h.1, hafter (hfalse h.2)⟩
    | waiting => exact ⟨h.1, hafter (hfalse h.2)⟩
    | woken => exact absurd h.2.2 hbefore

theorem advance_spec {before after : Stage} {barrier : Bool}
    (hstep : s.advance i m before after barrier = some s') (hne : before ≠ .given)
    (hbarrier : barrier = true ↔ after = .given) :
    (s.records i).stage = before ∧ ∃ r : ThreadState, r.stage = after ∧
      (∀ p, (s.records i).Fits p → r.Fits p) ∧ s' = s.become i r m := by
  rw [State.advance] at hstep
  split_ifs at hstep with hstage
  exact ⟨hstage, _, rfl, fun _ h => h.advance (hstage ▸ hne) hbarrier,
    (Option.some.inj hstep).symm⟩

/-- The task of a thread goes from one of its sections to the next. -/
theorem Inv.advance (h : Inv s) {before after : Stage} {barrier : Bool}
    (hstep : s.advance i m before after barrier = some s') (hbefore : before.Alive)
    (hne : before ≠ .given) (hafter : after.Alive) (hbarrier : barrier = true ↔ after = .given)
    (hown : ∀ j, s.join (.thread i) = some j → after = .running)
    (hmarks : after.marks = m :: before.marks) : Inv s' := by
  obtain ⟨hstage, r, hr, hrfits, rfl⟩ := advance_spec hstep hne hbarrier
  have hstages : ∀ k, ((s.become i r m).records k).stage.Alive ↔ (s.records k).stage.Alive := by
    intro k
    simp only [State.become]
    by_cases hk : k = i
    · rw [hk, Function.update_self, hstage, hr]
      exact iff_of_true hafter hbefore
    · rw [Function.update_of_ne hk]
  have hfits : ∀ k p, (s.records k).Fits p → ((s.become i r m).records k).Fits p := by
    intro k p hk
    simp only [State.become]
    by_cases heq : k = i
    · rw [heq] at hk
      rw [heq, Function.update_self]
      exact hrfits p hk
    · rw [Function.update_of_ne heq]
      exact hk
  constructor
  · intro k hk
    have hold := h.unborn k hk
    simp only [State.become]
    rw [Function.update_of_ne, hold]
    rintro rfl
    exact hbefore.1 (hstage.symm.trans hold)
  · exact fun o k ho => (hstages k).2 (h.alive o k ho)
  · exact fun k halive => h.held k ((hstages k).1 halive)
  · exact h.unique
  · exact h.joined
  · exact fun t j hjoin => hfits _ _ (h.fits t j hjoin)
  · exact fun k halive hidle => hfits _ _ (h.idle k ((hstages k).1 halive) hidle)
  · exact h.alone
  · intro k j hjoin
    simp only [State.become]
    by_cases hk : k = i
    · rw [hk, Function.update_self, hr]
      exact hown j (hk ▸ hjoin)
    · rw [Function.update_of_ne hk]
      exact h.own k j hjoin
  · exact lives_become h.lives (by rw [hstage, hr]; exact hmarks)

/-- A task comes to `j`, and is the only one that joins the record of `j`. -/
theorem Inv.rephase (h : Inv s) {r : ThreadState}
    (honly : ∀ t' j', s.join t' = some j' → j'.record = j.record → t' = t)
    (hsame : ∀ j', s.join t = some j' → j'.record = j.record)
    (hobject : s.objects j.object = some j.record)
    (hstage : r.stage = (s.records j.record).stage) (hfits : r.Fits (some j.phase))
    (hown : ∀ k, t = .thread k → (s.records k).stage = .running) : Inv (s.rephase t j r) := by
  have hstages : ∀ k, ((s.rephase t j r).records k).stage = (s.records k).stage := by
    intro k
    simp only [State.rephase]
    by_cases hk : k = j.record
    · rw [hk, Function.update_self, hstage]
    · rw [Function.update_of_ne hk]
  have hjoins : ∀ t' j', (s.rephase t j r).join t' = some j' →
      t' = t ∧ j' = j ∨ t' ≠ t ∧ s.join t' = some j' ∧ j'.record ≠ j.record := by
    intro t' j' hjoin
    simp only [State.rephase] at hjoin
    by_cases ht : t' = t
    · rw [ht, Function.update_self] at hjoin
      exact Or.inl ⟨ht, (Option.some.inj hjoin).symm⟩
    · rw [Function.update_of_ne ht] at hjoin
      exact Or.inr ⟨ht, hjoin, fun heq => ht (honly t' j' hjoin heq)⟩
  constructor
  · exact fun k hk => (hstages k).trans (h.unborn k hk)
  · exact fun o k ho => (hstages k).symm ▸ h.alive o k ho
  · exact fun k halive => h.held k (hstages k ▸ halive)
  · exact h.unique
  · intro t' j' hjoin
    rcases hjoins t' j' hjoin with ⟨-, rfl⟩ | ⟨-, hold, -⟩
    · exact hobject
    · exact h.joined t' j' hold
  · intro t' j' hjoin
    rcases hjoins t' j' hjoin with ⟨-, rfl⟩ | ⟨-, hold, hne⟩
    · simp only [State.rephase, Function.update_self]
      exact hfits
    · simp only [State.rephase]
      rw [Function.update_of_ne hne]
      exact h.fits t' j' hold
  · intro k halive hidle
    have hk : k ≠ j.record := by
      rintro rfl
      exact hidle t j (Function.update_self _ _ _) rfl
    have hstill : ∀ t' j', s.join t' = some j' → j'.record ≠ k := by
      intro t' j' hjoin
      by_cases ht : t' = t
      · rw [ht] at hjoin
        rw [hsame j' hjoin]
        exact hk.symm
      · exact hidle t' j' ((Function.update_of_ne ht _ _).trans hjoin)
    simp only [State.rephase] at halive ⊢
    rw [Function.update_of_ne hk] at halive ⊢
    exact h.idle k halive hstill
  · intro t₁ t₂ j₁ j₂ h₁ h₂ heq
    rcases hjoins t₁ j₁ h₁ with ⟨rfl, rfl⟩ | ⟨-, hold₁, hne₁⟩
    · rcases hjoins t₂ j₂ h₂ with ⟨rfl, -⟩ | ⟨-, -, hne₂⟩
      · rfl
      · exact absurd heq.symm hne₂
    · rcases hjoins t₂ j₂ h₂ with ⟨-, rfl⟩ | ⟨-, hold₂, -⟩
      · exact absurd heq hne₁
      · exact h.alone t₁ t₂ j₁ j₂ hold₁ hold₂ heq
  · intro k j' hjoin
    rw [hstages]
    rcases hjoins _ j' hjoin with ⟨ht, -⟩ | ⟨-, hold, -⟩
    · exact hown k ht.symm
    · exact h.own k j' hold
  · exact fun k => (h.lives k).trans (congrArg Stage.marks (hstages k).symm)

theorem Inv.finish (h : Inv s) (hjoin : s.join t = some j) (hphase : j.phase = .woken) :
    Inv (s.finish t j) := by
  have hgiven : (s.records j.record).stage = .given := by
    have hfits := h.fits t j hjoin
    rw [hphase] at hfits
    exact hfits.2.2
  have hobject := h.joined t j hjoin
  have hjoins : ∀ t' j', (s.finish t j).join t' = some j' →
      s.join t' = some j' ∧ j'.record ≠ j.record := by
    intro t' j' hjoin'
    simp only [State.finish] at hjoin'
    by_cases ht : t' = t
    · rw [ht, Function.update_self] at hjoin'
      exact nomatch hjoin'
    · rw [Function.update_of_ne ht] at hjoin'
      exact ⟨hjoin', fun heq => ht (h.alone t' t j' j hjoin' hjoin heq)⟩
  have hobjects : ∀ o k, (s.finish t j).objects o = some k →
      s.objects o = some k ∧ k ≠ j.record := by
    intro o k ho
    simp only [State.finish] at ho
    by_cases hoj : o = j.object
    · rw [hoj, Function.update_self] at ho
      exact nomatch ho
    · rw [Function.update_of_ne hoj] at ho
      refine ⟨ho, ?_⟩
      rintro rfl
      exact hoj (h.unique o _ _ ho hobject)
  have hrecords : ∀ k, k ≠ j.record → (s.finish t j).records k = s.records k :=
    fun k hk => Function.update_of_ne hk _ _
  have hdeleted : ((s.finish t j).records j.record).stage = .deleted := by
    simp only [State.finish, State.become, Function.update_self]
  constructor
  · intro k hk
    have hold := h.unborn k hk
    rw [hrecords, hold]
    rintro rfl
    rw [hgiven] at hold
    exact nomatch hold
  · intro o k ho
    obtain ⟨hold, hk⟩ := hobjects o k ho
    rw [hrecords k hk]
    exact h.alive o k hold
  · intro k halive
    have hk : k ≠ j.record := by
      rintro rfl
      exact halive.2 hdeleted
    rw [hrecords k hk] at halive
    obtain ⟨o, ho⟩ := h.held k halive
    refine ⟨o, ?_⟩
    simp only [State.finish]
    rw [Function.update_of_ne, ho]
    rintro rfl
    exact hk (Option.some.inj (ho.symm.trans hobject))
  · exact fun o p k ho hp => h.unique o p k (hobjects o k ho).1 (hobjects p k hp).1
  · intro t' j' hjoin'
    obtain ⟨hold, hne⟩ := hjoins t' j' hjoin'
    have hold' := h.joined t' j' hold
    simp only [State.finish]
    rw [Function.update_of_ne, hold']
    intro heq
    rw [heq, hobject] at hold'
    exact hne (Option.some.inj hold').symm
  · intro t' j' hjoin'
    obtain ⟨hold, hne⟩ := hjoins t' j' hjoin'
    rw [hrecords _ hne]
    exact h.fits t' j' hold
  · intro k halive hidle
    have hk : k ≠ j.record := by
      rintro rfl
      exact halive.2 hdeleted
    rw [hrecords k hk] at halive ⊢
    refine h.idle k halive fun t' j' hold => ?_
    by_cases ht : t' = t
    · rw [ht, hjoin] at hold
      rw [← Option.some.inj hold]
      exact hk.symm
    · exact hidle t' j' ((Function.update_of_ne ht _ _).trans hold)
  · exact fun t₁ t₂ j₁ j₂ h₁ h₂ => h.alone t₁ t₂ j₁ j₂ (hjoins t₁ j₁ h₁).1 (hjoins t₂ j₂ h₂).1
  · intro k j' hjoin'
    obtain ⟨hold, -⟩ := hjoins _ j' hjoin'
    have hrunning := h.own k j' hold
    rw [hrecords, hrunning]
    rintro rfl
    rw [hgiven] at hrunning
    exact nomatch hrunning
  · apply lives_become h.lives
    rw [hgiven]
    rfl

theorem Inv.not_deleted (h : Inv s) (hjoin : s.join t = some j) :
    (s.records j.record).stage ≠ .deleted :=
  (h.alive _ _ (h.joined t j hjoin)).2

theorem Inv.proceed (h : Inv s) (hjoin : s.join t = some j) (hstep : s.proceed t j = some s') :
    Inv s' := by
  have hfits := h.fits t j hjoin
  have hrephase : ∀ r phase, r.stage = (s.records j.record).stage → r.Fits (some phase) →
      Inv (s.rephase t { j with phase := phase } r) := by
    intro r phase hstage hr
    refine h.rephase (fun t' j' hj' heq => h.alone t' t j' j hj' hjoin heq) ?_
      (h.joined t j hjoin) hstage hr ?_
    · intro j' hj'
      rw [Option.some.inj (hj'.symm.trans hjoin)]
    · rintro k rfl
      exact h.own k j hjoin
  rw [State.proceed, if_neg (h.not_deleted hjoin)] at hstep
  cases hphase : j.phase with
  | entered =>
    rw [hphase] at hstep hfits
    dsimp only at hstep
    split_ifs at hstep
    obtain rfl := Option.some.inj hstep
    exact hrephase _ _ rfl ⟨rfl, hfits.2⟩
  | waiting =>
    rw [hphase] at hstep hfits
    dsimp only at hstep
    split_ifs at hstep with hbarrier
    obtain rfl := Option.some.inj hstep
    exact hrephase _ _ rfl ⟨hfits.1, rfl, hfits.2.1 hbarrier⟩
  | woken =>
    rw [hphase] at hstep
    obtain rfl := Option.some.inj hstep
    exact h.finish hjoin hphase

theorem step_inv : PreservesWhen step Exclusive Inv := by
  intro s a s' hexclusive hstep h
  cases a with
  | start t object =>
    simp only [step] at hstep
    split_ifs at hstep with hguard
    obtain rfl := Option.some.inj hstep
    exact h.startThread hguard.2
  | move t object source =>
    simp only [step] at hstep
    split_ifs at hstep with hguard
    obtain rfl := Option.some.inj hstep
    exact h.swap (h.not_joined hguard.2) (hexclusive source List.mem_cons_self)
  | swap t x y =>
    simp only [step] at hstep
    split_ifs at hstep
    obtain rfl := Option.some.inj hstep
    exact h.swap (hexclusive x List.mem_cons_self)
      (hexclusive y (List.mem_cons_of_mem _ List.mem_cons_self))
  | destroy t object =>
    simp only [step] at hstep
    split_ifs at hstep
    obtain rfl := Option.some.inj hstep
    exact h
  | join t object =>
    simp only [step] at hstep
    split_ifs at hstep with hactive
    obtain ⟨i, hi, rfl⟩ := Option.map_eq_some_iff.mp hstep
    have hnot := hexclusive object List.mem_cons_self
    simp only [State.active, Bool.and_eq_true, Option.isNone_iff_eq_none] at hactive
    have hothers : ∀ t' j', s.join t' = some j' → j'.record ≠ i := by
      intro t' j' hj' heq
      exact hnot ⟨t', j', hj', h.unique _ _ i (heq ▸ h.joined t' j' hj') hi⟩
    refine h.rephase (fun t' j' hj' heq => absurd heq (hothers t' j' hj')) ?_ hi rfl
      (h.idle i (h.alive object i hi) hothers) ?_
    · intro j' hj'
      rw [hactive.1] at hj'
      exact nomatch hj'
    · rintro k rfl
      exact of_decide_eq_true hactive.2
  | proceed t =>
    obtain ⟨j, hjoin, hproceed⟩ := Option.bind_eq_some_iff.mp hstep
    exact h.proceed hjoin hproceed
  | call i =>
    refine h.advance hstep ⟨nofun, nofun⟩ nofun ⟨nofun, nofun⟩ (by decide) (fun _ _ => rfl) rfl
  | «return» i =>
    simp only [step] at hstep
    split_ifs at hstep with hidle
    refine h.advance hstep ⟨nofun, nofun⟩ nofun ⟨nofun, nofun⟩ (by decide) ?_ rfl
    intro j hjoin
    rw [hidle] at hjoin
    exact nomatch hjoin
  | give i =>
    refine h.advance hstep ⟨nofun, nofun⟩ nofun ⟨nofun, nofun⟩ (by decide) ?_ rfl
    intro j hjoin
    have hrunning := h.own i j hjoin
    simp only [step, State.advance] at hstep
    split_ifs at hstep with hstage
    rw [hstage] at hrunning
    exact nomatch hrunning

/-- The task of a join comes to its end by steps of its own, and the record is deleted. -/
def Ends (s : State) (t : Task) (i : ℕ) : Prop :=
  ∃ n s', run step s (List.replicate n (.proceed t)) = some s' ∧ s'.join t = none ∧
    .delete ∈ marksOf i s'.log

theorem Ends.before (hstep : step s (.proceed t) = some s') (h : Ends s' t i) : Ends s t i := by
  obtain ⟨n, z, hrun, hz⟩ := h
  refine ⟨n + 1, z, ?_, hz⟩
  rw [List.replicate_succ, run_cons, hstep]
  exact hrun

theorem step_proceed (hjoin : s.join t = some j) : step s (.proceed t) = s.proceed t j := by
  rw [step, hjoin, Option.bind_some]

theorem Inv.ends_woken (h : Inv s) (hjoin : s.join t = some j) (hphase : j.phase = .woken) :
    Ends s t j.record := by
  have hstep : step s (.proceed t) = some (s.finish t j) := by
    rw [step_proceed hjoin, State.proceed, if_neg (h.not_deleted hjoin), hphase]
  refine ⟨1, s.finish t j, ?_, Function.update_self _ _ _, ?_⟩
  · rw [List.replicate_one, run_cons, hstep]
    rfl
  · simp only [State.finish, State.become, marksOf_cons_self]
    exact List.mem_cons_self

theorem Inv.ends_waiting (h : Inv s) (hjoin : s.join t = some j) (hphase : j.phase = .waiting)
    (hgiven : (s.records j.record).stage = .given) : Ends s t j.record := by
  have hfits := h.fits t j hjoin
  rw [hphase] at hfits
  have hstep : s.proceed t j = some (s.rephase t { j with phase := .woken }
      { s.records j.record with joinBarrier := false }) := by
    rw [State.proceed, if_neg (h.not_deleted hjoin), hphase]
    dsimp only
    rw [if_pos (hfits.2.2 hgiven)]
  exact Ends.before ((step_proceed hjoin).trans hstep)
    ((h.proceed hjoin hstep).ends_woken (j := { j with phase := .woken })
      (Function.update_self _ _ _) rfl)

theorem Inv.ends_entered (h : Inv s) (hjoin : s.join t = some j) (hphase : j.phase = .entered)
    (hgiven : (s.records j.record).stage = .given) : Ends s t j.record := by
  have hfits := h.fits t j hjoin
  rw [hphase] at hfits
  have hself : t ≠ .thread j.record := by
    rintro rfl
    rw [h.own _ j hjoin] at hgiven
    exact nomatch hgiven
  have hstep : s.proceed t j = some (s.rephase t { j with phase := .waiting }
      { s.records j.record with joinMutexTaken := true }) := by
    rw [State.proceed, if_neg (h.not_deleted hjoin), hphase]
    dsimp only
    rw [hfits.1, decide_eq_false hself]
    rfl
  refine Ends.before ((step_proceed hjoin).trans hstep)
    ((h.proceed hjoin hstep).ends_waiting (j := { j with phase := .waiting })
      (Function.update_self _ _ _) rfl ?_)
  simp only [State.rephase, Function.update_self]
  exact hgiven

theorem Inv.ends (h : Inv s) (hjoin : s.join t = some j)
    (hgiven : (s.records j.record).stage = .given) : Ends s t j.record := by
  cases hphase : j.phase with
  | entered => exact h.ends_entered hjoin hphase hgiven
  | waiting => exact h.ends_waiting hjoin hphase hgiven
  | woken => exact h.ends_woken hjoin hphase

theorem marks_suffix (stage : Stage) :
    stage.marks <:+ [.delete, .give, .return, .call, .start] := by
  cases stage <;> decide

theorem alive_iff (stage : Stage) :
    stage.Alive ↔ .start ∈ stage.marks ∧ .delete ∉ stage.marks := by
  unfold Stage.Alive
  cases stage <;> decide

/-- The function of each thread is called once, and the record outlives it and is deleted once, by
a join. Until then it belongs to one object; then to none. A join whose thread has given the
barrier comes to its end. -/
theorem threads_joined {acts : List Act} (hrun : run step start acts = some s)
    (hmeets : Meets step Exclusive start acts) :
    (∀ i, marksOf i s.log <:+ [.delete, .give, .return, .call, .start]) ∧
      (∀ o i, s.objects o = some i →
        .start ∈ marksOf i s.log ∧ .delete ∉ marksOf i s.log) ∧
      (∀ i, .start ∈ marksOf i s.log → .delete ∉ marksOf i s.log →
        ∃! o, s.objects o = some i) ∧
      ∀ t j, s.join t = some j → .give ∈ marksOf j.record s.log → Ends s t j.record := by
  have h : Inv s := step_inv.run hmeets hrun start_inv
  refine ⟨?_, ?_, ?_, ?_⟩
  · intro i
    rw [h.lives i]
    exact marks_suffix _
  · intro o i ho
    rw [h.lives i]
    exact (alive_iff _).1 (h.alive o i ho)
  · intro i hstart hdelete
    rw [h.lives i] at hstart hdelete
    obtain ⟨o, ho⟩ := h.held i ((alive_iff _).2 ⟨hstart, hdelete⟩)
    exact ⟨o, ho, fun p hp => h.unique p o i hp ho⟩
  · intro t j hjoin hgive
    rw [h.lives] at hgive
    have halive := h.alive _ _ (h.joined t j hjoin)
    refine h.ends hjoin ?_
    revert hgive halive
    generalize (s.records j.record).stage = stage
    unfold Stage.Alive
    cases stage <;> decide

def Act.caller : Act → Option Task
  | .start t _ | .move t _ _ | .swap t _ _ | .destroy t _ | .join t _ | .proceed t => some t
  | .call _ | .return _ | .give _ => none

/-- Only known tasks join, and none of them joins what the act uses. -/
def exclusive (known : List Task) (s : State) (a : Act) : Bool :=
  a.caller.all known.contains &&
    known.all fun t => (s.join t).all fun j => !a.uses.contains j.object

theorem advance_join {before after : Stage} {barrier : Bool}
    (hstep : s.advance i m before after barrier = some s') : s'.join = s.join := by
  rw [State.advance] at hstep
  split_ifs at hstep
  obtain rfl := Option.some.inj hstep
  rfl

theorem proceed_join {u : Task} (hstep : s.proceed t j = some s') (hne : u ≠ t) :
    s'.join u = s.join u := by
  rw [State.proceed] at hstep
  by_cases hdeleted : (s.records j.record).stage = .deleted
  · rw [if_pos hdeleted] at hstep
    obtain rfl := Option.some.inj hstep
    exact Function.update_of_ne hne _ _
  rw [if_neg hdeleted] at hstep
  cases hphase : j.phase with
  | entered =>
    rw [hphase] at hstep
    dsimp only at hstep
    split_ifs at hstep
    obtain rfl := Option.some.inj hstep
    exact Function.update_of_ne hne _ _
  | waiting =>
    rw [hphase] at hstep
    dsimp only at hstep
    split_ifs at hstep
    obtain rfl := Option.some.inj hstep
    exact Function.update_of_ne hne _ _
  | woken =>
    rw [hphase] at hstep
    obtain rfl := Option.some.inj hstep
    exact Function.update_of_ne hne _ _

/-- An act is seen in the joins of its caller only. -/
theorem step_join {a : Act} {u : Task} (hstep : step s a = some s') (hne : a.caller ≠ some u) :
    s'.join u = s.join u := by
  cases a with
  | start t object =>
    simp only [step] at hstep
    split_ifs at hstep
    obtain rfl := Option.some.inj hstep
    rfl
  | move t object source =>
    simp only [step] at hstep
    split_ifs at hstep
    obtain rfl := Option.some.inj hstep
    rfl
  | swap t x y =>
    simp only [step] at hstep
    split_ifs at hstep
    obtain rfl := Option.some.inj hstep
    rfl
  | destroy t object =>
    simp only [step] at hstep
    split_ifs at hstep
    obtain rfl := Option.some.inj hstep
    rfl
  | join t object =>
    simp only [step] at hstep
    split_ifs at hstep
    obtain ⟨i, -, rfl⟩ := Option.map_eq_some_iff.mp hstep
    exact Function.update_of_ne (fun heq => hne (congrArg some heq.symm)) _ _
  | proceed t =>
    obtain ⟨j, -, hproceed⟩ := Option.bind_eq_some_iff.mp hstep
    exact proceed_join hproceed fun heq => hne (congrArg some heq.symm)
  | call i => rw [advance_join hstep]
  | «return» i =>
    simp only [step] at hstep
    split_ifs at hstep
    rw [advance_join hstep]
  | give i => rw [advance_join hstep]

theorem exclusive_meets (known : List Task) {acts : List Act}
    (hcheck : check step (exclusive known) start acts = true) :
    Meets step Exclusive start acts := by
  refine Meets.of_check (I := fun s => ∀ t, known.contains t = false → s.join t = none) ?_ ?_
    (fun _ _ => rfl) hcheck
  · intro s a s' hI htest hstep t ht
    rw [exclusive, Bool.and_eq_true, Option.all_eq_true] at htest
    rw [step_join hstep, hI t ht]
    intro hcaller
    have hknown := htest.1 t hcaller
    rw [ht] at hknown
    exact nomatch hknown
  · rintro s a hI htest object huses ⟨t, j, hjoin, rfl⟩
    rw [exclusive, Bool.and_eq_true, List.all_eq_true] at htest
    cases ht : known.contains t with
    | false =>
      rw [hI t ht] at hjoin
      exact nomatch hjoin
    | true =>
      have hall := htest.2 t (List.contains_iff_mem.mp ht)
      rw [hjoin, Option.all_some, List.contains_iff_mem.mpr huses] at hall
      exact nomatch hall

/-- A thread starts another one and joins it, while it is being joined itself. -/
def nested : List Act :=
  [.start (.native 0) 0, .call 0, .join (.native 0) 0, .start (.thread 0) 1, .proceed (.native 0),
    .move (.thread 0) 2 1, .call 1, .join (.thread 0) 2, .return 1, .proceed (.thread 0), .give 1,
    .proceed (.thread 0), .proceed (.thread 0), .return 0, .give 0]

theorem threads_joined_nested :
    ∃ s, run step start nested = some s ∧ .delete ∈ marksOf 1 s.log ∧
      Ends s (.native 0) 0 := by
  have hrun : run step start nested = some ((run step start nested).get (by decide)) :=
    (Option.some_get _).symm
  obtain ⟨-, -, -, hends⟩ := threads_joined hrun
    (exclusive_meets [.native 0, .thread 0] (by decide))
  exact ⟨_, hrun, by decide, hends (.native 0) ⟨0, 0, .waiting⟩ (by decide) (by decide)⟩

/-- Two joins of one thread overlap, and the second one reads the record when it is gone. -/
def overlapping : List Act :=
  [.start (.native 0) 0, .call 0, .return 0, .give 0, .join (.native 0) 0, .join (.native 1) 0,
    .proceed (.native 0), .proceed (.native 0), .proceed (.native 0), .proceed (.native 1)]

example : (run step start overlapping).map (fun s => marksOf 0 s.log) =
    some [.stale, .delete, .give, .return, .call, .start] := by decide

end RooTesting.ThreadJoins
