import RooTesting.RecursiveMutex
import RooTesting.Threads
import Mathlib.Data.Fintype.Basic

/-! # The SPI controllers of the Pico, shared between tasks

An operation holds the recursive mutex of its controller while it runs. A transaction keeps the
mutex from `beginTransaction` to `endTransaction` by a reservation, which one task has at a time.
A call is the list of the steps it has still to take. -/
namespace RooTesting.SpiReservations
open Transition Threads

structure Settings where
  clockFreq : ℕ
  bitOrder : ℕ
  dataMode : ℕ
  deriving DecidableEq

/-- `SPISettings()`. -/
def defaultSettings : Settings := ⟨4000000, 1, 0⟩

inductive Op
  | lock
  | unlock
  | reserve
  | release
  | beginBody (hwCs : Bool)
  | started
  | endBody
  | stopped
  | configure (settings : Settings)
  | initted
  | transferBody (count : ℕ)
  deriving DecidableEq

inductive Call
  | begin (hwCs : Bool)
  | finish
  | beginTransaction (settings : Settings)
  | endTransaction
  | transfer (count : ℕ)
  | setBitOrder (order : ℕ)
  | setDataMode (mode : ℕ)
  | setClockDivider (divider : ℕ)
  deriving DecidableEq

structure Controller where
  mutex : RecursiveMutex ℕ := {}
  reservationOwner : Option ℕ := none
  running : Bool := false
  initted : Bool := false
  spis : Settings := defaultSettings

/-- A task, with the rest of its call, and whether it has begun a transaction and not ended it. -/
structure Local where
  task : ℕ
  ops : List Op := []
  inTransaction : Bool := false

/-- A `ControllerLock` around one operation of the SDK. -/
def sdkCall : List Op := [.lock, .unlock]

def beginTransaction (settings : Settings) : List Op := [.lock, .reserve, .configure settings]

/-- One SDK transfer for each 256 bytes. -/
def chunks : ℕ → List Op
  | 0 => []
  | n + 1 => sdkCall ++ chunks n

/-- The steps of a call. -/
def start (fCpu : ℕ) (s : Controller) : Call → List Op
  | .begin hwCs => [.lock, .beginBody hwCs, .unlock]
  | .finish => [.lock, .endBody, .unlock]
  | .beginTransaction settings => beginTransaction settings
  | .endTransaction => [.release]
  | .transfer count => [.lock, .transferBody count, .unlock]
  | .setBitOrder order => beginTransaction { s.spis with bitOrder := order }
  | .setDataMode mode => beginTransaction { s.spis with dataMode := mode }
  | .setClockDivider divider => beginTransaction { s.spis with clockFreq := fCpu / divider }

/-- Whether the task is in a transaction once it has made the call. -/
def within (inTransaction : Bool) : Call → Bool
  | .beginTransaction _ => true
  | .endTransaction => false
  | _ => inTransaction

/-- One step of a call, and the steps that it puts before the others. A failed check or assertion
ends the process. -/
def perform (s : Controller) (task : ℕ) : Op → Option (Controller × List Op)
  | .lock => (s.mutex.take task).map fun m => ({ s with mutex := m }, [])
  | .unlock => (s.mutex.give task).map fun m => ({ s with mutex := m }, [])
  | .reserve =>
    if s.reservationOwner = some task then some (s, [.unlock])
    else some ({ s with reservationOwner := some task }, [])
  | .release =>
    match s.reservationOwner with
    | none => some (s, [])
    | some owner =>
      if owner = task then some ({ s with reservationOwner := none }, [.unlock]) else none
  | .beginBody hwCs =>
    if hwCs then none else some (s, if s.running then [] else sdkCall ++ [.started])
  | .started => some ({ s with running := true }, [])
  | .endBody => some (s, if s.running then sdkCall ++ [.stopped, .release] else [])
  | .stopped => some ({ s with running := false, initted := false }, [])
  | .configure settings =>
    if s.running ∧ settings.bitOrder ≤ 1 ∧ settings.dataMode ≤ 3 then
      some ({ s with spis := settings }, sdkCall ++ sdkCall ++ [.initted])
    else none
  | .initted => some ({ s with initted := true }, [])
  | .transferBody count =>
    if s.running then
      let sent := chunks ((count + 255) / 256)
      some (s, if s.initted then sent else beginTransaction defaultSettings ++ sent ++ [.release])
    else none

inductive Event
  | call (c : Call)
  | resume
  deriving DecidableEq

/-- One atomic step of one task. -/
def step (fCpu : ℕ) : Program Controller Local Event
  | .call c, s, ⟨task, [], inTransaction⟩ =>
    if c = .setClockDivider 0 then none
    else some (s, ⟨task, start fCpu s c, within inTransaction c⟩)
  | .call _, _, ⟨_, _ :: _, _⟩ => none
  | .resume, s, ⟨task, op :: ops, inTransaction⟩ =>
    (perform s task op).map fun r => (r.1, ⟨task, r.2 ++ ops, inTransaction⟩)
  | .resume, _, ⟨_, [], _⟩ => none

abbrev System := Config Controller Local

def idle : System := ⟨{}, fun t => { task := t }⟩

/-- The two controllers. A task makes one call at a time. -/
abbrev Board := Fin 2 → System

def boardStep (fCpu : ℕ) (b : Board) (e : Fin 2 × ℕ × Event) : Option Board :=
  if ∀ i, i ≠ e.1 → ((b i).thread e.2.1).ops = [] then
    (fire (step fCpu) (b e.1) e.2).map fun c => Function.update b e.1 c
  else none

def board : Board := fun _ => idle

/-- The locks that the rest of a call will give back, less those it has still to take. -/
def locks : List Op → ℕ
  | [] => 0
  | .lock :: ops => locks ops - 1
  | .unlock :: ops => locks ops + 1
  | .reserve :: ops => locks ops + 1
  | _ :: ops => locks ops

def reserved (s : Controller) (t : ℕ) : ℕ := if s.reservationOwner = some t then 1 else 0

/-- What the mutex of a controller stands for. -/
structure Guarded (c : System) : Prop where
  count : ∀ t, c.shared.mutex.holder = some t →
    c.shared.mutex.count = locks (c.thread t).ops + reserved c.shared t
  owner : ∀ t, c.shared.reservationOwner = some t → c.shared.mutex.holder = some t
  alone : ∀ t u, 0 < locks (c.thread t).ops + reserved c.shared t → u ≠ t →
    locks (c.thread u).ops = 0

/-- A task between two calls, and not in a transaction, holds nothing. -/
def Released (c : System) : Prop :=
  ∀ t, (c.thread t).ops = [] → (c.thread t).inTransaction = false →
    c.shared.reservationOwner ≠ some t ∧ c.shared.mutex.holder ≠ some t

def Call.sets : Call → Bool
  | .setBitOrder _ => true
  | .setDataMode _ => true
  | .setClockDivider _ => true
  | _ => false

/-- A task changes one setting only in a transaction of its own. -/
def Inside (b : Board) (e : Fin 2 × ℕ × Event) : Prop :=
  ∀ c, e.2.2 = .call c → c.sets = true → ((b e.1).thread e.2.1).inTransaction = true

/-- Each lock that a call is going to take it gives back. -/
def Balanced : List Op → Prop
  | [] => True
  | .lock :: ops => 0 < locks ops ∧ Balanced ops
  | _ :: ops => Balanced ops

@[simp] theorem locks_sdkCall (ops : List Op) : locks (sdkCall ++ ops) = locks ops := rfl

@[simp] theorem balanced_sdkCall {ops : List Op} : Balanced (sdkCall ++ ops) ↔ Balanced ops := by
  constructor
  · intro h
    exact h.2
  · intro h
    exact ⟨Nat.succ_pos _, h⟩

@[simp] theorem locks_beginTransaction (settings : Settings) (ops : List Op) :
    locks (beginTransaction settings ++ ops) = locks ops := rfl

@[simp] theorem balanced_beginTransaction {settings : Settings} {ops : List Op} :
    Balanced (beginTransaction settings ++ ops) ↔ Balanced ops := by
  constructor
  · intro h
    exact h.2
  · intro h
    exact ⟨Nat.succ_pos _, h⟩

@[simp] theorem locks_chunks (n : ℕ) (ops : List Op) : locks (chunks n ++ ops) = locks ops := by
  induction n with
  | zero => rfl
  | succ n ih => rw [chunks, List.append_assoc, locks_sdkCall, ih]

@[simp] theorem balanced_chunks {n : ℕ} {ops : List Op} :
    Balanced (chunks n ++ ops) ↔ Balanced ops := by
  induction n with
  | zero => exact Iff.rfl
  | succ n ih => rw [chunks, List.append_assoc, balanced_sdkCall, ih]

theorem start_balanced (fCpu : ℕ) (s : Controller) (c : Call) :
    locks (start fCpu s c) = 0 ∧ Balanced (start fCpu s c) := by
  cases c with
  | endTransaction => exact ⟨rfl, trivial⟩
  | _ => exact ⟨rfl, Nat.succ_pos _, trivial⟩

/-- What a step does to the needs of its task. -/
structure Performs (s s' : Controller) (t : ℕ) (ops ops' : List Op) : Prop where
  balanced : Balanced ops'
  others : ∀ u, u ≠ t → reserved s' u = reserved s u
  mutex : (s'.mutex = s.mutex ∧ locks ops' + reserved s' t = locks ops + reserved s t) ∨
    (s.mutex.take t = some s'.mutex ∧ locks ops' + reserved s' t = locks ops + reserved s t + 1) ∨
    s.mutex.give t = some s'.mutex ∧ locks ops' + reserved s' t = locks ops + reserved s t - 1

/-- A step of the rest of a call that keeps the reservation and needs as many locks as before. -/
theorem Performs.same {s s' : Controller} {t : ℕ} {ops ops' : List Op} (hb : Balanced ops')
    (hmutex : s'.mutex = s.mutex) (howner : s'.reservationOwner = s.reservationOwner)
    (hlocks : locks ops' = locks ops) : Performs s s' t ops ops' := by
  have hreserved : ∀ u, reserved s' u = reserved s u := by
    intro u
    rw [reserved, howner, reserved]
  exact ⟨hb, fun u _ => hreserved u, Or.inl ⟨hmutex, by rw [hlocks, hreserved]⟩⟩

theorem perform_performs {s s' : Controller} {t : ℕ} {op : Op} {ops new : List Op}
    (h : perform s t op = some (s', new)) (hb : Balanced (op :: ops))
    (howner : 0 < locks (op :: ops) → ∀ u, s.reservationOwner = some u → u = t) :
    Performs s s' t (op :: ops) (new ++ ops) := by
  cases op with
  | lock =>
    obtain ⟨m, hm, heq⟩ := Option.map_eq_some_iff.mp h
    cases heq
    have hpos := hb.1
    refine ⟨hb.2, fun _ _ => rfl, Or.inr (Or.inl ⟨hm, ?_⟩)⟩
    change locks ops + reserved s t = locks ops - 1 + reserved s t + 1
    omega
  | unlock =>
    obtain ⟨m, hm, heq⟩ := Option.map_eq_some_iff.mp h
    cases heq
    refine ⟨hb, fun _ _ => rfl, Or.inr (Or.inr ⟨hm, ?_⟩)⟩
    change locks ops + reserved s t = locks ops + 1 + reserved s t - 1
    omega
  | reserve =>
    simp only [perform] at h
    split at h
    · cases h
      exact Performs.same hb rfl rfl rfl
    · rename_i hnot
      cases h
      have hnone : s.reservationOwner = none := by
        cases ho : s.reservationOwner with
        | none => rfl
        | some u => exact absurd (howner (Nat.succ_pos _) u ho ▸ ho) hnot
      refine ⟨hb, fun u hu => ?_, Or.inl ⟨rfl, ?_⟩⟩
      · simp [reserved, hnone, Ne.symm hu]
      · change locks ops + _ = locks ops + 1 + _
        simp [reserved, hnone]
  | release =>
    simp only [perform] at h
    split at h
    · cases h
      exact Performs.same hb rfl rfl rfl
    · rename_i owner ho
      split at h
      · rename_i hself
        subst hself
        cases h
        refine ⟨hb, fun u hu => ?_, Or.inl ⟨rfl, ?_⟩⟩
        · simp [reserved, ho, Ne.symm hu]
        · change locks ops + 1 + _ = locks ops + _
          simp [reserved, ho]
      · cases h
  | beginBody hwCs =>
    simp only [perform] at h
    split at h
    · cases h
    · cases h
      split
      · exact Performs.same hb rfl rfl rfl
      · exact Performs.same (balanced_sdkCall.mpr hb) rfl rfl rfl
  | started =>
    cases h
    exact Performs.same hb rfl rfl rfl
  | endBody =>
    cases h
    split
    · exact Performs.same (balanced_sdkCall.mpr hb) rfl rfl rfl
    · exact Performs.same hb rfl rfl rfl
  | stopped =>
    cases h
    exact Performs.same hb rfl rfl rfl
  | configure settings =>
    simp only [perform] at h
    split at h
    · cases h
      exact Performs.same (balanced_sdkCall.mpr (balanced_sdkCall.mpr hb)) rfl rfl rfl
    · cases h
  | initted =>
    cases h
    exact Performs.same hb rfl rfl rfl
  | transferBody count =>
    simp only [perform] at h
    split at h
    · cases h
      split
      · exact Performs.same (balanced_chunks.mpr hb) rfl rfl (locks_chunks _ _)
      · rw [List.append_assoc, List.append_assoc]
        refine Performs.same ?_ rfl rfl ?_
        · exact balanced_beginTransaction.mpr (balanced_chunks.mpr hb)
        · rw [locks_beginTransaction, locks_chunks]
          rfl
    · cases h

/-- How often a task has the mutex of a controller. -/
def need (c : System) (t : ℕ) : ℕ := locks (c.thread t).ops + reserved c.shared t

structure Inv (c : System) : Prop where
  accounts : c.shared.mutex.Accounts (need c)
  self : ∀ t, (c.thread t).task = t
  balanced : ∀ t, Balanced (c.thread t).ops

theorem idle_inv : Inv idle where
  accounts := RecursiveMutex.Accounts.start
  self _ := rfl
  balanced _ := trivial

theorem Inv.guarded {c : System} (h : Inv c) : Guarded c := by
  constructor
  · intro t ht
    exact (h.accounts.held t ht).1
  · intro t ht
    apply h.accounts.holder
    rw [need, reserved, if_pos ht]
    omega
  · intro t u ht hu
    by_contra hpos
    have hneed : 0 < need c u := by
      rw [need]
      omega
    exact hu (h.accounts.exclusive hneed ht)

/-- The reservation of a controller is of the task that holds its mutex. -/
theorem Inv.owner_eq {c : System} (h : Inv c) {t u : ℕ} (ht : 0 < locks (c.thread t).ops)
    (hu : c.shared.reservationOwner = some u) : u = t := by
  apply h.accounts.exclusive
  · rw [need, reserved, if_pos hu]
    omega
  · rw [need]
    omega

/-- The needs after a step are the needs before it, but for the task that took the step. -/
theorem need_update {c : System} {t : ℕ} {s' : Controller} {l' : Local}
    (hothers : ∀ u, u ≠ t → reserved s' u = reserved c.shared u) :
    need ⟨s', Function.update c.thread t l'⟩ =
      Function.update (need c) t (locks l'.ops + reserved s' t) := by
  funext u
  change locks (Function.update c.thread t l' u).ops + reserved s' u = _
  by_cases hu : u = t
  · subst hu
    rw [Function.update_self, Function.update_self]
  · rw [Function.update_of_ne hu, Function.update_of_ne hu, hothers u hu]
    rfl

theorem Inv.performs {c : System} {t : ℕ} {s' : Controller} {l' : Local} (h : Inv c)
    (hself : l'.task = t) (hp : Performs c.shared s' t (c.thread t).ops l'.ops) :
    Inv ⟨s', Function.update c.thread t l'⟩ := by
  constructor
  · rw [need_update hp.others]
    rcases hp.mutex with ⟨hmutex, hneed⟩ | ⟨hmutex, hneed⟩ | ⟨hmutex, hneed⟩
    · have hsame : locks l'.ops + reserved s' t = need c t := hneed
      dsimp only
      rw [hmutex, hsame, Function.update_eq_self]
      exact h.accounts
    · have hmore : locks l'.ops + reserved s' t = need c t + 1 := hneed
      rw [hmore]
      exact h.accounts.take hmutex
    · have hless : locks l'.ops + reserved s' t = need c t - 1 := hneed
      rw [hless]
      exact (h.accounts.give hmutex).2
  · intro u
    dsimp only
    by_cases hu : u = t
    · subst hu
      rw [Function.update_self]
      exact hself
    · rw [Function.update_of_ne hu]
      exact h.self u
  · intro u
    dsimp only
    by_cases hu : u = t
    · subst hu
      rw [Function.update_self]
      exact hp.balanced
    · rw [Function.update_of_ne hu]
      exact h.balanced u

/-- A task begins a call, or takes the next step of the one it is in. -/
theorem step_cases {fCpu : ℕ} {c c' : System} {t : ℕ} {e : Event}
    (h : fire (step fCpu) c (t, e) = some c') :
    (∃ call, e = .call call ∧ (c.thread t).ops = [] ∧
      c' = ⟨c.shared, Function.update c.thread t ⟨(c.thread t).task, start fCpu c.shared call,
        within (c.thread t).inTransaction call⟩⟩) ∨
    ∃ op ops s' new, e = .resume ∧ (c.thread t).ops = op :: ops ∧
      perform c.shared (c.thread t).task op = some (s', new) ∧
      c' = ⟨s', Function.update c.thread t ⟨(c.thread t).task, new ++ ops,
        (c.thread t).inTransaction⟩⟩ := by
  obtain ⟨s', l', hstep, rfl⟩ := fire_eq_some.mp h
  dsimp only at hstep ⊢
  generalize c.thread t = l at hstep
  obtain ⟨task, ops, inTransaction⟩ := l
  cases e with
  | call call =>
    cases ops with
    | cons op ops => cases hstep
    | nil =>
      simp only [step] at hstep
      split at hstep
      · cases hstep
      · cases hstep
        exact Or.inl ⟨call, rfl, rfl, rfl⟩
  | resume =>
    cases ops with
    | nil => cases hstep
    | cons op ops =>
      obtain ⟨⟨s₂, new⟩, hr, heq⟩ := Option.map_eq_some_iff.mp hstep
      cases heq
      exact Or.inr ⟨op, ops, s₂, new, rfl, rfl, hr, rfl⟩

theorem step_inv (fCpu : ℕ) : Preserves (fire (step fCpu)) Inv := by
  intro c e c' h hinv
  obtain ⟨t, e⟩ := e
  rcases step_cases h with ⟨call, -, hnil, rfl⟩ | ⟨op, ops, s', new, -, hops, hperform, rfl⟩
  · refine hinv.performs (hinv.self t) ?_
    obtain ⟨hlocks, hbalanced⟩ := start_balanced fCpu c.shared call
    rw [hnil]
    exact Performs.same hbalanced rfl rfl hlocks
  · refine hinv.performs (hinv.self t) ?_
    rw [hinv.self t] at hperform
    have hbalanced := hinv.balanced t
    have howner := fun hpos u hu => hinv.owner_eq (t := t) (u := u) hpos hu
    rw [hops] at hbalanced howner ⊢
    exact perform_performs hperform hbalanced howner

/-- A reservation that a call makes is released by the call or is of a transaction. -/
def Promised (inTransaction : Bool) : List Op → Prop
  | [] => True
  | .reserve :: ops => (inTransaction = true ∨ .release ∈ ops) ∧ Promised inTransaction ops
  | _ :: ops => Promised inTransaction ops

/-- Each task can tell how its reservation ends. -/
def Kept (c : System) : Prop :=
  ∀ t, Promised (c.thread t).inTransaction (c.thread t).ops ∧
    (c.shared.reservationOwner = some t →
      (c.thread t).inTransaction = true ∨ .release ∈ (c.thread t).ops)

theorem promised_chunks {inTransaction : Bool} {n : ℕ} {ops : List Op}
    (h : Promised inTransaction ops) : Promised inTransaction (chunks n ++ ops) := by
  induction n with
  | zero => exact h
  | succ n ih => exact ih

theorem start_promised {fCpu : ℕ} {s : Controller} {c : Call} {inTransaction : Bool}
    (h : c.sets = true → inTransaction = true) :
    Promised (within inTransaction c) (start fCpu s c) := by
  cases c with
  | begin hwCs => trivial
  | finish => trivial
  | beginTransaction settings => exact ⟨Or.inl rfl, trivial⟩
  | endTransaction => trivial
  | transfer count => trivial
  | setBitOrder order => exact ⟨Or.inl (h rfl), trivial⟩
  | setDataMode mode => exact ⟨Or.inl (h rfl), trivial⟩
  | setClockDivider divider => exact ⟨Or.inl (h rfl), trivial⟩

theorem perform_promised {s s' : Controller} {t : ℕ} {op : Op} {ops new : List Op}
    {inTransaction : Bool} (h : perform s t op = some (s', new))
    (hp : Promised inTransaction (op :: ops)) : Promised inTransaction (new ++ ops) := by
  cases op with
  | lock =>
    obtain ⟨m, -, heq⟩ := Option.map_eq_some_iff.mp h
    cases heq
    exact hp
  | unlock =>
    obtain ⟨m, -, heq⟩ := Option.map_eq_some_iff.mp h
    cases heq
    exact hp
  | reserve =>
    simp only [perform] at h
    split at h
    · cases h
      exact hp.2
    · cases h
      exact hp.2
  | release =>
    simp only [perform] at h
    split at h
    · cases h
      exact hp
    · split at h
      · cases h
        exact hp
      · cases h
  | beginBody hwCs =>
    simp only [perform] at h
    split at h
    · cases h
    · cases h
      split
      · exact hp
      · exact hp
  | endBody =>
    cases h
    split
    · exact hp
    · exact hp
  | configure settings =>
    simp only [perform] at h
    split at h
    · cases h
      exact hp
    · cases h
  | transferBody count =>
    simp only [perform] at h
    split at h
    · cases h
      split
      · exact promised_chunks hp
      · rw [List.append_assoc, List.append_assoc]
        refine ⟨Or.inr ?_, promised_chunks hp⟩
        simp
    · cases h
  | _ =>
    cases h
    exact hp

/-- Who has the reservation after a step. -/
theorem perform_owner {s s' : Controller} {t : ℕ} {op : Op} {new : List Op}
    (h : perform s t op = some (s', new)) :
    (op = .reserve ∧ s'.reservationOwner = some t) ∨ s'.reservationOwner = none ∨
      (s'.reservationOwner = s.reservationOwner ∧ op ≠ .release) := by
  cases op with
  | lock =>
    obtain ⟨m, -, heq⟩ := Option.map_eq_some_iff.mp h
    cases heq
    exact Or.inr (Or.inr ⟨rfl, nofun⟩)
  | unlock =>
    obtain ⟨m, -, heq⟩ := Option.map_eq_some_iff.mp h
    cases heq
    exact Or.inr (Or.inr ⟨rfl, nofun⟩)
  | reserve =>
    simp only [perform] at h
    split at h
    · rename_i hself
      cases h
      exact Or.inl ⟨rfl, hself⟩
    · cases h
      exact Or.inl ⟨rfl, rfl⟩
  | release =>
    simp only [perform] at h
    split at h
    · rename_i hnone
      cases h
      exact Or.inr (Or.inl hnone)
    · split at h
      · cases h
        exact Or.inr (Or.inl rfl)
      · cases h
  | beginBody hwCs =>
    simp only [perform] at h
    split at h
    · cases h
    · cases h
      exact Or.inr (Or.inr ⟨rfl, nofun⟩)
  | configure settings =>
    simp only [perform] at h
    split at h
    · cases h
      exact Or.inr (Or.inr ⟨rfl, nofun⟩)
    · cases h
  | transferBody count =>
    simp only [perform] at h
    split at h
    · cases h
      exact Or.inr (Or.inr ⟨rfl, nofun⟩)
    · cases h
  | _ =>
    cases h
    exact Or.inr (Or.inr ⟨rfl, nofun⟩)

/-- A task begins a call that changes one setting only in a transaction of its own. -/
def InsideSystem (c : System) (e : ℕ × Event) : Prop :=
  ∀ call, e.2 = .call call → call.sets = true → (c.thread e.1).inTransaction = true

theorem step_kept (fCpu : ℕ) :
    PreservesWhen (fire (step fCpu)) InsideSystem (fun c => Inv c ∧ Kept c) := by
  intro c e c' hinside h hboth
  obtain ⟨hinv, hkept⟩ := hboth
  refine ⟨step_inv fCpu h hinv, ?_⟩
  obtain ⟨t, e⟩ := e
  rcases step_cases h with ⟨call, rfl, hnil, rfl⟩ | ⟨op, ops, s', new, -, hops, hperform, rfl⟩
  · intro u
    dsimp only
    by_cases hu : u = t
    · subst hu
      rw [Function.update_self]
      refine ⟨start_promised (hinside call rfl), fun howner => ?_⟩
      have hin := (hkept u).2 howner
      rw [hnil] at hin
      have hin : (c.thread u).inTransaction = true := hin.resolve_right List.not_mem_nil
      cases call with
      | beginTransaction settings => exact Or.inl rfl
      | endTransaction => exact Or.inr List.mem_cons_self
      | _ => exact Or.inl hin
    · rw [Function.update_of_ne hu]
      exact hkept u
  · rw [hinv.self t] at hperform
    have howner := perform_owner hperform
    intro u
    dsimp only
    by_cases hu : u = t
    · subst hu
      rw [Function.update_self]
      obtain ⟨hpromised, hold⟩ := hkept u
      rw [hops] at hpromised hold
      refine ⟨perform_promised hperform hpromised, fun hown => ?_⟩
      rcases howner with ⟨rfl, -⟩ | hnone | ⟨hsame, hne⟩
      · exact hpromised.1.imp id fun hmem => List.mem_append_right _ hmem
      · rw [hnone] at hown
        cases hown
      · refine (hold (hsame ▸ hown)).imp id fun hmem => ?_
        exact List.mem_append_right _ ((List.mem_cons.mp hmem).resolve_left hne.symm)
    · rw [Function.update_of_ne hu]
      refine ⟨(hkept u).1, fun hown => ?_⟩
      rcases howner with ⟨-, hself⟩ | hnone | ⟨hsame, -⟩
      · rw [hself] at hown
        exact absurd (Option.some.inj hown).symm hu
      · rw [hnone] at hown
        cases hown
      · exact (hkept u).2 (hsame ▸ hown)

theorem Kept.released {c : System} (hinv : Inv c) (h : Kept c) : Released c := by
  intro t hnil hout
  have hfree : c.shared.reservationOwner ≠ some t := by
    intro howner
    have hin := (h t).2 howner
    rw [hnil, hout] at hin
    rcases hin with hin | hin
    · cases hin
    · cases hin
  refine ⟨hfree, fun hholder => ?_⟩
  have hpos := (hinv.accounts.held t hholder).2
  rw [need, hnil, reserved, if_neg hfree] at hpos
  exact absurd hpos (Nat.lt_irrefl 0)

/-- A step of the board is a step of one controller. -/
theorem boardStep_eq {fCpu : ℕ} {b b' : Board} {e : Fin 2 × ℕ × Event}
    (h : boardStep fCpu b e = some b') :
    ∃ c, fire (step fCpu) (b e.1) e.2 = some c ∧ b' = Function.update b e.1 c := by
  unfold boardStep at h
  split at h
  · obtain ⟨c, hc, rfl⟩ := Option.map_eq_some_iff.mp h
    exact ⟨c, hc, rfl⟩
  · cases h

/-- What holds of each controller by itself holds of both on the board. -/
theorem board_preserves {fCpu : ℕ} {ok : System → ℕ × Event → Prop} {I : System → Prop}
    (h : PreservesWhen (fire (step fCpu)) ok I) :
    PreservesWhen (boardStep fCpu) (fun b e => ok (b e.1) e.2) fun b => ∀ i, I (b i) := by
  intro b e b' hok hstep hall i
  obtain ⟨c, hc, rfl⟩ := boardStep_eq hstep
  by_cases hi : i = e.1
  · subst hi
    rw [Function.update_self]
    exact h hok hc (hall _)
  · rw [Function.update_of_ne hi]
    exact hall i

theorem idle_kept : Kept idle :=
  fun _ => ⟨trivial, fun h => by cases h⟩

/-- For each controller, in every state of a run: the mutex counts the locks and the reservation of
its holder, who alone operates on the controller. As long as the tasks change single settings only
in transactions of their own, a task that is neither in a call nor in a transaction holds nothing. -/
theorem reservations_kept (fCpu : ℕ) {es : List (Fin 2 × ℕ × Event)} {b : Board}
    (hr : run (boardStep fCpu) board es = some b) :
    (∀ i, Guarded (b i)) ∧
      (Meets (boardStep fCpu) Inside board es → ∀ i, Released (b i)) := by
  constructor
  · have hpreserves := board_preserves ((step_inv fCpu).when fun _ _ => True)
    have hmeets : Meets (boardStep fCpu) (fun _ _ => True) board es :=
      Meets.of_forall fun _ _ => trivial
    have hall := hpreserves.run hmeets hr fun _ => idle_inv
    intro i
    exact (hall i).guarded
  · intro hinside i
    have hall := (board_preserves (step_kept fCpu)).run hinside hr fun _ => ⟨idle_inv, idle_kept⟩
    exact (hall i).2.released (hall i).1

def resumes (n : ℕ) : List (Fin 2 × ℕ × Event) := List.replicate n (0, 7, .resume)

/-- A task opens the bus. -/
def opened : List (Fin 2 × ℕ × Event) := (0, 7, .call (.begin false)) :: resumes 6

/-- It sets the bit order in a transaction. -/
def ordered : List (Fin 2 × ℕ × Event) :=
  opened ++ (0, 7, .call (.beginTransaction defaultSettings)) :: resumes 8 ++
    (0, 7, .call (.setBitOrder 0)) :: resumes 9 ++ (0, 7, .call .endTransaction) :: resumes 2

def insideTest (b : Board) (e : Fin 2 × ℕ × Event) : Bool :=
  match e.2.2 with
  | .call c => !c.sets || ((b e.1).thread e.2.1).inTransaction
  | .resume => true

theorem reservations_kept_ordered :
    ∃ b, run (boardStep 133000000) board ordered = some b ∧ (∀ i, Guarded (b i)) ∧
      ∀ i, Released (b i) := by
  have hrun : (run (boardStep 133000000) board ordered).isSome = true := by decide +kernel
  obtain ⟨b, hb⟩ := Option.isSome_iff_exists.mp hrun
  obtain ⟨hguarded, hreleased⟩ := reservations_kept 133000000 hb
  refine ⟨b, hb, hguarded, hreleased ?_⟩
  have hcheck : check (boardStep 133000000) insideTest board ordered = true := by decide +kernel
  refine Meets.of_check (I := fun _ => True) (fun _ _ _ _ _ _ => trivial) ?_ trivial hcheck
  intro b e _ htest c hc hsets
  rw [insideTest, hc] at htest
  simpa [hsets] using htest

/-- Outside of a transaction the reservation stays. -/
theorem setBitOrder_reserves :
    ¬∀ (fCpu : ℕ) (es : List (Fin 2 × ℕ × Event)) (b : Board),
      run (boardStep fCpu) board es = some b → ∀ i, Released (b i) := by
  intro h
  have hrun : (run (boardStep 133000000) board
      (opened ++ (0, 7, .call (.setBitOrder 0)) :: resumes 8)).map
        (fun b => (((b 0).thread 7).ops, ((b 0).thread 7).inTransaction,
          (b 0).shared.reservationOwner)) = some ([], false, some 7) := by decide +kernel
  obtain ⟨b, hb, heq⟩ := Option.map_eq_some_iff.mp hrun
  obtain ⟨hops, hrest⟩ := Prod.mk.inj heq
  obtain ⟨hout, howner⟩ := Prod.mk.inj hrest
  exact (h _ _ b hb 0 7 hops hout).1 howner

end RooTesting.SpiReservations
