import RooTesting.SntpNetif
import RooTesting.SntpDeliveries
import Mathlib.Data.List.Nodup

/-! # The sessions of the esp-netif adapter

A session is notified under the lock, while it is the current one, by a publication that has read
its own registration. The wake of a retired session goes from one waiter to the next: it is in
the semaphore, or a waiter that took it has still to leave. -/
namespace RooTesting.SntpNetif
open Transition Threads

def Frame.holds : Frame → Bool
  | .initServers _ _ | .startStop | .begin | .deinitStop _ | .deinitClear _ | .deinitGive _ => true
  | _ => false

def locks (l : Local) : ℕ := l.countP Frame.holds

def Frame.wait : Frame → Option ℕ
  | .waiting _ wait => some wait
  | .leave _ wait _ => some wait
  | _ => none

/-- The waits that a thread is in. -/
def waits (l : Local) : List ℕ := l.filterMap Frame.wait

/-- What the call in progress has found. -/
def Fits (s : Shared) : Frame → Prop
  | .notify registration => .synchronized registration ∈ s.history
  | .deliver id => ∃ registration, .notified id registration ∈ s.history
  | .post id => ∃ registration, .notified id registration ∈ s.history
  | .initServers _ _ => s.current = none
  | .deinitStop id => s.current = some id ∧ (s.sessions id).active = false
  | .deinitClear id => s.current = some id ∧ (s.sessions id).active = false
  | .deinitGive id => s.current = some id ∧ (s.sessions id).active = false
  | .waiting id wait =>
    wait ∈ (s.sessions id).waits ∧ (s.sessions id).semaphore.isSome = true
  | .leave id wait _ =>
    wait ∈ (s.sessions id).waits ∧ (s.sessions id).semaphore.isSome = true
  | _ => True

/-- A notification follows a publication under the registration of its session, and the end of no
session comes before it. The callback and the event follow a notification. -/
def Told (history : List Entry) : Prop :=
  (∀ later earlier id registration, history = later ++ .notified id registration :: earlier →
    .synchronized registration ∈ earlier ∧ .installed id registration ∈ earlier ∧
      .retired id ∉ earlier) ∧
  ∀ later earlier id, history = later ++ .called id :: earlier ∨
    history = later ++ .posted id :: earlier → ∃ registration, .notified id registration ∈ earlier

structure Books (s : Shared) : Prop where
  waiters : ∀ id, (s.sessions id).waiters = (s.sessions id).waits.length
  nodup : ∀ id, (s.sessions id).waits.Nodup
  wait : ∀ id, ∀ wait ∈ (s.sessions id).waits, wait < s.nextWait
  fresh : ∀ id, s.next ≤ id → s.sessions id = {}
  current : ∀ id, s.current = some id → id < s.next ∧ .retired id ∉ s.history
  registration : ∀ id, id < s.next →
    (s.sessions id).registration ≤ s.sntp.client.registration
  installed : ∀ id registration, .installed id registration ∈ s.history ↔
    id < s.next ∧ (s.sessions id).registration = registration
  distinct : ∀ id other, id < s.next → other < s.next →
    (s.sessions id).registration = (s.sessions other).registration → id = other
  retired : ∀ id, .retired id ∈ s.history → id < s.next ∧ (s.sessions id).active = false
  told : Told s.history

/-- The wake of a retired session that is still waited for. -/
def Relayed (c : System) : Prop :=
  ∀ id t wait, .retired id ∈ c.shared.history → .waiting id wait ∈ c.thread t →
    (c.shared.sessions id).semaphore = some true ∨
      ∃ u other, .leave id other true ∈ c.thread u

structure Inv (c : System) : Prop where
  books : Books c.shared
  fits : ∀ t, ∀ f ∈ c.thread t, Fits c.shared f
  nodup : ∀ t, (waits (c.thread t)).Nodup
  apart : ∀ t u wait, wait ∈ waits (c.thread t) → wait ∈ waits (c.thread u) → t = u
  held : Held locks c.thread c.shared.locked
  relayed : Relayed c

theorem start_inv : Inv start where
  books := by constructor <;> simp [start, Told]
  fits t f hf := by cases hf
  nodup t := List.nodup_nil
  apart t u wait h := by cases h
  held t := rfl
  relayed id t wait h := by cases h

theorem mem_waits {l : Local} {f : Frame} {wait : ℕ} (hf : f ∈ l) (hw : f.wait = some wait) :
    wait ∈ waits l :=
  List.mem_filterMap.mpr ⟨f, hf, hw⟩

theorem waits_append (l m : Local) : waits (l ++ m) = waits l ++ waits m :=
  List.filterMap_append ..

theorem locks_append (l m : Local) : locks (l ++ m) = locks l + locks m :=
  List.countP_append ..

theorem Fits.wait {s : Shared} {f : Frame} {wait : ℕ} (h : Fits s f) (hw : f.wait = some wait) :
    ∃ id, wait ∈ (s.sessions id).waits := by
  cases f with
  | waiting id other =>
    cases hw
    exact ⟨id, h.1⟩
  | leave id other taken =>
    cases hw
    exact ⟨id, h.1⟩
  | _ => cases hw

theorem Told.cons {history : List Entry} (h : Told history) {e : Entry}
    (hnotified : ∀ id registration, e = .notified id registration →
      .synchronized registration ∈ history ∧ .installed id registration ∈ history ∧
        .retired id ∉ history)
    (hcalled : ∀ id, e = .called id ∨ e = .posted id →
      ∃ registration, .notified id registration ∈ history) : Told (e :: history) := by
  constructor
  · intro later earlier id registration heq
    cases later with
    | nil =>
      obtain ⟨rfl, rfl⟩ := List.cons.inj heq
      exact hnotified id registration rfl
    | cons first later =>
      rw [List.cons_append] at heq
      exact h.1 later earlier id registration (List.cons.inj heq).2
  · intro later earlier id heq
    cases later with
    | nil =>
      rcases heq with heq | heq
      · obtain ⟨rfl, rfl⟩ := List.cons.inj heq
        exact hcalled id (Or.inl rfl)
      · obtain ⟨rfl, rfl⟩ := List.cons.inj heq
        exact hcalled id (Or.inr rfl)
    | cons first later =>
      rw [List.cons_append, List.cons_append] at heq
      exact h.2 later earlier id (heq.imp (fun h => (List.cons.inj h).2) fun h => (List.cons.inj h).2)

/-- The sessions and their history stay, and the client counts its registrations on. -/
structure Kept (s s' : Shared) : Prop where
  sessions : s'.sessions = s.sessions
  next : s'.next = s.next
  nextWait : s'.nextWait = s.nextWait
  current : s'.current = s.current
  history : s'.history = s.history
  registration : s.sntp.client.registration ≤ s'.sntp.client.registration

theorem Books.kept {s s' : Shared} (h : Books s) (hk : Kept s s') : Books s' := by
  constructor
  · rw [hk.sessions]
    exact h.waiters
  · rw [hk.sessions]
    exact h.nodup
  · rw [hk.sessions, hk.nextWait]
    exact h.wait
  · rw [hk.sessions, hk.next]
    exact h.fresh
  · rw [hk.current, hk.next, hk.history]
    exact h.current
  · rw [hk.sessions, hk.next]
    exact fun id hid => (h.registration id hid).trans hk.registration
  · rw [hk.sessions, hk.next, hk.history]
    exact h.installed
  · rw [hk.sessions, hk.next]
    exact h.distinct
  · rw [hk.sessions, hk.next, hk.history]
    exact h.retired
  · rw [hk.history]
    exact h.told

/-- An entry about a session that neither begins nor ends it. -/
theorem Books.record {s : Shared} (h : Books s) {e : Entry}
    (hinstalled : ∀ id registration, e ≠ .installed id registration)
    (hretired : ∀ id, e ≠ .retired id) (htold : Told (e :: s.history)) : Books (s.record e) := by
  have hr : ∀ id, .retired id ∈ e :: s.history ↔ .retired id ∈ s.history := by
    intro id
    rw [List.mem_cons]
    exact or_iff_right fun he => hretired id he.symm
  have hi : ∀ id registration, .installed id registration ∈ e :: s.history ↔
      .installed id registration ∈ s.history := by
    intro id registration
    rw [List.mem_cons]
    exact or_iff_right fun he => hinstalled id registration he.symm
  constructor
  · exact h.waiters
  · exact h.nodup
  · exact h.wait
  · exact h.fresh
  · intro id hid
    obtain ⟨hlt, hno⟩ := h.current id hid
    exact ⟨hlt, fun hmem => hno ((hr id).mp hmem)⟩
  · exact h.registration
  · intro id registration
    exact (hi id registration).trans (h.installed id registration)
  · exact h.distinct
  · intro id hid
    exact h.retired id ((hr id).mp hid)
  · exact htold

/-- What a session keeps while it is notified, waited for and retired. -/
structure Keeps (a b : Session) : Prop where
  registration : b.registration = a.registration
  waiters : b.waiters = b.waits.length
  waits : b.waits.Nodup
  active : a.active = false → b.active = false

@[simp] theorem set_self (s : Shared) (id : ℕ) (session : Session) :
    (s.set id session).sessions id = session := Function.update_self ..

theorem set_of_ne (s : Shared) {id other : ℕ} (session : Session) (h : other ≠ id) :
    (s.set id session).sessions other = s.sessions other := Function.update_of_ne h ..

/-- A property of the sessions where one of them is replaced. -/
theorem forall_set {s : Shared} {id : ℕ} {session : Session} {Q : ℕ → Session → Prop}
    (hid : Q id session) (hothers : ∀ other, other ≠ id → Q other (s.sessions other)) :
    ∀ other, Q other ((s.set id session).sessions other) := by
  intro other
  by_cases h : other = id
  · subst h
    rw [set_self]
    exact hid
  · rw [set_of_ne s session h]
    exact hothers other h

theorem Books.set {s : Shared} (h : Books s) {id : ℕ} {session : Session}
    (hk : Keeps (s.sessions id) session) (hid : id < s.next)
    (hwait : ∀ wait ∈ session.waits, wait < s.nextWait) : Books (s.set id session) := by
  have hreg : ∀ other,
      ((s.set id session).sessions other).registration = (s.sessions other).registration :=
    forall_set (Q := fun other session => session.registration = (s.sessions other).registration)
      hk.registration fun _ _ => rfl
  constructor
  · exact forall_set (Q := fun _ session => session.waiters = session.waits.length) hk.waiters
      fun other _ => h.waiters other
  · exact forall_set (Q := fun _ session => session.waits.Nodup) hk.waits fun other _ => h.nodup other
  · exact forall_set (Q := fun _ session => ∀ wait ∈ session.waits, wait < s.nextWait) hwait
      fun other _ => h.wait other
  · exact forall_set (Q := fun other session => s.next ≤ other → session = {})
      (fun hle => absurd hid (Nat.not_lt.mpr hle)) fun other _ => h.fresh other
  · exact h.current
  · intro other hother
    rw [hreg]
    exact h.registration other hother
  · intro other registration
    rw [hreg]
    exact h.installed other registration
  · intro other another hother hanother heq
    rw [hreg, hreg] at heq
    exact h.distinct other another hother hanother heq
  · intro other hother
    obtain ⟨hlt, hactive⟩ := h.retired other hother
    refine ⟨hlt, ?_⟩
    by_cases heq : other = id
    · subst heq
      rw [set_self]
      exact hk.active hactive
    · rw [set_of_ne s session heq]
      exact hactive
  · exact h.told

theorem Books.install {s : Shared} (h : Books s) (config : Config) : Books (s.install config) := by
  have hold : ∀ id, id < s.next → (s.install config).sessions id = s.sessions id := by
    intro id hid
    exact Function.update_of_ne (Nat.ne_of_lt hid) ..
  have hnew : ((s.install config).sessions s.next).registration =
      s.sntp.client.registration + 1 := by
    rw [show (s.install config).sessions s.next = _ from Function.update_self ..]
    rfl
  have hwaits : ∀ id, ((s.install config).sessions id).waits = (s.sessions id).waits := by
    intro id
    by_cases heq : id = s.next
    · subst heq
      rw [show (s.install config).sessions s.next = _ from Function.update_self ..,
        h.fresh _ (Nat.le_refl _)]
    · exact congrArg Session.waits (Function.update_of_ne heq ..)
  have hlt : ∀ id, id < (s.install config).next → id ≠ s.next → id < s.next := by
    intro id hid hne
    have : id < s.next + 1 := hid
    omega
  constructor
  · intro id
    rw [hwaits]
    by_cases heq : id = s.next
    · subst heq
      rw [show (s.install config).sessions s.next = _ from Function.update_self ..,
        h.fresh _ (Nat.le_refl _)]
      rfl
    · rw [show (s.install config).sessions id = _ from Function.update_of_ne heq ..]
      exact h.waiters id
  · intro id
    rw [hwaits]
    exact h.nodup id
  · intro id wait hwait
    rw [hwaits] at hwait
    exact h.wait id wait hwait
  · intro id hid
    have hne : id ≠ s.next := by
      have : s.next + 1 ≤ id := hid
      omega
    rw [show (s.install config).sessions id = _ from Function.update_of_ne hne ..]
    exact h.fresh id (Nat.le_of_succ_le hid)
  · intro id hid
    cases hid
    refine ⟨Nat.lt_succ_self _, fun hmem => ?_⟩
    have hretired := (List.mem_cons.mp hmem).resolve_left nofun
    exact Nat.lt_irrefl _ (h.retired _ hretired).1
  · intro id hid
    by_cases heq : id = s.next
    · subst heq
      rw [hnew]
      exact Nat.le_refl _
    · rw [hold id (hlt id hid heq)]
      exact Nat.le_succ_of_le (h.registration id (hlt id hid heq))
  · intro id registration
    have hmem : Entry.installed id registration ∈ (s.install config).history ↔
        (id = s.next ∧ registration = s.sntp.client.registration + 1) ∨
          .installed id registration ∈ s.history := by
      refine List.mem_cons.trans (or_congr ?_ Iff.rfl)
      rw [Entry.installed.injEq]
      rfl
    rw [hmem, h.installed]
    constructor
    · rintro (⟨rfl, rfl⟩ | ⟨hid, hreg⟩)
      · exact ⟨Nat.lt_succ_self _, hnew⟩
      · refine ⟨Nat.lt_succ_of_lt hid, ?_⟩
        rw [hold id hid]
        exact hreg
    · rintro ⟨hid, hreg⟩
      by_cases heq : id = s.next
      · subst heq
        rw [hnew] at hreg
        exact Or.inl ⟨rfl, hreg.symm⟩
      · rw [hold id (hlt id hid heq)] at hreg
        exact Or.inr ⟨hlt id hid heq, hreg⟩
  · have hfresh : ∀ id, id < s.next →
        ((s.install config).sessions id).registration ≠
          ((s.install config).sessions s.next).registration := by
      intro id hid heq
      rw [hnew, hold id hid] at heq
      have := h.registration id hid
      omega
    intro id other hid hother heq
    by_cases hidn : id = s.next <;> by_cases hothern : other = s.next
    · exact hidn.trans hothern.symm
    · subst hidn
      exact absurd heq.symm (hfresh other (hlt other hother hothern))
    · subst hothern
      exact absurd heq (hfresh id (hlt id hid hidn))
    · rw [hold id (hlt id hid hidn), hold other (hlt other hother hothern)] at heq
      exact h.distinct id other (hlt id hid hidn) (hlt other hother hothern) heq
  · intro id hid
    obtain ⟨hbound, hactive⟩ := h.retired id ((List.mem_cons.mp hid).resolve_left nofun)
    refine ⟨Nat.lt_succ_of_lt hbound, ?_⟩
    rw [hold id hbound]
    exact hactive
  · exact h.told.cons nofun nofun

theorem give_keeps {s : Shared} (h : Books s) (id : ℕ) :
    Keeps (s.sessions id) (s.sessions id).give :=
  ⟨rfl, h.waiters id, h.nodup id, fun hactive => hactive⟩

/-- The last section of `esp_netif_sntp_deinit`. -/
theorem Books.retire {s : Shared} (h : Books s) {id : ℕ} (hid : id < s.next)
    (hactive : (s.sessions id).active = false) :
    Books ((({ s with current := none, locked := false }).set id (s.sessions id).give).record
      (.retired id)) := by
  have hset : Books (s.set id (s.sessions id).give) :=
    h.set (give_keeps h id) hid fun wait hwait => h.wait id wait hwait
  constructor
  · exact hset.waiters
  · exact hset.nodup
  · exact hset.wait
  · exact hset.fresh
  · intro other hother
    cases hother
  · exact hset.registration
  · intro other registration
    refine Iff.trans ?_ (hset.installed other registration)
    rw [Shared.record, List.mem_cons]
    apply or_iff_right
    intro he
    cases he
  · exact hset.distinct
  · intro other hother
    rcases List.mem_cons.mp hother with he | hother
    · cases he
      refine ⟨hid, ?_⟩
      rw [Shared.record, set_self]
      exact hactive
    · exact hset.retired other hother
  · refine h.told.cons nofun fun other he => ?_
    rcases he with he | he <;> cases he

/-- What the frames of the other threads rest on is kept. -/
structure Shift (s s' : Shared) : Prop where
  history : ∀ e ∈ s.history, e ∈ s'.history
  waits : ∀ id, ∀ wait ∈ (s.sessions id).waits, wait ∈ (s'.sessions id).waits
  semaphore : ∀ id, (s.sessions id).semaphore.isSome = true →
    (s'.sessions id).semaphore.isSome = true

/-- The sessions are current or not, and active or not, as they were. -/
def Stands (s s' : Shared) : Prop :=
  s'.current = s.current ∧ ∀ id, (s'.sessions id).active = (s.sessions id).active

theorem Fits.shift {s s' : Shared} {f : Frame} (h : Fits s f) (hs : Shift s s')
    (hstands : f.holds = true → Stands s s') : Fits s' f := by
  cases f with
  | notify registration => exact hs.history _ h
  | deliver id =>
    obtain ⟨registration, hmem⟩ := h
    exact ⟨registration, hs.history _ hmem⟩
  | post id =>
    obtain ⟨registration, hmem⟩ := h
    exact ⟨registration, hs.history _ hmem⟩
  | initServers config i => exact (hstands rfl).1.trans h
  | deinitStop id => exact ⟨(hstands rfl).1.trans h.1, ((hstands rfl).2 id).trans h.2⟩
  | deinitClear id => exact ⟨(hstands rfl).1.trans h.1, ((hstands rfl).2 id).trans h.2⟩
  | deinitGive id => exact ⟨(hstands rfl).1.trans h.1, ((hstands rfl).2 id).trans h.2⟩
  | waiting id wait => exact ⟨hs.waits id wait h.1, hs.semaphore id h.2⟩
  | leave id wait taken => exact ⟨hs.waits id wait h.1, hs.semaphore id h.2⟩
  | _ => trivial

theorem Kept.shift {s s' : Shared} (h : Kept s s') : Shift s s' := by
  constructor
  · rw [h.history]
    exact fun _ => id
  · rw [h.sessions]
    exact fun _ _ => id
  · rw [h.sessions]
    exact fun _ => id

theorem Kept.stands {s s' : Shared} (h : Kept s s') : Stands s s' := by
  refine ⟨h.current, fun id => ?_⟩
  rw [h.sessions]

theorem record_shift (s : Shared) (e : Entry) : Shift s (s.record e) :=
  ⟨fun _ hmem => List.mem_cons_of_mem _ hmem, fun _ _ => id, fun _ => id⟩

theorem Shift.trans {s r s' : Shared} (h : Shift s r) (h' : Shift r s') : Shift s s' :=
  ⟨fun e he => h'.history e (h.history e he),
    fun id wait hwait => h'.waits id wait (h.waits id wait hwait),
    fun id hid => h'.semaphore id (h.semaphore id hid)⟩

theorem set_shift {s : Shared} {id : ℕ} {session : Session}
    (hwaits : ∀ wait ∈ (s.sessions id).waits, wait ∈ session.waits)
    (hsemaphore : (s.sessions id).semaphore.isSome = true → session.semaphore.isSome = true) :
    Shift s (s.set id session) := by
  constructor
  · exact fun _ => fun he => he
  · exact forall_set
      (Q := fun other session => ∀ wait ∈ (s.sessions other).waits, wait ∈ session.waits) hwaits
      fun _ _ _ => fun hw => hw
  · exact forall_set
      (Q := fun other session => (s.sessions other).semaphore.isSome = true →
        session.semaphore.isSome = true) hsemaphore fun _ _ => fun hs => hs

theorem give_shift (s : Shared) (id : ℕ) : Shift s (s.set id (s.sessions id).give) := by
  apply set_shift
  · exact fun _ hwait => hwait
  · intro hs
    rw [Session.give, Option.isSome_map]
    exact hs

/-- A semaphore that is full stays full where one is given. -/
theorem give_full (s : Shared) (id : ℕ) : ∀ other, (s.sessions other).semaphore = some true →
    ((s.set id (s.sessions id).give).sessions other).semaphore = some true := by
  refine forall_set (Q := fun other session =>
    (s.sessions other).semaphore = some true → session.semaphore = some true) ?_
    fun _ _ => fun hs => hs
  intro hs
  rw [Session.give, hs]
  rfl

theorem set_stands {s : Shared} {id : ℕ} {session : Session}
    (hactive : session.active = (s.sessions id).active) : Stands s (s.set id session) :=
  ⟨rfl, forall_set (Q := fun other session => session.active = (s.sessions other).active) hactive
    fun _ _ => rfl⟩

section Steps

variable {c : System} {t : ℕ} {s' : Shared} {a b rest : Local}

/-- The frames that a step of the thread leaves in place. -/
def Others (c : System) (t : ℕ) (rest : Local) (f : Frame) : Prop :=
  f ∈ rest ∨ ∃ u, u ≠ t ∧ f ∈ c.thread u

theorem Inv.others_fit (h : Inv c) (ht : c.thread t = a ++ rest) {f : Frame}
    (hf : Others c t rest f) : Fits c.shared f := by
  rcases hf with hf | ⟨u, -, hf⟩
  · apply h.fits t
    rw [ht]
    exact List.mem_append_right _ hf
  · exact h.fits u f hf

/-- A thread that has the lock, or takes it, is the only one inside a locked section. -/
theorem Inv.others_free (h : Inv c) (ht : c.thread t = a ++ rest)
    (halone : 0 < locks a ∨ c.shared.locked = false) {f : Frame} (hf : Others c t rest f) :
    f.holds = false := by
  by_contra hne
  have hyes : f.holds = true := by simpa using hne
  have hcount : locks (c.thread t) = locks a + locks rest := by
    rw [ht, locks_append]
  rcases halone with hpos | hfree
  · have hone := h.held.count_le_one t
    rcases hf with hf | ⟨u, hu, hf⟩
    · have : 0 < locks rest := List.countP_pos_iff.mpr ⟨f, hf, hyes⟩
      omega
    · have hother : 0 < locks (c.thread u) := List.countP_pos_iff.mpr ⟨f, hf, hyes⟩
      exact hu (h.held.eq_of_pos hother (by omega))
  · have hheld := h.held
    rw [hfree] at hheld
    rcases hf with hf | ⟨u, -, hf⟩
    · have : 0 < locks rest := List.countP_pos_iff.mpr ⟨f, hf, hyes⟩
      have := hheld t
      omega
    · have : 0 < locks (c.thread u) := List.countP_pos_iff.mpr ⟨f, hf, hyes⟩
      have := hheld u
      omega

theorem Inv.others_wait (h : Inv c) (ht : c.thread t = a ++ rest) {f : Frame} {wait : ℕ}
    (hf : Others c t rest f) (hw : f.wait = some wait) : wait ∉ waits a := by
  intro hmem
  rcases hf with hf | ⟨u, hu, hf⟩
  · have hnodup := h.nodup t
    rw [ht, waits_append] at hnodup
    exact (List.nodup_append.mp hnodup).2.2 wait hmem wait (mem_waits hf hw) rfl
  · refine hu (h.apart u t wait (mem_waits hf hw) ?_)
    rw [ht, waits_append]
    exact List.mem_append_left _ hmem

theorem Inv.waits_lt (h : Inv c) {u wait : ℕ} (hmem : wait ∈ waits (c.thread u)) :
    wait < c.shared.nextWait := by
  obtain ⟨f, hf, hw⟩ := List.mem_filterMap.mp hmem
  obtain ⟨id, hid⟩ := (h.fits u f hf).wait hw
  exact h.books.wait id wait hid

/-- One step of a thread, which replaces the calls on the top of its stack. -/
theorem Inv.replace (h : Inv c) (ht : c.thread t = a ++ rest) (hbooks : Books s')
    (hmine : ∀ f ∈ b, Fits s' f) (hothers : ∀ f, Others c t rest f → Fits s' f)
    (hwaits : ∀ wait ∈ waits b, wait ∈ waits a ∨ c.shared.nextWait ≤ wait)
    (hnodup : (waits b).Nodup)
    (hheld : Held locks (Function.update c.thread t (b ++ rest)) s'.locked)
    (hrelayed : Relayed ⟨s', Function.update c.thread t (b ++ rest)⟩) :
    Inv ⟨s', Function.update c.thread t (b ++ rest)⟩ := by
  have hrest : ∀ wait ∈ waits rest, wait ∈ waits (c.thread t) := by
    intro wait hwait
    rw [ht, waits_append]
    exact List.mem_append_right _ hwait
  have hfrom : ∀ {u wait}, u ≠ t → wait ∈ waits (b ++ rest) → wait ∉ waits (c.thread u) := by
    intro u wait hu hwait hother
    rw [waits_append] at hwait
    rcases List.mem_append.mp hwait with hwait | hwait
    · rcases hwaits wait hwait with hold | hnew
      · apply hu
        apply h.apart u t wait hother
        rw [ht, waits_append]
        exact List.mem_append_left _ hold
      · exact absurd (h.waits_lt hother) (Nat.not_lt.mpr hnew)
    · exact hu (h.apart u t wait hother (hrest wait hwait))
  have hmynodup : (waits (b ++ rest)).Nodup := by
    have hold := h.nodup t
    rw [ht, waits_append] at hold
    obtain ⟨-, hrestnodup, hdisjoint⟩ := List.nodup_append.mp hold
    rw [waits_append]
    refine List.nodup_append.mpr ⟨hnodup, hrestnodup, fun wait hwait other hother heq => ?_⟩
    subst heq
    rcases hwaits wait hwait with hmem | hnew
    · exact hdisjoint wait hmem wait hother rfl
    · exact absurd (h.waits_lt (hrest wait hother)) (Nat.not_lt.mpr hnew)
  refine ⟨hbooks, ?_, ?_, ?_, hheld, hrelayed⟩
  · refine (forall_update (Q := fun l => ∀ f ∈ l, Fits s' f)).mpr
      ⟨fun f hf => ?_, fun u hu f hf => hothers f (Or.inr ⟨u, hu, hf⟩)⟩
    rcases List.mem_append.mp hf with hf | hf
    · exact hmine f hf
    · exact hothers f (Or.inl hf)
  · exact (forall_update (Q := fun l => (waits l).Nodup)).mpr ⟨hmynodup, fun u _ => h.nodup u⟩
  · intro u v wait hu hv
    by_cases hut : u = t <;> by_cases hvt : v = t
    · exact hut.trans hvt.symm
    · subst hut
      simp only [Function.update_self, Function.update_of_ne hvt] at hu hv
      exact absurd hv (hfrom hvt hu)
    · subst hvt
      simp only [Function.update_self, Function.update_of_ne hut] at hu hv
      exact absurd hu (hfrom hut hv)
    · simp only [Function.update_of_ne hut, Function.update_of_ne hvt] at hu hv
      exact h.apart u v wait hu hv

/-- The wake of a session stays where it is: nobody begins to wait for it or leaves. -/
theorem Inv.relay_at (h : Inv c) (ht : c.thread t = a ++ rest) {id : ℕ}
    (hsemaphore : (c.shared.sessions id).semaphore = some true →
      (s'.sessions id).semaphore = some true)
    (hwaiting : ∀ wait, .waiting id wait ∈ b → .waiting id wait ∈ a)
    (hleave : ∀ wait, .leave id wait true ∈ a → .leave id wait true ∈ b) {u wait : ℕ}
    (hretired : .retired id ∈ c.shared.history)
    (hwait : .waiting id wait ∈ Function.update c.thread t (b ++ rest) u) :
    (s'.sessions id).semaphore = some true ∨
      ∃ v other, .leave id other true ∈ Function.update c.thread t (b ++ rest) v := by
  have hold : ∃ v, Frame.waiting id wait ∈ c.thread v := by
    by_cases hu : u = t
    · subst hu
      rw [Function.update_self] at hwait
      refine ⟨u, ?_⟩
      rw [ht]
      rcases List.mem_append.mp hwait with hmem | hmem
      · exact List.mem_append_left _ (hwaiting wait hmem)
      · exact List.mem_append_right _ hmem
    · rw [Function.update_of_ne hu] at hwait
      exact ⟨u, hwait⟩
  obtain ⟨v, hv⟩ := hold
  rcases h.relayed id v wait hretired hv with hfull | ⟨w, other, hw⟩
  · exact Or.inl (hsemaphore hfull)
  · refine Or.inr ⟨w, other, ?_⟩
    by_cases hwt : w = t
    · subst hwt
      rw [Function.update_self]
      rw [ht] at hw
      rcases List.mem_append.mp hw with hmem | hmem
      · exact List.mem_append_left _ (hleave other hmem)
      · exact List.mem_append_right _ hmem
    · rw [Function.update_of_ne hwt]
      exact hw

/-- The wakes of all sessions stay where they are, and no session ends. -/
theorem Inv.relay (h : Inv c) (ht : c.thread t = a ++ rest)
    (hretired : ∀ id, .retired id ∈ s'.history → .retired id ∈ c.shared.history)
    (hsemaphore : ∀ id, (c.shared.sessions id).semaphore = some true →
      (s'.sessions id).semaphore = some true)
    (hwaiting : ∀ id wait, .waiting id wait ∈ b → .waiting id wait ∈ a)
    (hleave : ∀ id wait, .leave id wait true ∈ a → .leave id wait true ∈ b) :
    Relayed ⟨s', Function.update c.thread t (b ++ rest)⟩ :=
  fun id _ _ hid hwait =>
    h.relay_at ht (hsemaphore id) (hwaiting id) (hleave id) (hretired id hid) hwait

end Steps

section Client

variable {s s' : Sntp.Shared} {l l' : Sntp.Local}

theorem schedule_registration {client client' : Sntp.Client} {now delayUs : ℤ}
    (h : client.scheduleLocked now delayUs = some client') :
    client'.registration = client.registration := by
  rw [Sntp.scheduleLocked_eq h]

theorem timerWake_registration {now : ℤ} {host : Option ℤ} {r : Sntp.Shared × Option ℤ}
    (h : s.timerWake now host = some r) : r.1.client.registration = s.client.registration := by
  unfold Sntp.Shared.timerWake at h
  split at h
  · cases h
    rfl
  · obtain ⟨client, hclient, rfl⟩ := Option.map_eq_some_iff.mp h
    have := schedule_registration hclient
    dsimp only
    rw [apply_ite (fun r : Sntp.Shared => r.client.registration)]
    exact (ite_self _).trans this

theorem init_registration {now : ℤ} (h : s.init now = some s') :
    s'.client.registration = s.client.registration := by
  obtain ⟨-, h⟩ := Option.ite_none_left_eq_some.mp h
  split at h
  · cases h
    rfl
  · obtain ⟨client, hclient, rfl⟩ := Option.map_eq_some_iff.mp h
    have := schedule_registration hclient
    exact this

theorem restart_registration {now : ℤ} (h : s.restart now = some s') :
    s'.client.registration = s.client.registration := by
  obtain ⟨-, h⟩ := Option.ite_none_left_eq_some.mp h
  split at h
  · cases h
    rfl
  · obtain ⟨client, hclient, rfl⟩ := Option.map_eq_some_iff.mp h
    exact schedule_registration hclient

theorem configureServer_registration (b : Sntp.ServerBehavior) (now : ℤ) :
    (s.configureServer b now).1.client.registration = s.client.registration := by
  unfold Sntp.Shared.configureServer
  split
  · rfl
  · split <;> rfl

theorem setServer_registration {index : ℕ} {server : Sntp.Server}
    (h : s.setServer index server = some s') :
    s'.client.registration = s.client.registration := by
  obtain ⟨-, h⟩ := Option.ite_none_right_eq_some.mp h
  cases h
  rfl

theorem call_registration {overridden : Bool} {e : Sntp.Event}
    (h : Sntp.call overridden s l e = some (s', l')) :
    s.client.registration ≤ s'.client.registration := by
  cases e with
  | timerWake now host =>
    obtain ⟨-, h⟩ := Option.ite_none_right_eq_some.mp h
    obtain ⟨r, hr, heq⟩ := Option.map_eq_some_iff.mp h
    have := timerWake_registration hr
    obtain ⟨s, response⟩ := r
    cases response <;> cases heq <;> exact this.ge
  | syncTime unixUs =>
    simp only [Sntp.call] at h
    split at h
    · cases h
      exact le_rfl
    · split at h
      · cases h
        exact le_rfl
      · obtain ⟨-, h⟩ := Option.ite_none_left_eq_some.mp h
        cases h
        exact le_rfl
  | init now =>
    obtain ⟨r, hr, heq⟩ := Option.map_eq_some_iff.mp h
    cases heq
    exact (init_registration hr).ge
  | restart now =>
    obtain ⟨r, hr, heq⟩ := Option.map_eq_some_iff.mp h
    cases heq
    exact (restart_registration hr).ge
  | configureServer b now =>
    cases h
    exact (configureServer_registration b now).ge
  | setServerName index name =>
    obtain ⟨r, hr, heq⟩ := Option.map_eq_some_iff.mp h
    cases heq
    exact (setServer_registration hr).ge
  | setServer index address =>
    obtain ⟨r, hr, heq⟩ := Option.map_eq_some_iff.mp h
    cases heq
    exact (setServer_registration hr).ge
  | reset =>
    obtain ⟨-, h⟩ := Option.ite_none_right_eq_some.mp h
    obtain ⟨r, hr, heq⟩ := Option.map_eq_some_iff.mp h
    cases heq
    obtain ⟨-, hr⟩ := Option.ite_none_left_eq_some.mp hr
    cases hr
    exact le_rfl
  | setCallback f =>
    cases h
    exact Nat.le_succ _
  | resume => cases h
  | _ =>
    cases h
    exact le_rfl

theorem resume_registration {overridden : Bool} {rest : Sntp.Local} {f : Sntp.Frame}
    (h : Sntp.resume overridden s rest f = some (s', l')) :
    s.client.registration ≤ s'.client.registration := by
  cases f with
  | publish delivery unixUs =>
    obtain ⟨-, h⟩ := Option.ite_none_right_eq_some.mp h
    cases hcallback : s.client.callback with
    | none =>
      rw [show s.publish delivery unixUs = (_, none) from Prod.ext rfl hcallback] at h
      obtain ⟨rfl, rfl⟩ := Prod.mk.inj (Option.some.inj h)
      exact le_rfl
    | some g =>
      rw [show s.publish delivery unixUs = (_, some g) from Prod.ext rfl hcallback] at h
      obtain ⟨rfl, rfl⟩ := Prod.mk.inj (Option.some.inj h)
      exact le_rfl
  | _ =>
    cases h
    exact le_rfl

/-- No step of the client takes a registration back. -/
theorem client_registration {overridden : Bool} {e : Sntp.Event}
    (h : Sntp.step overridden e s l = some (s', l')) :
    s.client.registration ≤ s'.client.registration := by
  cases e with
  | resume =>
    cases l with
    | nil => cases h
    | cons f rest => exact resume_registration h
  | _ => exact call_registration (Option.ite_none_right_eq_some.mp h).2

end Client

/-- A session somebody waits for has been made. -/
theorem Books.lt_next {s : Shared} (hb : Books s) {id wait : ℕ}
    (hmem : wait ∈ (s.sessions id).waits) : id < s.next := by
  by_contra hge
  rw [hb.fresh id (Nat.not_lt.mp hge)] at hmem
  cases hmem

section Calls

variable {c : System} {t : ℕ} {s' : Shared} {a b rest : Local}

theorem Inv.first_fits (h : Inv c) {f : Frame} (ht : c.thread t = [f] ++ rest) :
    Fits c.shared f := by
  apply h.fits t
  rw [ht]
  exact List.mem_cons_self

theorem Inv.held_keep (h : Inv c) (ht : c.thread t = a ++ rest) (hl : locks b = locks a) :
    Held locks (Function.update c.thread t (b ++ rest)) c.shared.locked := by
  apply h.held.keep
  rw [ht, locks_append, locks_append, hl]

theorem Inv.held_take (h : Inv c) (ht : c.thread t = a ++ rest) (hfree : c.shared.locked = false)
    (hl : locks b = 1) : Held locks (Function.update c.thread t (b ++ rest)) true := by
  have hheld := h.held
  rw [hfree] at hheld
  have hzero := hheld t
  rw [ht, locks_append] at hzero
  apply hheld.acquire
  rw [locks_append]
  omega

theorem Inv.held_drop (h : Inv c) (ht : c.thread t = a ++ rest) (hpos : 0 < locks a)
    (hl : locks b = 0) : Held locks (Function.update c.thread t (b ++ rest)) false := by
  have hone := h.held.count_le_one t
  rw [ht, locks_append] at hone
  apply h.held.release
  · rw [ht, locks_append]
    omega
  · rw [locks_append]
    omega

/-- A step outside of the waits that ends no session and empties no semaphore. -/
theorem Inv.go (h : Inv c) (ht : c.thread t = a ++ rest) (hbooks : Books s')
    (hshift : Shift c.shared s')
    (hstands : Stands c.shared s' ∨ 0 < locks a ∨ c.shared.locked = false)
    (hretired : ∀ id, .retired id ∈ s'.history → .retired id ∈ c.shared.history)
    (hsemaphore : ∀ id, (c.shared.sessions id).semaphore = some true →
      (s'.sessions id).semaphore = some true)
    (hmine : ∀ f ∈ b, Fits s' f) (hold : waits a = []) (hfs : waits b = [])
    (hheld : Held locks (Function.update c.thread t (b ++ rest)) s'.locked) :
    Inv ⟨s', Function.update c.thread t (b ++ rest)⟩ := by
  apply h.replace ht hbooks hmine
  · intro f hf
    refine (h.others_fit ht hf).shift hshift fun hholds => ?_
    rcases hstands with hstands | halone
    · exact hstands
    · rw [h.others_free ht halone hf] at hholds
      cases hholds
  · intro wait hwait
    rw [hfs] at hwait
    cases hwait
  · rw [hfs]
    exact List.nodup_nil
  · exact hheld
  · apply h.relay ht hretired hsemaphore
    · intro id wait hmem
      have := mem_waits hmem rfl
      rw [hfs] at this
      cases this
    · intro id wait hmem
      have := mem_waits hmem rfl
      rw [hold] at this
      cases this

/-- A step that leaves the sessions and the lock alone. -/
theorem Inv.quiet (h : Inv c) (ht : c.thread t = a ++ rest) (hk : Kept c.shared s')
    (hlocked : s'.locked = c.shared.locked) (hmine : ∀ f ∈ b, Fits s' f) (hold : waits a = [])
    (hfs : waits b = []) (hlocks : locks b = locks a) :
    Inv ⟨s', Function.update c.thread t (b ++ rest)⟩ := by
  apply h.go ht (h.books.kept hk) hk.shift (Or.inl hk.stands)
  · rw [hk.history]
    exact fun _ => id
  · rw [hk.sessions]
    exact fun _ => id
  · exact hmine
  · exact hold
  · exact hfs
  · rw [hlocked]
    exact h.held_keep ht hlocks

theorem Kept.client {s : Shared} {sntp : Sntp.Shared}
    (h : s.sntp.client.registration ≤ sntp.client.registration) : Kept s { s with sntp := sntp } :=
  ⟨rfl, rfl, rfl, rfl, rfl, h⟩

theorem forall_mem_one {Q : Frame → Prop} {f : Frame} (h : Q f) : ∀ g ∈ [f], Q g := by
  intro g hg
  rw [List.mem_singleton.mp hg]
  exact h

/-- The callback and the event of a notification. -/
theorem Inv.tell (h : Inv c) (ht : c.thread t = a ++ rest) {e : Entry} {id registration : ℕ}
    (he : e = .called id ∨ e = .posted id)
    (hnotified : .notified id registration ∈ c.shared.history)
    (hmine : ∀ f ∈ b, Fits (c.shared.record e) f) (hold : waits a = []) (hfs : waits b = [])
    (hlocks : locks b = locks a) :
    Inv ⟨c.shared.record e, Function.update c.thread t (b ++ rest)⟩ := by
  have hinstalled : ∀ other r, e ≠ .installed other r := by
    rcases he with rfl | rfl <;> exact nofun
  have hretired : ∀ other, e ≠ .retired other := by
    rcases he with rfl | rfl <;> exact nofun
  have htold : Told (e :: c.shared.history) := by
    apply h.books.told.cons
    · intro other r hother
      rcases he with rfl | rfl <;> cases hother
    · intro other hother
      refine ⟨registration, ?_⟩
      rcases he with rfl | rfl <;> rcases hother with hother | hother <;> cases hother <;>
        exact hnotified
  apply h.go ht (h.books.record hinstalled hretired htold) (record_shift c.shared e)
    (Or.inl ⟨rfl, fun _ => rfl⟩)
  · intro other hmem
    exact (List.mem_cons.mp hmem).resolve_left fun heq => hretired other heq.symm
  · exact fun _ hs => hs
  · exact hmine
  · exact hold
  · exact hfs
  · exact h.held_keep ht hlocks

/-- The locked section of `Notify`. -/
theorem Inv.notify (h : Inv c) {registration : ℕ} (ht : c.thread t = [.notify registration] ++ rest) :
    Inv ⟨(c.shared.notify registration).1,
      Function.update c.thread t ((c.shared.notify registration).2 ++ rest)⟩ := by
  have hsync : .synchronized registration ∈ c.shared.history := h.first_fits ht
  have hnone : Inv ⟨c.shared, Function.update c.thread t ([] ++ rest)⟩ :=
    h.quiet ht ⟨rfl, rfl, rfl, rfl, rfl, le_rfl⟩ rfl nofun rfl rfl rfl
  cases hcurrent : c.shared.current with
  | none =>
    have heq : c.shared.notify registration = (c.shared, []) := by
      unfold Shared.notify
      rw [hcurrent]
    rw [heq]
    exact hnone
  | some id =>
    by_cases hno : (c.shared.sessions id).active = false ∨
        (c.shared.sessions id).registration ≠ registration
    · have heq : c.shared.notify registration = (c.shared, []) := by
        unfold Shared.notify
        rw [hcurrent]
        exact if_pos hno
      rw [heq]
      exact hnone
    · have heq : c.shared.notify registration =
          ((c.shared.set id (c.shared.sessions id).give).record (.notified id registration),
            [.deliver id]) := by
        unfold Shared.notify
        rw [hcurrent]
        exact if_neg hno
      rw [heq]
      push Not at hno
      obtain ⟨hlt, hretired⟩ := h.books.current id hcurrent
      have hinstalled : .installed id registration ∈ c.shared.history :=
        (h.books.installed id registration).mpr ⟨hlt, hno.2⟩
      have hset : Books (c.shared.set id (c.shared.sessions id).give) :=
        h.books.set (give_keeps h.books id) hlt fun wait hwait => h.books.wait id wait hwait
      have htold : Told (.notified id registration :: c.shared.history) := by
        apply h.books.told.cons
        · intro other r hother
          cases hother
          exact ⟨hsync, hinstalled, hretired⟩
        · intro other hother
          rcases hother with hother | hother <;> cases hother
      have hbooks : Books ((c.shared.set id (c.shared.sessions id).give).record
          (.notified id registration)) := hset.record nofun nofun htold
      have hstands : Stands c.shared (c.shared.set id (c.shared.sessions id).give) := set_stands rfl
      apply h.go ht hbooks ((give_shift c.shared id).trans (record_shift _ _))
        (Or.inl ⟨hstands.1, hstands.2⟩)
      · intro other hmem
        exact (List.mem_cons.mp hmem).resolve_left nofun
      · exact give_full c.shared id
      · exact forall_mem_one ⟨registration, List.mem_cons_self⟩
      · rfl
      · rfl
      · exact h.held_keep ht rfl

/-- The hook is installed and the session becomes the current one. -/
theorem Inv.install (h : Inv c) {config : Config} {i : ℕ}
    (ht : c.thread t = [.initServers config i] ++ rest)
    (hs : s' = c.shared.install config ∨ s' = { c.shared.install config with locked := false })
    (hmine : ∀ f ∈ b, Fits s' f) (hfs : waits b = [])
    (hheld : Held locks (Function.update c.thread t (b ++ rest)) s'.locked) :
    Inv ⟨s', Function.update c.thread t (b ++ rest)⟩ := by
  have hsessions : s'.sessions = (c.shared.install config).sessions := by
    rcases hs with rfl | rfl <;> rfl
  have hhistory : s'.history = (c.shared.install config).history := by
    rcases hs with rfl | rfl <;> rfl
  have hold : ∀ id, s'.sessions id = c.shared.sessions id ∨ c.shared.sessions id = {} := by
    intro id
    rw [hsessions]
    by_cases heq : id = c.shared.next
    · subst heq
      exact Or.inr (h.books.fresh _ (Nat.le_refl _))
    · exact Or.inl (Function.update_of_ne heq ..)
  apply h.go ht _ _ (Or.inr (Or.inl Nat.one_pos))
  · intro id hmem
    rw [hhistory] at hmem
    exact (List.mem_cons.mp hmem).resolve_left nofun
  · intro id hfull
    rcases hold id with heq | heq
    · rw [heq]
      exact hfull
    · rw [heq] at hfull
      cases hfull
  · exact hmine
  · rfl
  · exact hfs
  · exact hheld
  · have hbooks := h.books.install config
    rcases hs with rfl | rfl
    · exact hbooks
    · exact hbooks.kept ⟨rfl, rfl, rfl, rfl, rfl, le_rfl⟩
  · constructor
    · intro e he
      rw [hhistory]
      exact List.mem_cons_of_mem _ he
    · intro id wait hwait
      rcases hold id with heq | heq
      · rw [heq]
        exact hwait
      · rw [heq] at hwait
        cases hwait
    · intro id hsome
      rcases hold id with heq | heq
      · rw [heq]
        exact hsome
      · rw [heq] at hsome
        cases hsome

/-- The first section of `esp_netif_sntp_deinit` makes the session inactive. -/
theorem Inv.deactivate (h : Inv c) {id : ℕ} (ht : c.thread t = [.deinit] ++ rest)
    (hfree : c.shared.locked = false) (hcurrent : c.shared.current = some id) :
    Inv ⟨({ c.shared with locked := true }).set id { c.shared.sessions id with active := false },
      Function.update c.thread t ([.deinitStop id] ++ rest)⟩ := by
  have hkeeps : Keeps (c.shared.sessions id) { c.shared.sessions id with active := false } :=
    ⟨rfl, h.books.waiters id, h.books.nodup id, fun _ => rfl⟩
  have hbooks : Books (c.shared.set id { c.shared.sessions id with active := false }) :=
    h.books.set hkeeps (h.books.current id hcurrent).1 fun wait hwait => h.books.wait id wait hwait
  have hshift : Shift c.shared (c.shared.set id { c.shared.sessions id with active := false }) := by
    apply set_shift
    · exact fun _ hwait => hwait
    · exact fun hs => hs
  apply h.go ht
  · exact hbooks.kept ⟨rfl, rfl, rfl, rfl, rfl, le_rfl⟩
  · exact ⟨hshift.history, hshift.waits, hshift.semaphore⟩
  · exact Or.inr (Or.inr hfree)
  · exact fun _ hmem => hmem
  · exact forall_set (Q := fun other session =>
      (c.shared.sessions other).semaphore = some true → session.semaphore = some true)
      (fun hs => hs) fun _ _ => fun hs => hs
  · apply forall_mem_one
    refine ⟨hcurrent, ?_⟩
    rw [set_self]
  · rfl
  · rfl
  · exact h.held_take ht hfree rfl

/-- The end of a session wakes one of its waiters. -/
theorem Inv.deinitGive (h : Inv c) {id : ℕ} (ht : c.thread t = [.deinitGive id] ++ rest) :
    Inv ⟨(({ c.shared with current := none, locked := false }).set id
      (c.shared.sessions id).give).record (.retired id), Function.update c.thread t ([] ++ rest)⟩ := by
  have hfits : c.shared.current = some id ∧ (c.shared.sessions id).active = false :=
    h.first_fits ht
  have hlt := (h.books.current id hfits.1).1
  apply h.replace ht
  · exact h.books.retire hlt hfits.2
  · intro f hf
    cases hf
  · intro f hf
    apply (h.others_fit ht hf).shift
    · have hshift := give_shift c.shared id
      exact ⟨fun e he => List.mem_cons_of_mem _ he, hshift.waits, hshift.semaphore⟩
    · intro hholds
      rw [h.others_free ht (Or.inl Nat.one_pos) hf] at hholds
      cases hholds
  · intro wait hwait
    cases hwait
  · exact List.nodup_nil
  · exact h.held_drop ht Nat.one_pos rfl
  · intro other u wait hid hwait
    by_cases heq : other = id
    · -- The session that ends has been given its semaphore.
      subst heq
      have hmem : Frame.waiting other wait ∈ c.thread u := by
        by_cases hu : u = t
        · subst hu
          rw [ht]
          simpa using hwait
        · simpa [Function.update_of_ne hu] using hwait
      obtain ⟨full, hfull⟩ := Option.isSome_iff_exists.mp (h.fits u _ hmem).2
      refine Or.inl ?_
      rw [Shared.record, set_self, Session.give, hfull]
      rfl
    · have hrelay : Relayed ⟨c.shared.set id (c.shared.sessions id).give,
          Function.update c.thread t ([] ++ rest)⟩ := by
        apply h.relay ht
        · exact fun _ hmem => hmem
        · exact give_full c.shared id
        · intro other wait hmem
          cases hmem
        · intro other wait hmem
          cases List.mem_singleton.mp hmem
      apply hrelay other u wait _ hwait
      rcases List.mem_cons.mp hid with he | hid
      · cases he
        exact absurd rfl heq
      · exact hid

/-- A wait is entered. -/
theorem Inv.enter (h : Inv c) {id : ℕ} (ht : c.thread t = [.syncWait] ++ rest)
    (hcurrent : c.shared.current = some id) (hsome : (c.shared.sessions id).semaphore.isSome = true) :
    Inv ⟨({ c.shared with nextWait := c.shared.nextWait + 1 }).set id
        ((c.shared.sessions id).enter c.shared.nextWait),
      Function.update c.thread t ([.waiting id c.shared.nextWait] ++ rest)⟩ := by
  have hb := h.books
  obtain ⟨hlt, hretired⟩ := hb.current id hcurrent
  have hmore : Books { c.shared with nextWait := c.shared.nextWait + 1 } :=
    ⟨hb.waiters, hb.nodup, fun other wait hwait => Nat.lt_succ_of_lt (hb.wait other wait hwait),
      hb.fresh, hb.current, hb.registration, hb.installed, hb.distinct, hb.retired, hb.told⟩
  have hkeeps : Keeps (c.shared.sessions id) ((c.shared.sessions id).enter c.shared.nextWait) := by
    constructor
    · rfl
    · exact congrArg (· + 1) (hb.waiters id)
    · exact List.nodup_cons.mpr ⟨fun hmem => Nat.lt_irrefl _ (hb.wait id _ hmem), hb.nodup id⟩
    · exact fun hactive => hactive
  apply h.replace ht
  · apply hmore.set hkeeps hlt
    intro wait hwait
    rcases List.mem_cons.mp hwait with rfl | hwait
    · exact Nat.lt_succ_self _
    · exact Nat.lt_succ_of_lt (hb.wait id wait hwait)
  · apply forall_mem_one
    rw [Fits, set_self]
    exact ⟨List.mem_cons_self, hsome⟩
  · intro f hf
    have hshift : Shift c.shared
        (c.shared.set id ((c.shared.sessions id).enter c.shared.nextWait)) := by
      apply set_shift
      · exact fun wait hwait => List.mem_cons_of_mem _ hwait
      · exact fun hs => hs
    have hstands : Stands c.shared
        (c.shared.set id ((c.shared.sessions id).enter c.shared.nextWait)) := set_stands rfl
    exact (h.others_fit ht hf).shift ⟨hshift.history, hshift.waits, hshift.semaphore⟩
      fun _ => ⟨hstands.1, hstands.2⟩
  · intro wait hwait
    rw [List.mem_singleton.mp hwait]
    exact Or.inr (Nat.le_refl _)
  · exact List.nodup_singleton _
  · exact h.held_keep ht rfl
  · intro other u wait hid hwait
    have hne : other ≠ id := by
      intro heq
      rw [heq] at hid
      exact hretired hid
    apply h.relay_at ht _ _ _ hid hwait
    · intro hfull
      rw [set_of_ne _ _ hne]
      exact hfull
    · intro another hmem
      cases List.mem_singleton.mp hmem
      exact absurd rfl hne
    · intro another hmem
      cases List.mem_singleton.mp hmem

/-- A waiter goes from the semaphore to its last section. -/
theorem Inv.release (h : Inv c) {id wait : ℕ} {taken : Bool}
    (ht : c.thread t = [.waiting id wait] ++ rest) (hbooks : Books s')
    (hshift : Shift c.shared s') (hstands : Stands c.shared s')
    (hhistory : s'.history = c.shared.history) (hlocked : s'.locked = c.shared.locked)
    (hothers : ∀ other, other ≠ id ∨ taken = false →
      (s'.sessions other).semaphore = (c.shared.sessions other).semaphore) :
    Inv ⟨s', Function.update c.thread t ([.leave id wait taken] ++ rest)⟩ := by
  have hfits : Fits c.shared (.waiting id wait) := h.first_fits ht
  apply h.replace ht hbooks
  · exact forall_mem_one ⟨hshift.waits id wait hfits.1, hshift.semaphore id hfits.2⟩
  · exact fun f hf => (h.others_fit ht hf).shift hshift fun _ => hstands
  · exact fun other hother => Or.inl hother
  · exact List.nodup_singleton _
  · rw [hlocked]
    exact h.held_keep ht rfl
  · intro other u another hid hwait
    dsimp only at hid hwait ⊢
    rw [hhistory] at hid
    by_cases hmine : other = id ∧ taken = true
    · obtain ⟨rfl, rfl⟩ := hmine
      refine Or.inr ⟨t, wait, ?_⟩
      rw [Function.update_self]
      exact List.mem_cons_self
    · apply h.relay_at ht _ _ _ hid hwait
      · have hor : other ≠ id ∨ taken = false := by
          by_cases heq : other = id
          · refine Or.inr ?_
            by_contra hne
            exact hmine ⟨heq, by simpa using hne⟩
          · exact Or.inl heq
        rw [hothers other hor]
        exact fun hfull => hfull
      · intro last hmem
        cases List.mem_singleton.mp hmem
      · intro last hmem
        cases List.mem_singleton.mp hmem

end Calls

section Leave

variable {s : Session} {wait : ℕ} {taken : Bool}

theorem leave_waits : (s.leave wait taken).1.waits = s.waits.erase wait := by
  unfold Session.leave
  dsimp only
  split
  · split <;> rfl
  · rfl

theorem leave_waiters : (s.leave wait taken).1.waiters = s.waiters - 1 := by
  unfold Session.leave
  dsimp only
  split
  · split <;> rfl
  · rfl

theorem leave_registration : (s.leave wait taken).1.registration = s.registration := by
  unfold Session.leave
  dsimp only
  split
  · split <;> rfl
  · rfl

theorem leave_active : (s.leave wait taken).1.active = s.active := by
  unfold Session.leave
  dsimp only
  split
  · split <;> rfl
  · rfl

theorem leave_semaphore (h : s.semaphore.isSome = true) :
    (s.leave wait taken).1.semaphore.isSome = true := by
  unfold Session.leave
  dsimp only
  split
  · split
    · rw [Session.give, Option.isSome_map]
      exact h
    · exact h
  · exact h

/-- The last section passes the wake of a retired session on while others wait. -/
theorem leave_full (hactive : s.active = false) (hwaiters : s.waiters - 1 ≠ 0)
    (h : s.semaphore.isSome = true) : (s.leave wait taken).1.semaphore = some true := by
  obtain ⟨full, hfull⟩ := Option.isSome_iff_exists.mp h
  unfold Session.leave
  dsimp only
  rw [if_pos hactive, if_pos hwaiters, Session.give, hfull]
  rfl

theorem leave_keeps (hmem : wait ∈ s.waits) (hwaiters : s.waiters = s.waits.length)
    (hnodup : s.waits.Nodup) : Keeps s (s.leave wait taken).1 := by
  constructor
  · exact leave_registration
  · rw [leave_waiters, leave_waits, List.length_erase_of_mem hmem, hwaiters]
  · rw [leave_waits]
    exact hnodup.erase wait
  · intro hactive
    rw [leave_active]
    exact hactive

end Leave

theorem Inv.leave {c : System} {t : ℕ} {rest : Local} (h : Inv c) {id wait : ℕ} {taken : Bool}
    (ht : c.thread t = [.leave id wait taken] ++ rest) :
    Inv ⟨(c.shared.set id ((c.shared.sessions id).leave wait taken).1).record
        (.waited id ((c.shared.sessions id).leave wait taken).2),
      Function.update c.thread t ([] ++ rest)⟩ := by
  have hb := h.books
  have hfits : Fits c.shared (.leave id wait taken) := h.first_fits ht
  have hlt : id < c.shared.next := hb.lt_next hfits.1
  have hset : Books (c.shared.set id ((c.shared.sessions id).leave wait taken).1) := by
    apply hb.set (leave_keeps hfits.1 (hb.waiters id) (hb.nodup id)) hlt
    intro other hother
    rw [leave_waits] at hother
    exact hb.wait id other (List.mem_of_mem_erase hother)
  -- Another wait in the session is counted beside this one.
  have hmore : ∀ f other, Others c t rest f → f.wait = some other →
      other ∈ (c.shared.sessions id).waits →
        other ∈ ((c.shared.sessions id).leave wait taken).1.waits := by
    intro f other hf hw hother
    have hne : other ≠ wait := by
      rintro rfl
      exact h.others_wait ht hf hw List.mem_cons_self
    rw [leave_waits]
    exact (List.mem_erase_of_ne hne).mpr hother
  apply h.replace ht
  · refine hset.record nofun nofun (hb.told.cons nofun ?_)
    intro other hother
    rcases hother with hother | hother <;> cases hother
  · intro f hf
    cases hf
  · intro f hf
    have hfit := h.others_fit ht hf
    have hwaitfit : ∀ another other, f.wait = some other →
        other ∈ (c.shared.sessions another).waits ∧
          (c.shared.sessions another).semaphore.isSome = true →
        other ∈ ((c.shared.set id
            ((c.shared.sessions id).leave wait taken).1).sessions another).waits ∧
          ((c.shared.set id ((c.shared.sessions id).leave wait taken).1).sessions
            another).semaphore.isSome = true := by
      intro another other hw hold
      by_cases heq : another = id
      · subst heq
        rw [set_self]
        exact ⟨hmore f other hf hw hold.1, leave_semaphore hold.2⟩
      · rw [set_of_ne _ _ heq]
        exact hold
    have hstands : Stands c.shared
        (c.shared.set id ((c.shared.sessions id).leave wait taken).1) := set_stands leave_active
    cases f with
    | notify registration => exact List.mem_cons_of_mem _ hfit
    | deliver other =>
      obtain ⟨registration, hmem⟩ := hfit
      exact ⟨registration, List.mem_cons_of_mem _ hmem⟩
    | post other =>
      obtain ⟨registration, hmem⟩ := hfit
      exact ⟨registration, List.mem_cons_of_mem _ hmem⟩
    | initServers config i => exact hfit
    | deinitStop other => exact ⟨hfit.1, (hstands.2 other).trans hfit.2⟩
    | deinitClear other => exact ⟨hfit.1, (hstands.2 other).trans hfit.2⟩
    | deinitGive other => exact ⟨hfit.1, (hstands.2 other).trans hfit.2⟩
    | waiting another other => exact hwaitfit another other rfl hfit
    | leave another other taken => exact hwaitfit another other rfl hfit
    | _ => trivial
  · intro other hother
    cases hother
  · exact List.nodup_nil
  · exact h.held_keep ht rfl
  · intro other u another hid hwait
    have hretired := (List.mem_cons.mp hid).resolve_left nofun
    by_cases heq : other = id
    · subst heq
      have hothers : Others c t rest (.waiting other another) := by
        by_cases hu : u = t
        · subst hu
          exact Or.inl (by simpa using hwait)
        · exact Or.inr ⟨u, hu, by simpa [Function.update_of_ne hu] using hwait⟩
      have hmem := hmore _ another hothers rfl (h.others_fit ht hothers).1
      have hpos := List.length_pos_of_mem hmem
      rw [leave_waits, List.length_erase_of_mem hfits.1, ← hb.waiters] at hpos
      refine Or.inl ?_
      rw [Shared.record, set_self]
      exact leave_full (hb.retired other hretired).2 (by omega) hfits.2
    · apply h.relay_at ht _ _ _ hretired hwait
      · intro hfull
        rw [Shared.record, set_of_ne _ _ heq]
        exact hfull
      · intro last hmem
        cases hmem
      · intro last hmem
        cases List.mem_singleton.mp hmem
        exact absurd rfl heq

section Resume
variable {c : System} {t : ℕ} {s' : Shared} {l' rest : Local} {now : ℤ}

/-- A call outside of its sections ends. -/
theorem Inv.pop (h : Inv c) {f : Frame} (ht : c.thread t = [f] ++ rest) (hw : waits [f] = [])
    (hl : locks [f] = 0) : Inv ⟨c.shared, Function.update c.thread t rest⟩ :=
  h.quiet (b := []) ht ⟨rfl, rfl, rfl, rfl, rfl, le_rfl⟩ rfl nofun hw rfl hl.symm

/-- A call takes the mutex and goes on. -/
theorem Inv.lock (h : Inv c) {f g : Frame} (ht : c.thread t = [f] ++ rest)
    (hfree : c.shared.locked = false) (hg : Fits { c.shared with locked := true } g)
    (hw : waits [f] = []) (hw' : waits [g] = []) (hl : locks [g] = 1) :
    Inv ⟨{ c.shared with locked := true }, Function.update c.thread t ([g] ++ rest)⟩ := by
  have hk : Kept c.shared { c.shared with locked := true } := ⟨rfl, rfl, rfl, rfl, rfl, le_rfl⟩
  exact h.go ht (h.books.kept hk) hk.shift (Or.inl hk.stands) (fun _ hm => hm) (fun _ hs => hs)
    (forall_mem_one hg) hw hw' (h.held_take ht hfree hl)

/-- The delivery calls the callback of its session, if there is one, and posts the event. -/
theorem Inv.deliver (h : Inv c) {id : ℕ} (ht : c.thread t = [.deliver id] ++ rest)
    (hr : SntpNetif.resume now c.shared rest (.deliver id) = some (s', l')) :
    Inv ⟨s', Function.update c.thread t l'⟩ := by
  obtain ⟨registration, hnotified⟩ := h.first_fits ht
  simp only [SntpNetif.resume] at hr
  split at hr
  · cases hr
    exact h.quiet (b := [_]) ht ⟨rfl, rfl, rfl, rfl, rfl, le_rfl⟩ rfl
      (forall_mem_one ⟨registration, hnotified⟩) rfl rfl rfl
  · cases hr
    refine h.tell (b := [_, _]) ht (Or.inl rfl) hnotified ?_ rfl rfl rfl
    intro g hg
    rcases List.mem_cons.mp hg with rfl | hg
    · trivial
    · rw [List.mem_singleton.mp hg]
      exact ⟨registration, List.mem_cons_of_mem _ hnotified⟩

/-- `esp_netif_sntp_init` takes the mutex when there is no session and no client runs. -/
theorem Inv.init (h : Inv c) {config : Config} (ht : c.thread t = [.init config] ++ rest)
    (hr : SntpNetif.resume now c.shared rest (.init config) = some (s', l')) :
    Inv ⟨s', Function.update c.thread t l'⟩ := by
  obtain ⟨hfree, hr⟩ := Option.ite_none_left_eq_some.mp hr
  have hfree : c.shared.locked = false := by simpa using hfree
  split at hr
  · obtain ⟨rfl, rfl⟩ := Prod.mk.inj (Option.some.inj hr)
    exact h.pop ht rfl rfl
  · rename_i hno
    cases hr
    have hcurrent : c.shared.current = none := by
      by_contra hne
      exact hno (Or.inl (Option.isSome_iff_ne_none.mpr hne))
    exact h.lock ht hfree hcurrent rfl rfl rfl

/-- One turn of the loop over the servers, or what follows it. -/
theorem Inv.initServers (h : Inv c) {config : Config} {i : ℕ}
    (ht : c.thread t = [.initServers config i] ++ rest)
    (hr : SntpNetif.resume now c.shared rest (.initServers config i) = some (s', l')) :
    Inv ⟨s', Function.update c.thread t l'⟩ := by
  simp only [SntpNetif.resume] at hr
  split at hr
  · obtain ⟨sntp, hsntp, heq⟩ := Option.map_eq_some_iff.mp hr
    obtain ⟨rfl, rfl⟩ := Prod.mk.inj heq
    exact h.quiet (b := [_]) ht (Kept.client (setServer_registration hsntp).ge) rfl
      (forall_mem_one (h.first_fits ht)) rfl rfl rfl
  · split at hr
    · cases hr
      exact h.install (b := [_]) ht (Or.inl rfl) (forall_mem_one trivial) rfl (h.held_keep ht rfl)
    · cases hr
      exact h.install (b := []) ht (Or.inr rfl) nofun rfl (h.held_drop ht Nat.one_pos rfl)

theorem Inv.start (h : Inv c) (ht : c.thread t = [.start] ++ rest)
    (hr : SntpNetif.resume now c.shared rest .start = some (s', l')) :
    Inv ⟨s', Function.update c.thread t l'⟩ := by
  obtain ⟨hfree, hr⟩ := Option.ite_none_left_eq_some.mp hr
  have hfree : c.shared.locked = false := by simpa using hfree
  split at hr
  · obtain ⟨rfl, rfl⟩ := Prod.mk.inj (Option.some.inj hr)
    exact h.pop ht rfl rfl
  · cases hr
    exact h.lock ht hfree trivial rfl rfl rfl

/-- The client is started and the mutex released. -/
theorem Inv.begin (h : Inv c) (ht : c.thread t = [.begin] ++ rest)
    (hr : SntpNetif.resume now c.shared rest .begin = some (s', l')) :
    Inv ⟨s', Function.update c.thread t l'⟩ := by
  obtain ⟨sntp, hsntp, heq⟩ := Option.map_eq_some_iff.mp hr
  obtain ⟨rfl, rfl⟩ := Prod.mk.inj heq
  have hk : Kept c.shared { c.shared with sntp := sntp, locked := false } :=
    ⟨rfl, rfl, rfl, rfl, rfl, (init_registration hsntp).ge⟩
  exact h.go (b := []) ht (h.books.kept hk) hk.shift (Or.inl hk.stands) (fun _ hm => hm)
    (fun _ hs => hs) nofun rfl rfl (h.held_drop ht Nat.one_pos rfl)

theorem Inv.deinit (h : Inv c) (ht : c.thread t = [.deinit] ++ rest)
    (hr : SntpNetif.resume now c.shared rest .deinit = some (s', l')) :
    Inv ⟨s', Function.update c.thread t l'⟩ := by
  obtain ⟨hfree, hr⟩ := Option.ite_none_left_eq_some.mp hr
  have hfree : c.shared.locked = false := by simpa using hfree
  split at hr
  · obtain ⟨rfl, rfl⟩ := Prod.mk.inj (Option.some.inj hr)
    exact h.pop ht rfl rfl
  · rename_i id hcurrent
    obtain ⟨rfl, rfl⟩ := Prod.mk.inj (Option.some.inj hr)
    exact h.deactivate ht hfree hcurrent

/-- A wait joins the current session, unless there is none or it has no semaphore. -/
theorem Inv.syncWait (h : Inv c) (ht : c.thread t = [.syncWait] ++ rest)
    (hr : SntpNetif.resume now c.shared rest .syncWait = some (s', l')) :
    Inv ⟨s', Function.update c.thread t l'⟩ := by
  obtain ⟨-, hr⟩ := Option.ite_none_left_eq_some.mp hr
  split at hr
  · obtain ⟨rfl, rfl⟩ := Prod.mk.inj (Option.some.inj hr)
    exact h.pop ht rfl rfl
  · rename_i id hcurrent
    split at hr
    · obtain ⟨rfl, rfl⟩ := Prod.mk.inj (Option.some.inj hr)
      exact h.pop ht rfl rfl
    · rename_i hne
      obtain ⟨rfl, rfl⟩ := Prod.mk.inj (Option.some.inj hr)
      exact h.enter ht hcurrent (Option.isSome_iff_ne_none.mpr hne)

/-- A waiter takes the semaphore of its session. -/
theorem Inv.take (h : Inv c) {id wait : ℕ} (ht : c.thread t = [.waiting id wait] ++ rest) :
    Inv ⟨c.shared.set id { c.shared.sessions id with semaphore := some false },
      Function.update c.thread t ([.leave id wait true] ++ rest)⟩ := by
  have hb := h.books
  have hlt : id < c.shared.next := hb.lt_next (h.first_fits ht).1
  have hkeeps : Keeps (c.shared.sessions id)
      { c.shared.sessions id with semaphore := some false } :=
    ⟨rfl, hb.waiters id, hb.nodup id, fun hactive => hactive⟩
  apply h.release ht
  · exact hb.set hkeeps hlt fun wait hwait => hb.wait id wait hwait
  · apply set_shift
    · exact fun _ hwait => hwait
    · exact fun _ => rfl
  · exact set_stands rfl
  · rfl
  · rfl
  · intro other hother
    have hne := hother.resolve_right nofun
    rw [set_of_ne _ _ hne]

theorem Inv.resume (h : Inv c) {f : Frame} (ht : c.thread t = [f] ++ rest)
    (hr : resume now c.shared rest f = some (s', l')) :
    Inv ⟨s', Function.update c.thread t l'⟩ := by
  cases f with
  | application =>
    obtain ⟨rfl, rfl⟩ := Prod.mk.inj (Option.some.inj hr)
    exact h.pop ht rfl rfl
  | notify registration =>
    obtain ⟨-, hr⟩ := Option.ite_none_left_eq_some.mp hr
    obtain ⟨rfl, rfl⟩ := Prod.mk.inj (Option.some.inj hr)
    exact h.notify ht
  | deliver id => exact h.deliver ht hr
  | post id =>
    obtain ⟨registration, hnotified⟩ := h.first_fits ht
    cases hr
    exact h.tell (b := []) ht (Or.inr rfl) hnotified nofun rfl rfl rfl
  | init config => exact h.init ht hr
  | initServers config i => exact h.initServers ht hr
  | start => exact h.start ht hr
  | startStop =>
    cases hr
    exact h.quiet (b := [_]) ht (Kept.client le_rfl) rfl (forall_mem_one trivial) rfl rfl rfl
  | begin => exact h.begin ht hr
  | deinit => exact h.deinit ht hr
  | deinitStop id =>
    cases hr
    exact h.quiet (b := [_]) ht (Kept.client le_rfl) rfl (forall_mem_one (h.first_fits ht)) rfl
      rfl rfl
  | deinitClear id =>
    cases hr
    exact h.quiet (b := [_]) ht (Kept.client (Nat.le_succ _)) rfl
      (forall_mem_one (h.first_fits ht)) rfl rfl rfl
  | deinitGive id =>
    obtain ⟨rfl, rfl⟩ := Prod.mk.inj (Option.some.inj hr)
    exact h.deinitGive ht
  | syncWait => exact h.syncWait ht hr
  | waiting id wait =>
    obtain ⟨-, hr⟩ := Option.ite_none_right_eq_some.mp hr
    obtain ⟨rfl, rfl⟩ := Prod.mk.inj (Option.some.inj hr)
    exact h.take ht
  | leave id wait taken =>
    obtain ⟨-, hr⟩ := Option.ite_none_left_eq_some.mp hr
    obtain ⟨rfl, rfl⟩ := Prod.mk.inj (Option.some.inj hr)
    exact h.leave ht

end Resume

/-- The section of `PublishTime` that reads the hook. -/
theorem Inv.publish {c : System} {t : ℕ} (h : Inv c) (delivery : ℕ) (unixUs : ℤ) :
    Inv ⟨(c.shared.publish delivery unixUs).1, Function.update c.thread t
      ((c.shared.publish delivery unixUs).2 ++ c.thread t)⟩ := by
  have hk : Kept c.shared
      { c.shared with sntp := (c.shared.sntp.publish delivery unixUs).1 } := Kept.client le_rfl
  have ht : c.thread t = [] ++ c.thread t := rfl
  unfold Shared.publish
  cases hhook : c.shared.sntp.client.callback with
  | none =>
    rw [show c.shared.sntp.publish delivery unixUs = (_, none) from Prod.ext rfl hhook]
    exact h.quiet (b := []) ht hk rfl nofun rfl rfl rfl
  | some hook =>
    rw [show c.shared.sntp.publish delivery unixUs = (_, some hook) from Prod.ext rfl hhook]
    dsimp only
    split
    · have hold := h.books.kept hk
      have hbooks := hold.record (e := .synchronized c.shared.sntp.client.registration) nofun nofun
        (hold.told.cons nofun (by rintro other (he | he) <;> cases he))
      refine h.go (b := [_]) ht hbooks (hk.shift.trans (record_shift _ _))
        (Or.inl ⟨rfl, fun _ => rfl⟩) ?_ (fun _ hs => hs) ?_ rfl rfl (h.held_keep ht rfl)
      · intro other hmem
        exact (List.mem_cons.mp hmem).resolve_left nofun
      · apply forall_mem_one
        exact List.mem_cons_self
    · exact h.quiet (b := [_]) ht hk rfl (forall_mem_one trivial) rfl rfl rfl

/-- A call that has not yet done anything. -/
theorem Inv.call {c : System} {t : ℕ} (h : Inv c) {f : Frame} (hfits : Fits c.shared f)
    (hwait : waits [f] = []) (hlock : locks [f] = 0) :
    Inv ⟨c.shared, Function.update c.thread t (f :: c.thread t)⟩ :=
  h.quiet (a := []) (b := [f]) rfl ⟨rfl, rfl, rfl, rfl, rfl, le_rfl⟩ rfl (forall_mem_one hfits)
    rfl hwait hlock

theorem inv_preserves (overridden : Bool) : Preserves (fire (step overridden)) Inv := by
  rintro c ⟨t, a⟩ c' hstep h
  obtain ⟨s', l', hp, rfl⟩ := fire_eq_some.mp hstep
  dsimp only at hp ⊢
  have hstay : Inv ⟨c.shared, Function.update c.thread t (c.thread t)⟩ :=
    h.quiet (a := []) (b := []) rfl ⟨rfl, rfl, rfl, rfl, rfl, le_rfl⟩ rfl nofun rfl rfl rfl
  cases a with
  | resume now =>
    cases hl : c.thread t with
    | nil =>
      rw [hl] at hp
      cases hp
    | cons f rest =>
      rw [hl] at hp
      exact h.resume hl hp
  | timeout =>
    cases hl : c.thread t with
    | nil =>
      rw [hl] at hp
      cases hp
    | cons f rest =>
      rw [hl] at hp
      cases f with
      | waiting id wait =>
        obtain ⟨rfl, rfl⟩ := Prod.mk.inj (Option.some.inj hp)
        have ht : c.thread t = [.waiting id wait] ++ rest := hl
        exact h.release ht h.books
          ⟨fun _ he => he, fun _ _ hw => hw, fun _ hs => hs⟩ ⟨rfl, fun _ => rfl⟩ rfl rfl
          fun _ _ => rfl
      | _ => cases hp
  | client e sl =>
    obtain ⟨-, hp⟩ := Option.ite_none_left_eq_some.mp hp
    obtain ⟨⟨sntp, sl'⟩, hsntp, heq⟩ := Option.map_eq_some_iff.mp hp
    obtain ⟨rfl, rfl⟩ := Prod.mk.inj heq
    exact h.quiet (a := []) (b := []) rfl (Kept.client (client_registration hsntp)) rfl nofun rfl
      rfl rfl
  | publish delivery unixUs =>
    obtain ⟨-, hp⟩ := Option.ite_none_right_eq_some.mp hp
    obtain ⟨rfl, rfl⟩ := Prod.mk.inj (Option.some.inj hp)
    exact h.publish delivery unixUs
  | init config =>
    obtain ⟨-, hp⟩ := Option.ite_none_right_eq_some.mp hp
    cases config with
    | none =>
      obtain ⟨rfl, rfl⟩ := Prod.mk.inj (Option.some.inj hp)
      exact hstay
    | some config =>
      dsimp only at hp
      split at hp
      · obtain ⟨rfl, rfl⟩ := Prod.mk.inj (Option.some.inj hp)
        exact h.call trivial rfl rfl
      · obtain ⟨rfl, rfl⟩ := Prod.mk.inj (Option.some.inj hp)
        exact hstay
  | _ =>
    obtain ⟨-, hp⟩ := Option.ite_none_right_eq_some.mp hp
    obtain ⟨rfl, rfl⟩ := Prod.mk.inj (Option.some.inj hp)
    exact h.call trivial rfl rfl

/-- A session is notified by a publication that read its own registration, and no more once it has
been ended; the callback and the event of a notification may come later. While a session that has
been ended is waited for, its semaphore is full, or a waiter that took it has still to leave. -/
theorem sessions_notified (overridden : Bool) {es : List (ℕ × Event)} {c : System}
    (hr : run (fire (step overridden)) start es = some c) :
    (∀ later earlier id registration,
      c.shared.history = later ++ .notified id registration :: earlier →
      .synchronized registration ∈ earlier ∧ .installed id registration ∈ earlier ∧
        .retired id ∉ earlier) ∧
    (∀ id other registration, .installed id registration ∈ c.shared.history →
      .installed other registration ∈ c.shared.history → id = other) ∧
    (∀ later earlier id, c.shared.history = later ++ .called id :: earlier ∨
      c.shared.history = later ++ .posted id :: earlier →
      ∃ registration, .notified id registration ∈ earlier) ∧
    ∀ id t wait, .retired id ∈ c.shared.history → .waiting id wait ∈ c.thread t →
      (c.shared.sessions id).semaphore = some true ∨
        ∃ u other, .leave id other true ∈ c.thread u := by
  have h : Inv c := (inv_preserves overridden).run hr start_inv
  refine ⟨h.books.told.1, fun id other registration hid hother => ?_, h.books.told.2, h.relayed⟩
  obtain ⟨hlt, hreg⟩ := (h.books.installed id registration).mp hid
  obtain ⟨hltother, hregother⟩ := (h.books.installed other registration).mp hother
  exact h.books.distinct id other hlt hltother (hreg.trans hregother.symm)

/-- One server, and a callback of the application. -/
def oneServer : Config := { numOfServers := 1, servers := [some "pool.ntp.org"], syncCb := some 1 }

def initialized : List (ℕ × Event) :=
  (1, .init (some oneServer)) :: List.replicate 6 (1, .resume 0)

/-- Two threads wait, the session is ended and the first waiter takes the semaphore. -/
def handedOn : List (ℕ × Event) :=
  initialized ++ [(2, .syncWait), (2, .resume 0), (3, .syncWait), (3, .resume 0), (1, .deinit)] ++
    List.replicate 4 (1, .resume 0) ++ [(2, .resume 0)]

theorem sessions_notified_handedOn :
    ∃ c, run (fire (step false)) start handedOn = some c ∧ c.thread 3 = [.waiting 0 1] ∧
      (c.shared.sessions 0).semaphore = some false ∧
        ((c.shared.sessions 0).semaphore = some true ∨
          ∃ u other, .leave 0 other true ∈ c.thread u) := by
  have hrun : (run (fire (step false)) start handedOn).map
      (fun c => (c.thread 3, (c.shared.sessions 0).semaphore, c.shared.history)) =
      some ([.waiting 0 1], some false, [.retired 0, .installed 0 1]) := by
    decide +kernel
  obtain ⟨c, hc, heq⟩ := Option.map_eq_some_iff.mp hrun
  obtain ⟨hthread, heq⟩ := Prod.mk.inj heq
  obtain ⟨hsemaphore, hhistory⟩ := Prod.mk.inj heq
  refine ⟨c, hc, hthread, hsemaphore, (sessions_notified false hc).2.2.2 0 3 1 ?_ ?_⟩
  · rw [hhistory]
    exact List.mem_cons_self
  · rw [hthread]
    exact List.mem_cons_self

/-- The session is ended between a notification and its callback. -/
def endedLate : List (ℕ × Event) :=
  initialized ++ [(0, .client (.syncTime 5000000) []), (0, .publish 0 5000000), (0, .resume 0),
    (1, .deinit)] ++ List.replicate 4 (1, .resume 0) ++ [(0, .resume 0)]

theorem endedLate_calls : ¬ ∀ (es : List (ℕ × Event)) (c : System),
    run (fire (step false)) start es = some c → ∀ later earlier id,
      c.shared.history = later ++ .called id :: earlier → .retired id ∉ earlier := by
  intro h
  have hrun : (run (fire (step false)) start endedLate).map (fun c => c.shared.history) =
      some [.called 0, .retired 0, .notified 0 1, .synchronized 1, .installed 0 1] := by
    decide +kernel
  obtain ⟨c, hc, heq⟩ := Option.map_eq_some_iff.mp hrun
  exact h endedLate c hc [] _ 0 heq List.mem_cons_self

end RooTesting.SntpNetif
