import RooTesting.SntpClient

/-! # The deliveries of the SNTP client

The counter of the client is the number of deliveries that were claimed and have not been
retired. A reset waits until there is none, and no delivery it has waited for publishes later. -/
namespace RooTesting.Sntp
open Transition Threads

/-- The claims that the destructors on a stack retire. -/
def retires (l : Local) : List ℕ :=
  l.filterMap fun f => match f with
    | .retire id => some id
    | _ => none

def Frame.resets : Frame → Bool
  | .drain | .clear => true
  | _ => false

def resets (l : Local) : ℕ := l.countP Frame.resets

/-- A publication is made inside the delivery it belongs to. -/
def Nested : Local → Prop
  | [] => True
  | .sync id _ :: rest => delivery rest = some id ∧ Nested rest
  | .publish id _ :: rest => delivery rest = some id ∧ Nested rest
  | _ :: rest => Nested rest

theorem delivery_mem {l : Local} {id : ℕ} (h : delivery l = some id) : id ∈ retires l := by
  induction l with
  | nil => cases h
  | cons f rest ih =>
    cases f with
    | retire other =>
      cases h
      exact List.mem_cons_self
    | _ => exact ih h

/-- No delivery that was claimed before a reset was still to publish after it. -/
def Cleared (inFlight : List ℕ) (history : List Entry) : Prop :=
  ∀ later earlier, history = later ++ .reset :: earlier →
    (∀ id ∈ inFlight, .claimed id ∉ earlier) ∧
      ∀ id unixUs, .published id unixUs ∈ later → .claimed id ∉ earlier

structure Books (s : Shared) : Prop where
  counted : s.client.deliveries = s.inFlight.length
  nodup : s.inFlight.Nodup
  claimed : ∀ id, .claimed id ∈ s.history → id < s.next
  retired : ∀ id, .retired id ∈ s.history → .claimed id ∈ s.history
  inFlight : ∀ id, id ∈ s.inFlight ↔ .claimed id ∈ s.history ∧ .retired id ∉ s.history
  cleared : Cleared s.inFlight s.history
  disabled : s.client.resetting = true → s.client.enabled = false

/-- What a thread has on its stack. -/
structure Sits (s : Shared) (l : Local) : Prop where
  nested : Nested l
  nodup : (retires l).Nodup
  inFlight : ∀ id ∈ retires l, id ∈ s.inFlight
  clear : .clear ∈ l → s.inFlight = []

structure Inv (c : System) : Prop where
  books : Books c.shared
  sits : ∀ t, Sits c.shared (c.thread t)
  apart : ∀ t u id, id ∈ retires (c.thread t) → id ∈ retires (c.thread u) → t = u
  reset : Held resets c.thread c.shared.client.resetting

theorem start_inv : Inv start where
  books := by
    constructor <;> simp [start, Cleared]
  sits t := by constructor <;> simp [start, Nested, retires]
  apart t u id h := by simp [start, retires] at h
  reset t := rfl

/-- The books stay as they are. -/
structure SameBooks (s s' : Shared) : Prop where
  deliveries : s'.client.deliveries = s.client.deliveries
  next : s'.next = s.next
  inFlight : s'.inFlight = s.inFlight
  history : s'.history = s.history

theorem Books.same {s s' : Shared} (h : Books s) (hs : SameBooks s s')
    (hdisabled : s'.client.resetting = true → s'.client.enabled = false) : Books s' where
  counted := by rw [hs.deliveries, hs.inFlight, h.counted]
  nodup := hs.inFlight ▸ h.nodup
  claimed := by
    rw [hs.history, hs.next]
    exact h.claimed
  retired := by
    rw [hs.history]
    exact h.retired
  inFlight := by
    rw [hs.history, hs.inFlight]
    exact h.inFlight
  cleared := by
    rw [hs.history, hs.inFlight]
    exact h.cleared
  disabled := hdisabled

/-- An entry that neither claims nor retires nor publishes a delivery. -/
def Entry.plain : Entry → Bool
  | .configured | .stopped | .restarted => true
  | _ => false

theorem Cleared.cons {inFlight : List ℕ} {history : List Entry} (h : Cleared inFlight history)
    {e : Entry} (hreset : e ≠ .reset)
    (hpub : ∀ id unixUs, e = .published id unixUs → id ∈ inFlight) :
    Cleared inFlight (e :: history) := by
  intro later earlier heq
  cases later with
  | nil =>
    rw [List.nil_append] at heq
    exact absurd (List.cons.inj heq).1 hreset
  | cons e' later =>
    rw [List.cons_append] at heq
    obtain ⟨rfl, htail⟩ := List.cons.inj heq
    obtain ⟨hflight, hpublished⟩ := h later earlier htail
    refine ⟨hflight, fun id unixUs hmem => ?_⟩
    rcases List.mem_cons.mp hmem with he | hmem
    · exact hflight id (hpub id unixUs he.symm)
    · exact hpublished id unixUs hmem

/-- One entry more that is about no claim. -/
theorem Books.record {s : Shared} (h : Books s) {e : Entry} (hclaimed : ∀ id, e ≠ .claimed id)
    (hretired : ∀ id, e ≠ .retired id) (hreset : e ≠ .reset)
    (hpub : ∀ id unixUs, e = .published id unixUs → id ∈ s.inFlight) : Books (s.record e) := by
  have hc : ∀ id, .claimed id ∈ e :: s.history ↔ .claimed id ∈ s.history := by
    intro id
    rw [List.mem_cons]
    exact or_iff_right (fun he => hclaimed id he.symm)
  have hr : ∀ id, .retired id ∈ e :: s.history ↔ .retired id ∈ s.history := by
    intro id
    rw [List.mem_cons]
    exact or_iff_right (fun he => hretired id he.symm)
  constructor
  · exact h.counted
  · exact h.nodup
  · intro id hid
    exact h.claimed id ((hc id).mp hid)
  · intro id hid
    exact (hc id).mpr (h.retired id ((hr id).mp hid))
  · intro id
    refine (h.inFlight id).trans ?_
    rw [Shared.record, hc, hr]
  · exact h.cleared.cons hreset hpub
  · exact h.disabled

theorem Books.claim {s : Shared} (h : Books s) : Books s.claim := by
  have hfresh : .claimed s.next ∉ s.history := fun hid => Nat.lt_irrefl _ (h.claimed _ hid)
  have hnever : .retired s.next ∉ s.history := fun hid => hfresh (h.retired _ hid)
  constructor
  · simp [Shared.claim, h.counted]
  · refine List.nodup_cons.mpr ⟨fun hid => ?_, h.nodup⟩
    exact hfresh ((h.inFlight _).mp hid).1
  · intro id hid
    rcases List.mem_cons.mp hid with he | hid
    · cases he
      exact Nat.lt_succ_self _
    · exact Nat.lt_succ_of_lt (h.claimed id hid)
  · intro id hid
    rcases List.mem_cons.mp hid with he | hid
    · cases he
    · exact List.mem_cons_of_mem _ (h.retired id hid)
  · intro id
    by_cases heq : id = s.next
    · subst heq
      simp [Shared.claim, hnever]
    · have hne : (Entry.claimed id) ≠ .claimed s.next := fun he => heq (Entry.claimed.inj he)
      simp [Shared.claim, heq, h.inFlight id]
  · have hold := h.cleared.cons (e := .claimed s.next) nofun nofun
    intro later earlier heq
    obtain ⟨hflight, hpublished⟩ := hold later earlier heq
    refine ⟨fun id hid => ?_, hpublished⟩
    rcases List.mem_cons.mp hid with rfl | hid
    · intro hmem
      cases later with
      | nil => cases heq
      | cons e later =>
        rw [List.cons_append] at heq
        have htail := (List.cons.inj heq).2
        apply hfresh
        rw [htail]
        exact List.mem_append_right _ (List.mem_cons_of_mem _ hmem)
    · exact hflight id hid
  · exact h.disabled

theorem Books.retire {s : Shared} (h : Books s) {id : ℕ} (hid : id ∈ s.inFlight) :
    Books (s.retire id) := by
  have hmem := (h.inFlight id).mp hid
  constructor
  · have := List.length_erase_of_mem hid
    have := List.length_pos_of_mem hid
    simp only [Shared.retire, h.counted]
    omega
  · exact h.nodup.erase id
  · intro other hother
    rcases List.mem_cons.mp hother with he | hother
    · cases he
    · exact h.claimed other hother
  · intro other hother
    rcases List.mem_cons.mp hother with he | hother
    · cases he
      exact List.mem_cons_of_mem _ hmem.1
    · exact List.mem_cons_of_mem _ (h.retired other hother)
  · intro other
    have herase := h.nodup.mem_erase_iff (a := other) (b := id)
    rw [Shared.retire]
    dsimp only
    rw [herase, h.inFlight other]
    by_cases heq : other = id
    · subst heq
      simp
    · simp [heq]
  · have hold := h.cleared.cons (e := .retired id) nofun nofun
    intro later earlier heq
    obtain ⟨hflight, hpublished⟩ := hold later earlier heq
    exact ⟨fun other hother => hflight other (List.mem_of_mem_erase hother), hpublished⟩
  · exact h.disabled

/-- The end of a reset that has found no delivery in flight. -/
theorem Books.clear {s : Shared} (h : Books s) (hnone : s.inFlight = [])
    (hdisabled : s.client.enabled = false) : Books s.clear := by
  constructor
  · exact h.counted
  · exact h.nodup
  · intro id hid
    exact h.claimed id ((List.mem_cons.mp hid).resolve_left nofun)
  · intro id hid
    exact List.mem_cons_of_mem _ (h.retired id ((List.mem_cons.mp hid).resolve_left nofun))
  · intro id
    refine (h.inFlight id).trans ?_
    simp [Shared.clear, Shared.record]
  · intro later earlier heq
    cases later with
    | nil =>
      refine ⟨fun id hid => ?_, nofun⟩
      rw [show s.clear.inFlight = [] from hnone] at hid
      cases hid
    | cons e later =>
      rw [List.cons_append] at heq
      obtain ⟨rfl, htail⟩ := List.cons.inj heq
      obtain ⟨hflight, hpublished⟩ := h.cleared later earlier htail
      refine ⟨hflight, fun id unixUs hmem => ?_⟩
      exact hpublished id unixUs ((List.mem_cons.mp hmem).resolve_left nofun)
  · intro _
    exact hdisabled

theorem Sits.congr {s s' : Shared} {l : Local} (h : Sits s l) (hs : s'.inFlight = s.inFlight) :
    Sits s' l :=
  ⟨h.nested, h.nodup, hs ▸ h.inFlight, fun hc => hs.trans (h.clear hc)⟩

/-- The frames below the top one. -/
theorem Sits.tail {s : Shared} {f : Frame} {rest : Local} (h : Sits s (f :: rest)) : Sits s rest := by
  have hretires : ∀ id ∈ retires rest, id ∈ retires (f :: rest) := by
    intro id hid
    cases f with
    | retire other => exact List.mem_cons_of_mem _ hid
    | _ => exact hid
  constructor
  · have := h.nested
    cases f with
    | sync id unixUs => exact this.2
    | publish id unixUs => exact this.2
    | _ => exact this
  · have := h.nodup
    cases f with
    | retire other => exact (List.nodup_cons.mp this).2
    | _ => exact this
  · exact fun id hid => h.inFlight id (hretires id hid)
  · exact fun hc => h.clear (List.mem_cons_of_mem _ hc)

/-- A frame that stands for no delivery of its own. -/
theorem Sits.push {s : Shared} {f : Frame} {rest : Local} (h : Sits s rest)
    (hnested : ∀ id unixUs, f = .sync id unixUs ∨ f = .publish id unixUs → delivery rest = some id)
    (hretire : ∀ id, f ≠ .retire id) (hclear : f = .clear → s.inFlight = []) :
    Sits s (f :: rest) := by
  have hretires : retires (f :: rest) = retires rest := by
    cases f with
    | retire id => exact absurd rfl (hretire id)
    | _ => rfl
  constructor
  · cases f with
    | sync id unixUs => exact ⟨hnested id unixUs (Or.inl rfl), h.nested⟩
    | publish id unixUs => exact ⟨hnested id unixUs (Or.inr rfl), h.nested⟩
    | _ => exact h.nested
  · rw [hretires]
    exact h.nodup
  · rw [hretires]
    exact h.inFlight
  · intro hc
    rcases List.mem_cons.mp hc with he | hc
    · exact hclear he.symm
    · exact h.clear hc

section Steps

variable {c : System} {t : ℕ} {s' : Shared} {l' : Local}

theorem Inv.move (h : Inv c) (hbooks : Books s') (hmine : Sits s' l')
    (hothers : ∀ u, u ≠ t → Sits s' (c.thread u))
    (hids : ∀ id ∈ retires l', id ∈ retires (c.thread t) ∨ id ∉ c.shared.inFlight)
    (hreset : Held resets (Function.update c.thread t l') s'.client.resetting) :
    Inv ⟨s', Function.update c.thread t l'⟩ := by
  have hfrom : ∀ {u id}, u ≠ t → id ∈ retires l' → id ∈ retires (c.thread u) → False := by
    intro u id hu hid hother
    rcases hids id hid with hold | hnew
    · exact hu (h.apart u t id hother hold)
    · exact hnew ((h.sits u).inFlight id hother)
  refine ⟨hbooks, fun u => ?_, fun u v id hu hv => ?_, hreset⟩
  · by_cases hut : u = t
    · subst hut
      simpa using hmine
    · simpa [Function.update_of_ne hut] using hothers u hut
  · by_cases hut : u = t <;> by_cases hvt : v = t
    · exact hut.trans hvt.symm
    · subst hut
      simp only [Function.update_self, Function.update_of_ne hvt] at hu hv
      exact (hfrom hvt hu hv).elim
    · subst hvt
      simp only [Function.update_self, Function.update_of_ne hut] at hu hv
      exact (hfrom hut hv hu).elim
    · simp only [Function.update_of_ne hut, Function.update_of_ne hvt] at hu hv
      exact h.apart u v id hu hv

/-- A step that leaves the deliveries alone. -/
theorem Inv.quiet (h : Inv c) (hbooks : Books s') (hflight : s'.inFlight = c.shared.inFlight)
    (hresetting : s'.client.resetting = c.shared.client.resetting) (hmine : Sits c.shared l')
    (hretires : ∀ id ∈ retires l', id ∈ retires (c.thread t))
    (hresets : resets l' = resets (c.thread t)) :
    Inv ⟨s', Function.update c.thread t l'⟩ := by
  apply h.move hbooks (hmine.congr hflight) (fun u _ => (h.sits u).congr hflight)
  · exact fun id hid => Or.inl (hretires id hid)
  · rw [hresetting]
    exact h.reset.keep hresets

theorem Inv.stay (h : Inv c) (hbooks : Books s') (hflight : s'.inFlight = c.shared.inFlight)
    (hresetting : s'.client.resetting = c.shared.client.resetting) :
    Inv ⟨s', Function.update c.thread t (c.thread t)⟩ :=
  h.quiet hbooks hflight hresetting (h.sits t) (fun _ => id) rfl

/-- Where the client is not being reset, no thread is about to end a reset. -/
theorem Inv.no_clear (h : Inv c) (hr : c.shared.client.resetting = false) (u : ℕ) :
    .clear ∉ c.thread u := by
  intro hmem
  have hheld := h.reset
  rw [hr] at hheld
  have hpos : 0 < resets (c.thread u) := List.countP_pos_iff.mpr ⟨_, hmem, rfl⟩
  have hzero := hheld u
  omega

/-- A delivery is claimed, and its destructor and its publication are to come. -/
theorem Inv.claim (h : Inv c) (hr : c.shared.client.resetting = false) {s : Shared}
    (hs : SameBooks c.shared s) (hsr : s.client.resetting = false) {f : Frame} (unixUs : ℤ)
    (hf : f = .sync s.next unixUs ∨ f = .publish s.next unixUs) :
    Inv ⟨s.claim, Function.update c.thread t (f :: .retire s.next :: c.thread t)⟩ := by
  have hbooks : Books s := h.books.same hs (fun hh => by rw [hsr] at hh; cases hh)
  have hfresh : s.next ∉ c.shared.inFlight := by
    intro hmem
    have := h.books.claimed _ ((h.books.inFlight _).mp hmem).1
    rw [hs.next] at this
    exact Nat.lt_irrefl _ this
  have hsits : ∀ u, Sits s.claim (c.thread u) := by
    intro u
    have hu := h.sits u
    refine ⟨hu.nested, hu.nodup, fun id hid => ?_, fun hc => absurd hc (h.no_clear hr u)⟩
    exact List.mem_cons_of_mem _ (hs.inFlight ▸ hu.inFlight id hid)
  have hretires : retires (f :: .retire s.next :: c.thread t) = s.next :: retires (c.thread t) := by
    rcases hf with rfl | rfl <;> rfl
  apply h.move hbooks.claim _ (fun u _ => hsits u)
  · intro id hid
    rw [hretires] at hid
    rcases List.mem_cons.mp hid with rfl | hid
    · exact Or.inr hfresh
    · exact Or.inl hid
  · have hheld := h.reset.keep (t := t) (l := f :: .retire s.next :: c.thread t) (by
      rcases hf with rfl | rfl <;> simp [resets, Frame.resets])
    rw [hr] at hheld
    rw [show s.claim.client.resetting = false from hsr]
    exact hheld
  · have hmine := hsits t
    constructor
    · rcases hf with rfl | rfl <;> exact ⟨rfl, hmine.nested⟩
    · rw [hretires]
      exact List.nodup_cons.mpr ⟨fun hid => hfresh ((h.sits t).inFlight _ hid), hmine.nodup⟩
    · rw [hretires]
      intro id hid
      rcases List.mem_cons.mp hid with rfl | hid
      · exact List.mem_cons_self
      · exact hmine.inFlight id hid
    · intro hc
      rcases hf with rfl | rfl <;> exact hmine.clear (by simpa using hc)

/-- The frame on top is done with, and the client is as it was. -/
theorem Inv.pop (h : Inv c) {f : Frame} {rest : Local} (ht : c.thread t = f :: rest)
    (hretire : ∀ id, f ≠ .retire id) (hresets : f.resets = false) (fs : Local)
    (hbooks : Books s') (hflight : s'.inFlight = c.shared.inFlight)
    (hresetting : s'.client.resetting = c.shared.client.resetting)
    (hfs : Sits c.shared (fs ++ rest)) (hids : retires fs = []) (hnone : resets fs = 0) :
    Inv ⟨s', Function.update c.thread t (fs ++ rest)⟩ := by
  apply h.quiet hbooks hflight hresetting hfs
  · intro id hid
    rw [retires, List.filterMap_append] at hid
    rw [ht]
    rcases List.mem_append.mp hid with hid | hid
    · rw [show List.filterMap _ fs = [] from hids] at hid
      cases hid
    · cases f with
      | retire other => exact absurd rfl (hretire other)
      | _ => exact hid
  · rw [ht, resets, List.countP_append, show List.countP _ fs = 0 from hnone, resets,
      List.countP_cons, hresets]
    simp

theorem Inv.first_sits (h : Inv c) {f : Frame} {rest : Local} (ht : c.thread t = f :: rest) :
    Sits c.shared (f :: rest) := by
  have hsits := h.sits t
  rwa [ht] at hsits

/-- `sntp_sync_time` is entered: the override of the application, or the section that publishes. -/
theorem Inv.sync (h : Inv c) {overridden : Bool} {id : ℕ} {unixUs : ℤ} {rest : Local}
    (ht : c.thread t = .sync id unixUs :: rest) (publishedUs : ℤ) :
    Inv ⟨c.shared, Function.update c.thread t
      ((if overridden then .override else .publish id publishedUs) :: rest)⟩ := by
  have hsits := h.first_sits ht
  have htail := hsits.tail
  refine h.pop ht nofun rfl [_] h.books rfl rfl ?_ ?_ ?_
  · cases overridden with
    | true => exact htail.push nofun nofun nofun
    | false =>
      refine htail.push (fun other u he => ?_) nofun nofun
      rcases he with he | he
      · cases he
      · cases he
        exact hsits.nested.1
  · cases overridden <;> rfl
  · cases overridden <;> rfl

/-- The section of `PublishTime` hands the callback over. -/
theorem Inv.publish (h : Inv c) {overridden : Bool} {id : ℕ} {unixUs : ℤ} {rest : Local}
    (ht : c.thread t = .publish id unixUs :: rest)
    (hr : Sntp.resume overridden c.shared rest (.publish id unixUs) = some (s', l')) :
    Inv ⟨s', Function.update c.thread t l'⟩ := by
  have hsits := h.first_sits ht
  have htail := hsits.tail
  obtain ⟨-, hr⟩ := Option.ite_none_right_eq_some.mp hr
  have hid : id ∈ c.shared.inFlight := htail.inFlight id (delivery_mem hsits.nested.1)
  have hbooks : Books (c.shared.publish id unixUs).1 := by
    apply Books.record
    · exact h.books.same ⟨rfl, rfl, rfl, rfl⟩ h.books.disabled
    · exact nofun
    · exact nofun
    · exact nofun
    · intro other u he
      cases he
      exact hid
  cases hcallback : c.shared.client.callback with
  | none =>
    rw [show c.shared.publish id unixUs = (_, none) from Prod.ext rfl hcallback] at hr
    obtain ⟨rfl, rfl⟩ := Prod.mk.inj (Option.some.inj hr)
    exact h.pop ht nofun rfl [] hbooks rfl rfl htail rfl rfl
  | some f =>
    rw [show c.shared.publish id unixUs = (_, some f) from Prod.ext rfl hcallback] at hr
    obtain ⟨rfl, rfl⟩ := Prod.mk.inj (Option.some.inj hr)
    exact h.pop ht nofun rfl [.callback f] hbooks rfl rfl (htail.push nofun nofun nofun) rfl rfl

/-- The delivery on top is retired; the others stay in flight. -/
theorem Inv.retire (h : Inv c) {id : ℕ} {rest : Local} (ht : c.thread t = .retire id :: rest) :
    Inv ⟨c.shared.retire id, Function.update c.thread t rest⟩ := by
  have hsits := h.first_sits ht
  have hmem : id ∈ retires (c.thread t) := by
    rw [ht]
    exact List.mem_cons_self
  have hid := (h.sits t).inFlight id hmem
  have hnotin : id ∉ retires rest := (List.nodup_cons.mp hsits.nodup).1
  have herase : ∀ {l : Local}, Sits c.shared l → id ∉ retires l → Sits (c.shared.retire id) l := by
    intro l hl hn
    refine ⟨hl.nested, hl.nodup, fun other hother => ?_, fun hc => ?_⟩
    · have hne : other ≠ id := by
        rintro rfl
        exact hn hother
      exact (List.mem_erase_of_ne hne).mpr (hl.inFlight other hother)
    · rw [Shared.retire]
      dsimp only
      rw [hl.clear hc]
      rfl
  apply h.move (h.books.retire hid) (herase hsits.tail hnotin)
  · intro u hu
    exact herase (h.sits u) fun hother => hu (h.apart u t id hother hmem)
  · intro other hother
    rw [ht]
    exact Or.inl (List.mem_cons_of_mem _ hother)
  · apply h.reset.keep
    rw [ht]
    rfl

/-- The reset looks again whether a delivery is under way. -/
theorem Inv.drain (h : Inv c) {rest : Local} (ht : c.thread t = .drain :: rest) :
    Inv ⟨c.shared, Function.update c.thread t
      ((if c.shared.client.deliveries = 0 then .clear else .drain) :: rest)⟩ := by
  have htail := (h.first_sits ht).tail
  have hempty : c.shared.client.deliveries = 0 → c.shared.inFlight = [] := by
    intro hzero
    have := h.books.counted
    rw [hzero] at this
    exact List.length_eq_zero_iff.mp (by omega)
  apply h.quiet h.books rfl rfl
  · split
    · rename_i hzero
      exact htail.push nofun nofun fun _ => hempty hzero
    · exact htail.push nofun nofun nofun
  · intro id hid
    rw [ht]
    split at hid <;> exact hid
  · rw [ht]
    split <;> rfl

/-- The reset ends, with no delivery in flight. -/
theorem Inv.clear (h : Inv c) {rest : Local} (ht : c.thread t = .clear :: rest) :
    Inv ⟨c.shared.clear, Function.update c.thread t rest⟩ := by
  have hsits := h.first_sits ht
  have hcount : resets (.clear :: rest) = resets rest + 1 := List.countP_cons_of_pos rfl
  have hpos : 0 < resets (c.thread t) := by
    rw [ht, hcount]
    exact Nat.succ_pos _
  have hresetting := h.reset.true_of_pos hpos
  have hempty : c.shared.inFlight = [] := hsits.clear List.mem_cons_self
  have hbooks := h.books.clear hempty (h.books.disabled hresetting)
  apply h.move hbooks (hsits.tail.congr rfl) (fun u _ => (h.sits u).congr rfl)
  · intro id hid
    rw [ht]
    exact Or.inl hid
  · have hone := h.reset.count_le_one t
    apply h.reset.release hpos
    rw [ht, hcount] at hone
    omega

theorem Inv.resume (h : Inv c) {overridden : Bool} {f : Frame} {rest : Local}
    (ht : c.thread t = f :: rest) (hr : resume overridden c.shared rest f = some (s', l')) :
    Inv ⟨s', Function.update c.thread t l'⟩ := by
  have htail := (h.first_sits ht).tail
  cases f with
  | sync id unixUs =>
    obtain ⟨rfl, rfl⟩ := Prod.mk.inj (Option.some.inj hr)
    exact h.sync ht _
  | publish id unixUs => exact h.publish ht hr
  | callback f =>
    obtain ⟨rfl, rfl⟩ := Prod.mk.inj (Option.some.inj hr)
    exact h.pop ht nofun rfl [] h.books rfl rfl htail rfl rfl
  | override =>
    obtain ⟨rfl, rfl⟩ := Prod.mk.inj (Option.some.inj hr)
    exact h.pop ht nofun rfl [] h.books rfl rfl htail rfl rfl
  | retire id =>
    obtain ⟨rfl, rfl⟩ := Prod.mk.inj (Option.some.inj hr)
    exact h.retire ht
  | drain =>
    cases hr
    exact h.drain ht
  | clear =>
    obtain ⟨rfl, rfl⟩ := Prod.mk.inj (Option.some.inj hr)
    exact h.clear ht

/-- A wake that claims has found the client enabled and its deadline reached. -/
theorem timerWake_cases {s : Shared} {now : ℤ} {host response : Option ℤ}
    (hr : s.timerWake now host = some (s', response)) :
    (response = none ∧ SameBooks s s' ∧ s'.client.resetting = s.client.resetting ∧
      s'.client.enabled = s.client.enabled ∧ s'.client.behavior = s.client.behavior) ∨
    ∃ value r, response = some value ∧ s.client.enabled = true ∧ s.client.deadline ≤ now ∧
      s' = r.claim ∧ SameBooks s r ∧ r.client.resetting = s.client.resetting ∧
      r.client.behavior = s.client.behavior := by
  unfold Shared.timerWake at hr
  split at hr
  · cases hr
    exact Or.inl ⟨rfl, ⟨rfl, rfl, rfl, rfl⟩, rfl, rfl, rfl⟩
  · rename_i hdue
    obtain ⟨client, hclient, heq⟩ := Option.map_eq_some_iff.mp hr
    obtain ⟨-, hclient⟩ := Option.ite_none_right_eq_some.mp hclient
    cases hclient
    obtain ⟨hs, hresponse⟩ := Prod.mk.inj heq
    rw [hresponse] at hs
    cases response with
    | none =>
      subst hs
      exact Or.inl ⟨rfl, ⟨rfl, rfl, rfl, rfl⟩, rfl, rfl, rfl⟩
    | some value =>
      subst hs
      refine Or.inr ⟨value, _, rfl, ?_, ?_, rfl, ⟨rfl, rfl, rfl, rfl⟩, rfl, rfl⟩
      · by_contra hno
        exact hdue (Or.inl (by simpa using hno))
      · by_contra hlt
        exact hdue (Or.inr (Int.not_le.mp hlt))

/-- A change of the configuration: the deliveries and the reset are left alone. -/
theorem Inv.change (h : Inv c) (hs : SameBooks c.shared s')
    (hresetting : s'.client.resetting = c.shared.client.resetting)
    (henabled : s'.client.resetting = true → s'.client.enabled = false) :
    Inv ⟨s', Function.update c.thread t (c.thread t)⟩ :=
  h.stay (h.books.same hs henabled) hs.inFlight hresetting

/-- The same with an entry that is about no claim. -/
theorem Inv.note (h : Inv c) {s : Shared} (hs : SameBooks c.shared s)
    (hresetting : s.client.resetting = c.shared.client.resetting)
    (henabled : s.client.resetting = true → s.client.enabled = false) {e : Entry}
    (he : e.plain = true) :
    Inv ⟨s.record e, Function.update c.thread t (c.thread t)⟩ := by
  refine h.stay ((h.books.same hs henabled).record ?_ ?_ ?_ ?_) hs.inFlight hresetting
  · rintro id rfl
    cases he
  · rintro id rfl
    cases he
  · rintro rfl
    cases he
  · rintro id unixUs rfl
    cases he

theorem scheduleLocked_eq {client client' : Client} {now delayUs : ℤ}
    (h : client.scheduleLocked now delayUs = some client') :
    client' = { client with deadline := now + delayUs } := by
  obtain ⟨-, h⟩ := Option.ite_none_right_eq_some.mp h
  exact (Option.some.inj h).symm

/-- The timer claims a delivery when the server has a response for it. -/
theorem Inv.timerWake (h : Inv c) {overridden : Bool} {now : ℤ} {host : Option ℤ}
    (hc : Sntp.call overridden c.shared (c.thread t) (.timerWake now host) = some (s', l')) :
    Inv ⟨s', Function.update c.thread t l'⟩ := by
  obtain ⟨-, hc⟩ := Option.ite_none_right_eq_some.mp hc
  obtain ⟨⟨s, response⟩, hr, heq⟩ := Option.map_eq_some_iff.mp hc
  rcases timerWake_cases hr with ⟨rfl, hs, hresetting, henabled, -⟩ |
      ⟨value, r, rfl, henabled, -, rfl, hs, hresetting, -⟩
  · cases heq
    refine h.change hs hresetting ?_
    rw [hresetting, henabled]
    exact h.books.disabled
  · have hno : c.shared.client.resetting = false := by
      by_contra hyes
      have := h.books.disabled (by simpa using hyes)
      rw [henabled] at this
      cases this
    have hclaim := h.claim (t := t) hno hs (hresetting.trans hno)
      (f := .sync r.next value) value (Or.inl rfl)
    rw [hs.next] at hclaim
    cases heq
    exact hclaim

/-- A synchronization of the application is part of the delivery that it is called from, or claims
one of its own. -/
theorem Inv.syncTime (h : Inv c) {overridden : Bool} {unixUs : ℤ}
    (hc : Sntp.call overridden c.shared (c.thread t) (.syncTime unixUs) = some (s', l')) :
    Inv ⟨s', Function.update c.thread t l'⟩ := by
  simp only [Sntp.call] at hc
  split at hc
  · cases hc
    exact h.quiet h.books rfl rfl ((h.sits t).push nofun nofun nofun) (fun _ => id)
      (List.countP_cons_of_neg nofun)
  · cases hd : delivery (c.thread t) with
    | some id =>
      rw [hd] at hc
      cases hc
      refine h.quiet h.books rfl rfl ((h.sits t).push (fun other u he => ?_) nofun nofun)
        (fun _ hmem => hmem) (List.countP_cons_of_neg nofun)
      rcases he with he | he
      · cases he
      · cases he
        exact hd
    | none =>
      rw [hd] at hc
      obtain ⟨hno, hc⟩ := Option.ite_none_left_eq_some.mp hc
      cases hc
      have hfalse : c.shared.client.resetting = false := by simpa using hno
      exact h.claim hfalse ⟨rfl, rfl, rfl, rfl⟩ hfalse unixUs (Or.inr rfl)

theorem Inv.init (h : Inv c) {now : ℤ} {s : Shared} (hs : c.shared.init now = some s) :
    Inv ⟨s, Function.update c.thread t (c.thread t)⟩ := by
  obtain ⟨hno, hs⟩ := Option.ite_none_left_eq_some.mp hs
  split at hs
  · cases hs
    exact h.change ⟨rfl, rfl, rfl, rfl⟩ rfl h.books.disabled
  · obtain ⟨client, hclient, rfl⟩ := Option.map_eq_some_iff.mp hs
    rw [scheduleLocked_eq hclient]
    exact h.change ⟨rfl, rfl, rfl, rfl⟩ rfl fun hyes => absurd hyes hno

theorem Inv.restart (h : Inv c) {now : ℤ} {s : Shared} (hs : c.shared.restart now = some s) :
    Inv ⟨s, Function.update c.thread t (c.thread t)⟩ := by
  obtain ⟨hno, hs⟩ := Option.ite_none_left_eq_some.mp hs
  split at hs
  · cases hs
    exact h.change ⟨rfl, rfl, rfl, rfl⟩ rfl h.books.disabled
  · obtain ⟨client, hclient, rfl⟩ := Option.map_eq_some_iff.mp hs
    have hs : SameBooks c.shared { c.shared with client := client } := by
      rw [scheduleLocked_eq hclient]
      exact ⟨rfl, rfl, rfl, rfl⟩
    have hresetting : client.resetting = c.shared.client.resetting := by
      rw [scheduleLocked_eq hclient]
    exact h.note (e := .restarted) hs hresetting (fun hyes => absurd (hresetting ▸ hyes) hno) rfl

theorem Inv.configureServer (h : Inv c) (b : ServerBehavior) (now : ℤ) :
    Inv ⟨(c.shared.configureServer b now).1, Function.update c.thread t (c.thread t)⟩ := by
  unfold Shared.configureServer
  split
  · exact h.change ⟨rfl, rfl, rfl, rfl⟩ rfl h.books.disabled
  · split
    · exact h.change ⟨rfl, rfl, rfl, rfl⟩ rfl h.books.disabled
    · have hs : SameBooks c.shared { c.shared with
          client := { c.shared.client with behavior := b, referenceUptime := now } } :=
        ⟨rfl, rfl, rfl, rfl⟩
      exact h.note (e := .configured) hs rfl h.books.disabled rfl

/-- The first section of a reset, from outside of any delivery. -/
theorem Inv.beginReset (h : Inv c) {overridden : Bool}
    (hc : Sntp.call overridden c.shared (c.thread t) .reset = some (s', l')) :
    Inv ⟨s', Function.update c.thread t l'⟩ := by
  obtain ⟨-, hc⟩ := Option.ite_none_right_eq_some.mp hc
  obtain ⟨s, hs, heq⟩ := Option.map_eq_some_iff.mp hc
  obtain ⟨rfl, rfl⟩ := Prod.mk.inj heq
  obtain ⟨hno, hs⟩ := Option.ite_none_left_eq_some.mp hs
  cases hs
  have hfalse : c.shared.client.resetting = false := by simpa using hno
  have hsame : SameBooks c.shared { c.shared with
      client := { c.shared.client with resetting := true }.stopLocked } := ⟨rfl, rfl, rfl, rfl⟩
  apply h.move (h.books.same hsame fun _ => rfl)
  · exact ((h.sits t).push (f := .drain) nofun nofun nofun).congr rfl
  · exact fun u _ => (h.sits u).congr rfl
  · exact fun id hid => Or.inl hid
  · have hheld := h.reset
    rw [hfalse] at hheld
    have hzero := hheld t
    apply hheld.acquire
    rw [resets, List.countP_cons]
    rw [resets] at hzero
    rw [hzero]
    rfl

theorem Inv.call (h : Inv c) {overridden : Bool} {a : Event}
    (hc : Sntp.call overridden c.shared (c.thread t) a = some (s', l')) :
    Inv ⟨s', Function.update c.thread t l'⟩ := by
  have hdisabled := h.books.disabled
  cases a with
  | timerWake now host => exact h.timerWake hc
  | syncTime unixUs => exact h.syncTime hc
  | init now =>
    obtain ⟨s, hs, heq⟩ := Option.map_eq_some_iff.mp hc
    obtain ⟨rfl, rfl⟩ := Prod.mk.inj heq
    exact h.init hs
  | stop =>
    cases hc
    have hs : SameBooks c.shared { c.shared with client := c.shared.client.stopLocked } :=
      ⟨rfl, rfl, rfl, rfl⟩
    exact h.note (e := .stopped) hs rfl (fun _ => rfl) rfl
  | restart now =>
    obtain ⟨s, hs, heq⟩ := Option.map_eq_some_iff.mp hc
    obtain ⟨rfl, rfl⟩ := Prod.mk.inj heq
    exact h.restart hs
  | configureServer b now =>
    cases hc
    exact h.configureServer b now
  | setServerName index value | setServer index value =>
    obtain ⟨s, hs, heq⟩ := Option.map_eq_some_iff.mp hc
    obtain ⟨-, hs⟩ := Option.ite_none_right_eq_some.mp hs
    cases hs
    cases heq
    exact h.change ⟨rfl, rfl, rfl, rfl⟩ rfl hdisabled
  | setSyncInterval value | setSyncStatus value | setCallback value | getSyncStatus =>
    cases hc
    exact h.change ⟨rfl, rfl, rfl, rfl⟩ rfl hdisabled
  | reset => exact h.beginReset hc
  | resume => cases hc

end Steps

theorem inv_preserves (overridden : Bool) : Preserves (fire (step overridden)) Inv := by
  rintro c ⟨t, a⟩ c' hstep h
  obtain ⟨s', l', hp, rfl⟩ := fire_eq_some.mp hstep
  dsimp only at hp ⊢
  cases a with
  | resume =>
    cases hl : c.thread t with
    | nil =>
      rw [hl] at hp
      cases hp
    | cons f rest =>
      rw [hl] at hp
      exact h.resume hl hp
  | _ => exact h.call (Option.ite_none_right_eq_some.mp hp).2

theorem configureServer_succeeds {s : Shared} {b : ServerBehavior} {now : ℤ}
    (h : (s.configureServer b now).2 = true) :
    s.client.enabled = false ∧ s.client.resetting = false ∧ s.client.deliveries = 0 := by
  unfold Shared.configureServer at h
  split at h
  · cases h
  · split at h
    · cases h
    · rename_i hidle
      push Not at hidle
      obtain ⟨henabled, hresetting, hdeliveries⟩ := hidle
      exact ⟨by simpa using henabled, by simpa using hresetting, hdeliveries⟩

/-- The behavior of the server is changed by a configuration only, and a delivery is claimed by a
wake that is due or by a synchronization outside of a delivery. -/
structure Restrained (s s' : Shared) (a : Event) : Prop where
  behavior : s'.client.behavior ≠ s.client.behavior →
    ∃ b now, a = .configureServer b now ∧ (s.configureServer b now).2 = true
  claim : s'.next ≠ s.next →
    (∃ now host, a = .timerWake now host ∧ s.client.enabled = true ∧ s.client.deadline ≤ now) ∨
      ∃ unixUs, a = .syncTime unixUs ∧ s.client.resetting = false

theorem Restrained.same {s s' : Shared} {a : Event}
    (hbehavior : s'.client.behavior = s.client.behavior) (hnext : s'.next = s.next) :
    Restrained s s' a :=
  ⟨fun h => absurd hbehavior h, fun h => absurd hnext h⟩

theorem call_restrained {overridden : Bool} {s s' : Shared} {l l' : Local} {a : Event}
    (hc : call overridden s l a = some (s', l')) : Restrained s s' a := by
  cases a with
  | timerWake now host =>
    obtain ⟨-, hc⟩ := Option.ite_none_right_eq_some.mp hc
    obtain ⟨⟨r, response⟩, hr, heq⟩ := Option.map_eq_some_iff.mp hc
    rcases timerWake_cases hr with ⟨rfl, hs, -, -, hbehavior⟩ |
        ⟨value, r, rfl, henabled, hdue, rfl, hs, -, hbehavior⟩
    · cases heq
      exact Restrained.same hbehavior hs.next
    · cases heq
      constructor
      · exact fun hne => absurd hbehavior hne
      · exact fun _ => Or.inl ⟨now, host, rfl, henabled, hdue⟩
  | syncTime unixUs =>
    simp only [Sntp.call] at hc
    split at hc
    · cases hc
      exact Restrained.same rfl rfl
    · split at hc
      · cases hc
        exact Restrained.same rfl rfl
      · obtain ⟨hno, hc⟩ := Option.ite_none_left_eq_some.mp hc
        cases hc
        constructor
        · exact fun hne => absurd rfl hne
        · exact fun _ => Or.inr ⟨unixUs, rfl, by simpa using hno⟩
  | init now | restart now =>
    obtain ⟨r, hs, heq⟩ := Option.map_eq_some_iff.mp hc
    obtain ⟨rfl, rfl⟩ := Prod.mk.inj heq
    obtain ⟨-, hs⟩ := Option.ite_none_left_eq_some.mp hs
    split at hs
    · cases hs
      exact Restrained.same rfl rfl
    · obtain ⟨client, hclient, rfl⟩ := Option.map_eq_some_iff.mp hs
      rw [scheduleLocked_eq hclient]
      exact Restrained.same rfl rfl
  | configureServer b now =>
    cases hc
    constructor
    · intro hne
      refine ⟨b, now, rfl, ?_⟩
      revert hne
      unfold Shared.configureServer
      split
      · exact fun hne => absurd rfl hne
      · split
        · exact fun hne => absurd rfl hne
        · exact fun _ => rfl
    · intro hne
      revert hne
      unfold Shared.configureServer
      split
      · exact fun hne => absurd rfl hne
      · split <;> exact fun hne => absurd rfl hne
  | setServerName index value | setServer index value =>
    obtain ⟨r, hs, heq⟩ := Option.map_eq_some_iff.mp hc
    obtain ⟨-, hs⟩ := Option.ite_none_right_eq_some.mp hs
    cases hs
    cases heq
    exact Restrained.same rfl rfl
  | reset =>
    obtain ⟨-, hc⟩ := Option.ite_none_right_eq_some.mp hc
    obtain ⟨r, hs, heq⟩ := Option.map_eq_some_iff.mp hc
    obtain ⟨rfl, rfl⟩ := Prod.mk.inj heq
    obtain ⟨-, hs⟩ := Option.ite_none_left_eq_some.mp hs
    cases hs
    exact Restrained.same rfl rfl
  | resume => cases hc
  | _ =>
    cases hc
    exact Restrained.same rfl rfl

/-- No call in progress claims, and only the end of a reset touches the behavior. -/
theorem resume_restrained {overridden : Bool} {s s' : Shared} {l' rest : Local} {f : Frame}
    (hr : resume overridden s rest f = some (s', l')) :
    s'.next = s.next ∧ (s'.client.behavior ≠ s.client.behavior → f = .clear) := by
  cases f with
  | publish id unixUs =>
    obtain ⟨-, hr⟩ := Option.ite_none_right_eq_some.mp hr
    cases hcallback : s.client.callback with
    | none =>
      rw [show s.publish id unixUs = (_, none) from Prod.ext rfl hcallback] at hr
      obtain ⟨rfl, rfl⟩ := Prod.mk.inj (Option.some.inj hr)
      exact ⟨rfl, fun hne => absurd rfl hne⟩
    | some g =>
      rw [show s.publish id unixUs = (_, some g) from Prod.ext rfl hcallback] at hr
      obtain ⟨rfl, rfl⟩ := Prod.mk.inj (Option.some.inj hr)
      exact ⟨rfl, fun hne => absurd rfl hne⟩
  | clear =>
    cases hr
    exact ⟨rfl, fun _ => rfl⟩
  | _ =>
    cases hr
    exact ⟨rfl, fun hne => absurd rfl hne⟩

section Reachable

variable {overridden : Bool} {c : System}

theorem Inv.inFlight_eq_nil (h : Inv c) (hzero : c.shared.client.deliveries = 0) :
    c.shared.inFlight = [] := by
  have hcounted := h.books.counted
  rw [hzero] at hcounted
  exact List.length_eq_zero_iff.mp (by omega)

theorem Inv.idle (h : Inv c) {b : ServerBehavior} {now : ℤ}
    (hb : (c.shared.configureServer b now).2 = true) :
    c.shared.client.enabled = false ∧ c.shared.client.resetting = false ∧
      c.shared.inFlight = [] := by
  obtain ⟨henabled, hresetting, hzero⟩ := configureServer_succeeds hb
  exact ⟨henabled, hresetting, h.inFlight_eq_nil hzero⟩

theorem Inv.behavior (h : Inv c) {a : ℕ × Event} {c' : System}
    (hstep : fire (step overridden) c a = some c')
    (hne : c'.shared.client.behavior ≠ c.shared.client.behavior) :
    c.shared.client.enabled = false ∧ c.shared.inFlight = [] := by
  obtain ⟨t, a⟩ := a
  obtain ⟨s', l', hp, rfl⟩ := fire_eq_some.mp hstep
  dsimp only at hp hne
  have hcall : Sntp.call overridden c.shared (c.thread t) a = some (s', l') →
      c.shared.client.enabled = false ∧ c.shared.inFlight = [] := by
    intro hc
    obtain ⟨b, now, -, hb⟩ := (call_restrained hc).behavior hne
    obtain ⟨henabled, -, hflight⟩ := h.idle hb
    exact ⟨henabled, hflight⟩
  cases a with
  | resume =>
    cases hl : c.thread t with
    | nil =>
      rw [hl] at hp
      cases hp
    | cons f rest =>
      rw [hl] at hp
      have hclear := (resume_restrained hp).2 hne
      subst hclear
      have hflight : c.shared.inFlight = [] := by
        apply (h.sits t).clear
        rw [hl]
        exact List.mem_cons_self
      have hpos : 0 < resets (c.thread t) := by
        rw [hl]
        exact List.countP_pos_iff.mpr ⟨_, List.mem_cons_self, rfl⟩
      exact ⟨h.books.disabled (h.reset.true_of_pos hpos), hflight⟩
  | _ => exact hcall (Option.ite_none_right_eq_some.mp hp).2

theorem claim_cases {a : ℕ × Event} {c' : System} (hstep : fire (step overridden) c a = some c')
    (hne : c'.shared.next ≠ c.shared.next) :
    (∃ now host, a.2 = .timerWake now host ∧ c.shared.client.enabled = true ∧
      c.shared.client.deadline ≤ now) ∨
      ∃ unixUs, a.2 = .syncTime unixUs ∧ c.shared.client.resetting = false := by
  obtain ⟨t, a⟩ := a
  obtain ⟨s', l', hp, rfl⟩ := fire_eq_some.mp hstep
  dsimp only at hp hne ⊢
  cases a with
  | resume =>
    cases hl : c.thread t with
    | nil =>
      rw [hl] at hp
      cases hp
    | cons f rest =>
      rw [hl] at hp
      exact absurd (resume_restrained hp).1 hne
  | _ => exact (call_restrained (Option.ite_none_right_eq_some.mp hp).2).claim hne

end Reachable

/-- The client counts the deliveries claimed and not retired, and a decrement finds one to
retire. The server is reconfigured only where the client is disabled and none is in flight. No
delivery claimed before the return of a reset publishes after it; a stop and a restart only bind
the wakes that are to claim. -/
theorem deliveries_accounted (overridden : Bool) {es : List (ℕ × Event)} {c : System}
    (hr : run (fire (step overridden)) start es = some c) :
    c.shared.client.deliveries = c.shared.inFlight.length ∧ c.shared.inFlight.Nodup ∧
    (∀ id, id ∈ c.shared.inFlight ↔
      .claimed id ∈ c.shared.history ∧ .retired id ∉ c.shared.history) ∧
    (∀ t id rest, c.thread t = .retire id :: rest → 1 ≤ c.shared.client.deliveries) ∧
    (∀ b now, (c.shared.configureServer b now).2 = true →
      c.shared.client.enabled = false ∧ c.shared.client.resetting = false ∧
        c.shared.inFlight = []) ∧
    (∀ later earlier, c.shared.history = later ++ .reset :: earlier →
      ∀ id unixUs, .published id unixUs ∈ later → .claimed id ∉ earlier) ∧
    ∀ a c', fire (step overridden) c a = some c' →
      (c'.shared.client.behavior ≠ c.shared.client.behavior →
        c.shared.client.enabled = false ∧ c.shared.inFlight = []) ∧
      (c'.shared.next ≠ c.shared.next →
        (∃ now host, a.2 = .timerWake now host ∧ c.shared.client.enabled = true ∧
          c.shared.client.deadline ≤ now) ∨
        ∃ unixUs, a.2 = .syncTime unixUs ∧ c.shared.client.resetting = false) := by
  have h : Inv c := (inv_preserves overridden).run hr start_inv
  refine ⟨h.books.counted, h.books.nodup, h.books.inFlight, ?_, fun b now => h.idle,
    fun later earlier heq => (h.books.cleared later earlier heq).2,
    fun a c' hstep => ⟨h.behavior hstep, claim_cases hstep⟩⟩
  intro t id rest ht
  have hmem : id ∈ c.shared.inFlight := by
    apply (h.sits t).inFlight
    rw [ht]
    exact List.mem_cons_self
  have := List.length_pos_of_mem hmem
  rw [h.books.counted]
  omega

/-- The timer thread claims and delivers a response, and a test resets the client. -/
def drained : List (ℕ × Event) :=
  [(1, .setServer 0 1), (1, .init 0), (0, .timerWake 100000 (some 5000000)), (1, .reset),
   (1, .resume), (0, .resume), (0, .resume), (0, .resume), (1, .resume), (1, .resume)]

theorem deliveries_accounted_drained :
    ∃ c, run (fire (step false)) start drained = some c ∧
      c.shared.history = [.reset, .retired 0, .published 0 5000000, .claimed 0] ∧
      c.shared.client.deliveries = c.shared.inFlight.length := by
  have hrun : (run (fire (step false)) start drained).map (fun c => c.shared.history) =
      some [.reset, .retired 0, .published 0 5000000, .claimed 0] := by
    decide +kernel
  obtain ⟨c, hc, heq⟩ := Option.map_eq_some_iff.mp hrun
  exact ⟨c, hc, heq, (deliveries_accounted false hc).1⟩

/-- The client is stopped between the claim of a delivery and its publication. -/
def stoppedLate : List (ℕ × Event) :=
  [(1, .setServer 0 1), (1, .init 0), (0, .timerWake 100000 (some 5000000)), (1, .stop),
   (0, .resume), (0, .resume)]

theorem stoppedLate_publishes : ¬ ∀ (es : List (ℕ × Event)) (c : System),
    run (fire (step false)) start es = some c → ∀ later earlier,
      c.shared.history = later ++ .stopped :: earlier →
        ∀ id unixUs, .published id unixUs ∈ later → .claimed id ∉ earlier := by
  intro h
  have hrun : (run (fire (step false)) start stoppedLate).map (fun c => c.shared.history) =
      some [.published 0 5000000, .stopped, .claimed 0] := by
    decide +kernel
  obtain ⟨c, hc, heq⟩ := Option.map_eq_some_iff.mp hrun
  exact h stoppedLate c hc [.published 0 5000000] [.claimed 0] heq 0 5000000
    List.mem_cons_self List.mem_cons_self

end RooTesting.Sntp
