import RooTesting.InterruptSections

/-! # No lost and no spurious interrupt

A due slot is behind a request of the port, behind an operation that is about to make one,
or before a dispatcher that has yet to reach it. A registration is changed through its own
handle only, and a slot without an unused generation stays as it is. -/
namespace RooTesting.InterruptController
open Transition Threads

/-- The frame will request a dispatch, or is one that is still to come by the due slot. -/
def Frame.serves (i : ℕ) : Frame → Bool
  | .request => true
  | .scan slot dispatched => slot ≤ i || dispatched
  | .examine slot dispatched state => slot < i || dispatched || (slot = i && due state)
  | .invoke .. => true
  | _ => false

def Covers (s : Shared) (l : Local) (i : ℕ) : Prop :=
  s.requested = true ∨ ∃ f ∈ l, f.serves i = true

def Served (c : System) : Prop :=
  ∀ i, i < kInterruptCapacity → due (c.shared.word i) = true →
    c.shared.requested = true ∨ ∃ t, ∃ f ∈ c.thread t, f.serves i = true

section Serving

variable {s : Shared} {rest : Local} {i : ℕ}

theorem Covers.push {l : Local} (h : Covers s l i) (r : Local) : Covers s (r ++ l) i := by
  rcases h with h | ⟨f, hf, hs⟩
  · exact Or.inl h
  · exact Or.inr ⟨f, List.mem_append_right r hf, hs⟩

theorem covers_top {f : Frame} (hf : f.serves i = true) : Covers s (f :: rest) i :=
  Or.inr ⟨f, List.mem_cons_self, hf⟩

/-- An operation that makes a slot due asks for a dispatch. -/
theorem Update.requests_of_due {op : Update} {state : Word} (h : due (op.apply state) = true) :
    op.requests (op.apply state) = true := by
  simp only [due_eq, Bool.and_eq_true] at h
  cases op with
  | enable => exact h.2
  | disable =>
    obtain ⟨-, -, he, -⟩ := and_not_mask_spec state (i := 1) (by omega)
    have hoff : enabled (Update.apply state .disable) = false := he.trans (Bool.and_false _)
    exact absurd (hoff.symm.trans h.1.2) Bool.false_ne_true
  | setPending => exact h.1.2

theorem not_due_of_pending {state : Word} (h : pending state = false) : due state = false := by
  simp [due_eq, h]

theorem word_setSlot {j : ℕ} {v : Slot} (hv : v.state = s.word j) :
    (s.setSlot j v).word i = s.word i := by
  by_cases hi : i = j
  · subst hi
    exact (congrArg Slot.state (slots_setSlot_self ..)).trans hv
  · exact congrArg Slot.state (slots_setSlot_of_ne s j v hi)

/-- A step that leaves the slot as it is hands on what its frame was to serve. -/
theorem covers_keep {f : Frame} {s' : Shared} (l : Local)
    (hcovers : due (s.word i) = true → Covers s (f :: rest) i)
    (hdue : due (s'.word i) = true) (hword : s'.word i = s.word i)
    (hrequested : s'.requested = s.requested)
    (hserves : f.serves i = true → ∃ g ∈ l, g.serves i = true) : Covers s' (l ++ rest) i := by
  rcases hcovers (hword ▸ hdue) with hr | ⟨g, hg, hs⟩
  · exact Or.inl (hrequested.trans hr)
  · rcases List.mem_cons.mp hg with rfl | hg
    · obtain ⟨k, hk, hs⟩ := hserves hs
      exact Or.inr ⟨k, List.mem_append_left rest hk, hs⟩
    · exact Or.inr ⟨g, List.mem_append_right l hg, hs⟩

/-- A step leaves no slot unserved that it makes due, or that its frame was to serve. -/
theorem covers_resume (hi : i < kInterruptCapacity) (f : Frame) (spurious : Bool)
    (hdue : due ((resume s rest spurious f).1.word i) = true)
    (hcovers : due (s.word i) = true → Covers s (f :: rest) i) :
    Covers (resume s rest spurious f).1 (resume s rest spurious f).2 i := by
  have idle : ∀ {l : Local}, f.serves i = false → f.serves i = true → ∃ g ∈ l, g.serves i = true :=
    fun h h' => absurd (h.symm.trans h') Bool.false_ne_true
  cases f with
  | load op handle => exact covers_keep [_] hcovers hdue rfl rfl (idle rfl)
  | swap op handle state =>
    rw [resume] at hdue ⊢
    rcases swap_cases s rest op handle state spurious with hs | hs | ⟨-, hs⟩
    · rw [hs] at hdue ⊢
      exact covers_keep [] hcovers hdue rfl rfl (idle rfl)
    · rw [hs] at hdue ⊢
      exact covers_keep [_] hcovers hdue rfl rfl (idle rfl)
    · rw [hs] at hdue ⊢
      by_cases hrequests : op.requests (op.apply (s.word handle.slot)) = true
      · rw [if_pos hrequests]
        exact covers_top rfl
      · have hne : i ≠ handle.slot := by
          rintro rfl
          rw [word_update_self] at hdue
          exact hrequests (Update.requests_of_due hdue)
        have hword := word_update_of_ne s op hne
        exact covers_keep _ hcovers hdue hword (update_flags s op handle).2.2 (idle rfl)
  | request => exact Or.inl rfl
  | register slot handler argument initiallyEnabled =>
    revert hdue
    simp only [resume, register]
    split
    · exact fun hdue => covers_keep [] hcovers hdue rfl rfl (idle rfl)
    · split <;> exact fun hdue => covers_keep [_] hcovers hdue rfl rfl (idle rfl)
  | storeHandler slot g handler argument initiallyEnabled =>
    exact covers_keep [_] hcovers hdue (word_setSlot rfl) rfl (idle rfl)
  | storeArgument slot g handler argument initiallyEnabled =>
    exact covers_keep [_] hcovers hdue (word_setSlot rfl) rfl (idle rfl)
  | storeState slot g handler argument initiallyEnabled =>
    have hne : i ≠ slot := by
      rintro rfl
      have hnot := not_due_of_pending (registered_spec g initiallyEnabled).2.2
      simp [resume, Shared.record, Shared.word, Shared.setWord, hnot] at hdue
    exact covers_keep [] hcovers hdue (word_setWord_of_ne s slot hne _) rfl (idle rfl)
  | unregisterLoad handle => exact covers_keep [_] hcovers hdue rfl rfl (idle rfl)
  | unregister handle state =>
    rw [resume] at hdue ⊢
    rcases unregister_cases s rest handle state spurious with hs | hs | ⟨-, hs⟩
    · rw [hs] at hdue ⊢
      exact covers_keep [] hcovers hdue rfl rfl (idle rfl)
    · rw [hs] at hdue ⊢
      exact covers_keep [_] hcovers hdue rfl rfl (idle rfl)
    · rw [hs] at hdue ⊢
      have hne : i ≠ handle.slot := by
        rintro rfl
        rw [word_record, word_setWord_self,
          not_due_of_pending (unregistered_spec handle.generation).2.2] at hdue
        exact Bool.false_ne_true hdue
      exact covers_keep [_] hcovers hdue (word_setWord_of_ne s _ hne _) rfl (idle rfl)
  | clearHandler handle => exact covers_keep [_] hcovers hdue (word_setSlot rfl) rfl (idle rfl)
  | clearArgument handle => exact covers_keep [] hcovers hdue (word_setSlot rfl) rfl (idle rfl)
  | scan slot dispatched =>
    revert hdue
    simp only [resume, scan]
    split <;> rename_i hslot
    · intro hdue
      refine covers_keep [_] hcovers hdue rfl rfl fun hs => ⟨_, List.mem_singleton_self _, ?_⟩
      simp only [Frame.serves, Bool.or_eq_true, decide_eq_true_eq, Bool.and_eq_true] at hs ⊢
      rcases hs with hle | hd
      · rcases Nat.lt_or_eq_of_le hle with hlt | rfl
        · exact Or.inl (Or.inl hlt)
        · exact Or.inr ⟨rfl, hdue⟩
      · exact Or.inl (Or.inr hd)
    · split
      · exact fun hdue => covers_keep [.scan 0 false] hcovers hdue rfl rfl fun _ =>
          ⟨_, List.mem_singleton_self _, by simp [Frame.serves]⟩
      · rename_i hd
        have hnot : (Frame.scan slot dispatched).serves i = false := by
          simp only [Frame.serves, hd, Bool.or_false, decide_eq_false_iff_not]
          omega
        exact fun hdue => covers_keep [] hcovers hdue rfl rfl (idle hnot)
  | examine slot dispatched state =>
    rw [resume] at hdue ⊢
    rcases examine_cases s rest slot dispatched state spurious with
      ⟨hstate, hs⟩ | hs | ⟨-, hs⟩
    · rw [hs] at hdue ⊢
      refine covers_keep [_] hcovers hdue rfl rfl fun hs => ⟨_, List.mem_singleton_self _, ?_⟩
      simp only [Frame.serves, hstate, Bool.or_eq_true, decide_eq_true_eq, Bool.and_false,
        Bool.or_false] at hs ⊢
      exact hs
    · rw [hs] at hdue ⊢
      refine covers_keep [_] hcovers hdue rfl rfl fun hs => ⟨_, List.mem_singleton_self _, ?_⟩
      simp only [Frame.serves, Bool.or_eq_true, decide_eq_true_eq, Bool.and_eq_true] at hs ⊢
      refine hs.imp_right fun h => ⟨h.1, ?_⟩
      rw [h.1]
      exact hdue
    · rw [hs]
      exact covers_top rfl
  | invoke slot g =>
    revert hdue
    simp only [resume]
    split
    · exact fun hdue => covers_keep [.scan (slot + 1) true] hcovers hdue rfl rfl fun _ =>
        ⟨_, List.mem_singleton_self _, by simp [Frame.serves]⟩
    · exact fun hdue => covers_keep [.running, .scan (slot + 1) true] hcovers hdue rfl rfl fun _ =>
        ⟨.scan (slot + 1) true, by simp, by simp [Frame.serves]⟩
  | running => exact covers_keep [] hcovers hdue rfl rfl (idle rfl)

end Serving

section Changes

/-- What a step with the frame `f` on top can make of slot `i`. -/
inductive Change (i : ℕ) (f : Frame) : Slot → Slot → Prop
  | same (v : Slot) : Change i f v v
  | update (v : Slot) (op : Update) (handle : Handle) (state : Word)
      (hf : f = .swap op handle state) (hi : i = handle.slot)
      (hm : matchesHandle v.state handle = true) : Change i f v { v with state := op.apply v.state }
  | unregister (v : Slot) (handle : Handle) (state : Word) (hf : f = .unregister handle state)
      (hi : i = handle.slot) (hm : matchesHandle v.state handle = true) :
      Change i f v { v with state := stateWithGeneration handle.generation 0 }
  | hidden (v w : Slot) (hv : allocated v.state = false) (hw : w.state = v.state) : Change i f v w
  | register (v : Slot) (initiallyEnabled : Bool) (hv : allocated v.state = false)
      (hunused : hasUnusedGeneration v.state = true) :
      Change i f v { v with state := registered (generation v.state + 1) initiallyEnabled }
  | claim (v : Slot) (dispatched : Bool) (state : Word) (hf : f = .examine i dispatched state)
      (hdue : due v.state = true) : Change i f v { v with state := claimed v.state }

variable {c : System} {t : ℕ} {rest : Local} {f : Frame}

theorem change_setSlot {s : Shared} {j : ℕ} {v : Slot} (h : Change j f (s.slots j) v) (i : ℕ) :
    Change i f (s.slots i) ((s.setSlot j v).slots i) := by
  by_cases hi : i = j
  · subst hi
    rwa [slots_setSlot_self]
  · rw [slots_setSlot_of_ne s j v hi]
    exact .same _

theorem change_resume (h : Inv c) (ht : c.thread t = f :: rest) (spurious : Bool) (i : ℕ) :
    Change i f (c.shared.slots i) ((resume c.shared rest spurious f).1.slots i) := by
  have hfits := h.fits t f (by simp [ht])
  cases f with
  | swap op handle state =>
    rw [resume]
    rcases swap_cases c.shared rest op handle state spurious with hs | hs | ⟨hm, hs⟩
    · rw [hs]
      exact .same _
    · rw [hs]
      exact .same _
    · rw [hs]
      have hslots : (c.shared.update op handle).slots =
          (c.shared.setWord handle.slot (op.apply (c.shared.word handle.slot))).slots := by
        rw [Shared.update]
        split <;> rfl
      simp only [hslots]
      exact change_setSlot (.update _ op handle state rfl rfl hm) i
  | register slot handler argument initiallyEnabled =>
    simp only [resume, register]
    split
    · exact .same _
    · split <;> exact .same _
  | storeHandler slot g handler argument initiallyEnabled =>
    refine change_setSlot (.hidden _ _ hfits.1 ?_) i
    rfl
  | storeArgument slot g handler argument initiallyEnabled =>
    refine change_setSlot (.hidden _ _ hfits.1 ?_) i
    rfl
  | storeState slot g handler argument initiallyEnabled =>
    obtain ⟨hallocated, hunused, rfl, -⟩ := hfits
    exact change_setSlot (.register _ initiallyEnabled hallocated hunused) i
  | unregister handle state =>
    rw [resume]
    rcases unregister_cases c.shared rest handle state spurious with hs | hs | ⟨hm, hs⟩
    · rw [hs]
      exact .same _
    · rw [hs]
      exact .same _
    · rw [hs]
      exact change_setSlot (.unregister _ handle state rfl rfl hm) i
  | clearHandler handle =>
    refine change_setSlot (.hidden _ _ hfits ?_) i
    rfl
  | clearArgument handle =>
    refine change_setSlot (.hidden _ _ hfits ?_) i
    rfl
  | scan slot dispatched =>
    simp only [resume, scan]
    split
    · exact .same _
    · split <;> exact .same _
  | examine slot dispatched state =>
    rw [resume]
    rcases examine_cases c.shared rest slot dispatched state spurious with
      ⟨-, hs⟩ | hs | ⟨hdue, hs⟩
    · rw [hs]
      exact .same _
    · rw [hs]
      exact .same _
    · rw [hs]
      exact change_setSlot (.claim _ dispatched state rfl hdue) i
  | invoke slot g =>
    simp only [resume]
    split <;> exact .same _
  | load | request | unregisterLoad | running => exact .same _

/-- The registration that an operation in progress was called for. -/
def Frame.handle : Frame → Option Handle
  | .load _ handle | .swap _ handle _ => some handle
  | .unregisterLoad handle | .unregister handle _ => some handle
  | .clearHandler handle | .clearArgument handle => some handle
  | _ => none

/-- A registered slot changes through its own handle, or when the dispatcher claims it. -/
theorem Change.of_allocated {i : ℕ} {v w : Slot} (h : Change i f v w)
    (hv : allocated v.state = true) :
    w = v ∨ f.handle = some ⟨i, generation v.state⟩ ∨
      w = { v with state := claimed v.state } ∧ ∃ dispatched state, f = .examine i dispatched state := by
  cases h with
  | same => exact Or.inl rfl
  | update op handle state hf hi hm =>
    rw [hf, hi, ((matchesHandle_iff _).mp hm).2]
    exact Or.inr (Or.inl rfl)
  | unregister handle state hf hi hm =>
    rw [hf, hi, ((matchesHandle_iff _).mp hm).2]
    exact Or.inr (Or.inl rfl)
  | hidden _ hfree => exact absurd (hfree.symm.trans hv) Bool.false_ne_true
  | register initiallyEnabled hfree => exact absurd (hfree.symm.trans hv) Bool.false_ne_true
  | claim dispatched state hf => exact Or.inr (Or.inr ⟨rfl, dispatched, state, hf⟩)

/-- No registration will ever take the slot again. -/
def Retired (v : Slot) : Prop := allocated v.state = false ∧ hasUnusedGeneration v.state = false

theorem Change.retired {i : ℕ} {v w : Slot} (h : Change i f v w) (hv : Retired v) : Retired w := by
  cases h with
  | same => exact hv
  | update op handle state hf hi hm =>
    exact absurd (hv.1.symm.trans ((matchesHandle_iff _).mp hm).1) Bool.false_ne_true
  | unregister handle state hf hi hm =>
    exact absurd (hv.1.symm.trans ((matchesHandle_iff _).mp hm).1) Bool.false_ne_true
  | hidden _ hfree hw => rwa [Retired, hw]
  | register initiallyEnabled hfree hunused =>
    exact absurd (hv.2.symm.trans hunused) Bool.false_ne_true
  | claim dispatched state hf hdue =>
    simp only [due_eq, Bool.and_eq_true] at hdue
    exact absurd (hv.1.symm.trans hdue.1.1) Bool.false_ne_true

end Changes

section Steps

variable {c c' : System}

theorem slots_begin {s s' : Shared} {l l' : Local} {call : Call}
    (h : begin s l call = some (s', l')) :
    s'.slots = s.slots ∧ s'.requested = s.requested ∧ ∃ r, l' = r ++ l := by
  cases call <;> simp only [begin] at h
  all_goals
    repeat' split at h
  all_goals first
    | (cases h; exact ⟨rfl, rfl, [], rfl⟩)
    | (cases h; exact ⟨rfl, rfl, [_], rfl⟩)
    | cases h

/-- The frame that a step takes from the top of its thread, and what it makes of the slots. -/
theorem step_cases {a : ℕ × Event} (hfire : fire step c a = some c') (h : Inv c) :
    c'.shared.slots = c.shared.slots ∨ ∃ spurious f rest, a.2 = .resume spurious ∧
      c.thread a.1 = f :: rest ∧
      ∀ i, Change i f (c.shared.slots i) (c'.shared.slots i) := by
  obtain ⟨t, e⟩ := a
  obtain ⟨s', l', hstep, rfl⟩ := fire_eq_some.mp hfire
  cases e with
  | call call =>
    simp only [step] at hstep
    split at hstep
    · exact Or.inl (slots_begin hstep).1
    · cases hstep
  | dispatch =>
    simp only [step] at hstep
    split at hstep <;> cases hstep
    exact Or.inl rfl
  | resume spurious =>
    simp only at hstep
    generalize hl : c.thread t = l at hstep
    cases l with
    | nil => cases hstep
    | cons f rest =>
      obtain ⟨rfl, rfl⟩ := Prod.mk.inj (Option.some.inj hstep)
      exact Or.inr ⟨spurious, f, rest, rfl, rfl, change_resume h hl spurious⟩

theorem retired_step (i : ℕ) {a : ℕ × Event} (hfire : fire step c a = some c') (h : Inv c)
    (hr : Retired (c.shared.slots i)) : Retired (c'.shared.slots i) := by
  rcases step_cases hfire h with hslots | ⟨_, _, _, _, _, hchange⟩
  · rwa [hslots]
  · exact (hchange i).retired hr

theorem served_step : Preserves (fire step) Served := by
  intro c a c' hfire h i hi hdue
  obtain ⟨t, e⟩ := a
  obtain ⟨s', l', hstep, rfl⟩ := fire_eq_some.mp hfire
  suffices hcovers : Covers s' l' i ∨ due (c.shared.word i) = true ∧
      ¬Covers c.shared (c.thread t) i by
    have hsplit := exists_update (f := c.thread) (t := t) (l := l')
      (Q := fun l => ∃ f ∈ l, f.serves i = true)
    rcases hcovers with (hr | hf) | ⟨hd, hnot⟩
    · exact Or.inl hr
    · exact Or.inr (hsplit.mpr (Or.inl hf))
    · rcases h i hi hd with hr | ⟨u, f, hf, hs⟩
      · exact absurd (Or.inl hr) hnot
      · refine Or.inr (hsplit.mpr (Or.inr ⟨u, ?_, f, hf, hs⟩))
        rintro rfl
        exact hnot (Or.inr ⟨f, hf, hs⟩)
  cases e with
  | call call =>
    simp only [step] at hstep
    split at hstep
    · obtain ⟨hslots, hrequested, r, rfl⟩ := slots_begin hstep
      have hword : s'.word i = c.shared.word i := by
        rw [Shared.word, hslots, Shared.word]
      by_cases hc : Covers c.shared (c.thread t) i
      · rcases hc with hr | hf
        · exact Or.inl (Or.inl (hrequested.trans hr))
        · exact Or.inl (Covers.push (Or.inr hf) r)
      · exact Or.inr ⟨hword ▸ hdue, hc⟩
    · cases hstep
  | dispatch =>
    simp only [step] at hstep
    split at hstep <;> cases hstep
    exact Or.inl (covers_top (by simp [Frame.serves]))
  | resume spurious =>
    simp only at hstep
    generalize hl : c.thread t = l at hstep
    cases l with
    | nil => cases hstep
    | cons f rest =>
      obtain ⟨rfl, rfl⟩ := Prod.mk.inj (Option.some.inj hstep)
      by_cases hc : due (c.shared.word i) = true ∧ ¬Covers c.shared (f :: rest) i
      · exact Or.inr hc
      · exact Or.inl (covers_resume hi f spurious hdue fun hd => by_contra fun hn => hc ⟨hd, hn⟩)

theorem served_start : Served start := by
  intro i _ h
  exact absurd h (by simp [start, Shared.word, due, kAllocated, kEnabled, kPending])

end Steps

section Histories

theorem Legal.append {l h : List Entry} (hl : Legal (l ++ h)) : Legal h := by
  induction l with
  | nil => exact hl
  | cons e l ih => cases e <;> exact ih hl.2

/-- Interrupts are neither lost nor spurious, whatever the threads, the handlers and the
dispatcher do in between. -/
theorem interrupts_contract {events : List (ℕ × Event)} {c : System}
    (hr : run (fire step) start events = some c) :
    -- a due slot is behind a request, or before the dispatcher
    (∀ i, i < kInterruptCapacity → due (c.shared.word i) = true →
      c.shared.requested = true ∨ (∃ t, .request ∈ c.thread t) ∨
        ∃ t, ∃ f ∈ c.thread t, f.inDispatch = true ∧ f.serves i = true) ∧
    ((∀ t, c.thread t = []) → ∀ i, i < kInterruptCapacity → due (c.shared.word i) = true →
      c.shared.requested = true) ∧
    -- a handler runs while it is registered, after a set-pending of its registration
    (∀ later i g handler argument earlier,
      c.shared.history = later ++ .invoked i g handler argument :: earlier →
      .registered i g handler argument ∈ earlier ∧ Live i g earlier ∧
        invocations i g earlier < pendings i g earlier) ∧
    (∀ later i g earlier, c.shared.history = later ++ .pended i g :: earlier → Live i g earlier) ∧
    (∀ i g, invocations i g c.shared.history ≤ pendings i g c.shared.history) ∧
    -- a registration is changed through its own handle only
    (∀ a c' i, fire step c a = some c' → allocated (c.shared.word i) = true →
      c'.shared.slots i = c.shared.slots i ∨
      ∃ spurious f rest, a.2 = .resume spurious ∧ c.thread a.1 = f :: rest ∧
        (f.handle = some ⟨i, generation (c.shared.word i)⟩ ∨
          c'.shared.slots i = { c.shared.slots i with state := claimed (c.shared.word i) } ∧
            ∃ dispatched state, f = .examine i dispatched state)) ∧
    -- a retired slot stays retired
    ∀ i, Retired (c.shared.slots i) → ∀ events' c', run (fire step) c events' = some c' →
      Retired (c'.shared.slots i) := by
  have hinv : Inv c := inv_step.run hr inv_start
  have hserved : Served c := served_step.run hr served_start
  refine ⟨fun i hi hdue => ?_, fun hidle i hi hdue => ?_, fun later i g handler argument earlier h =>
    ?_, fun later i g earlier h => ?_, fun i g => ?_, fun a c' i hfire hallocated => ?_,
    fun i hretired events' c' hrun => ?_⟩
  · rcases hserved i hi hdue with hrequested | ⟨t, f, hf, hs⟩
    · exact Or.inl hrequested
    · refine Or.inr ?_
      cases f with
      | request => exact Or.inl ⟨t, hf⟩
      | scan | examine | invoke => exact Or.inr ⟨t, _, hf, rfl, hs⟩
      | _ => exact absurd hs Bool.false_ne_true
  · rcases hserved i hi hdue with hrequested | ⟨t, f, hf, -⟩
    · exact hrequested
    · rw [hidle t] at hf
      exact absurd hf List.not_mem_nil
  · have hlegal : Legal (.invoked i g handler argument :: earlier) :=
      Legal.append (h ▸ hinv.ledger.legal)
    obtain ⟨⟨hlive, hregistered, hlt⟩, -⟩ := hlegal
    exact ⟨hregistered, hlive, hlt⟩
  · have hlegal : Legal (.pended i g :: earlier) := Legal.append (h ▸ hinv.ledger.legal)
    exact hlegal.1
  · have hi := (hinv.ledger.account i).invocations g
    have hc := (hinv.ledger.account i).claims g
    omega
  · rcases step_cases hfire hinv with hslots | ⟨spurious, f, rest, he, ht, hchange⟩
    · exact Or.inl (congrFun hslots i)
    · rcases (hchange i).of_allocated hallocated with hsame | hown | hclaim
      · exact Or.inl hsame
      · exact Or.inr ⟨spurious, f, rest, he, ht, Or.inl hown⟩
      · exact Or.inr ⟨spurious, f, rest, he, ht, Or.inr hclaim⟩
  · have hkeep : Preserves (fire step) fun c => Inv c ∧ Retired (c.shared.slots i) :=
      inv_step.and fun _ _ _ hfire h => retired_step i hfire h
    exact (hkeep.run hrun ⟨hinv, hretired⟩).2

/-- A registration on thread 0 that thread 1 makes pending, up to its handler. -/
def pendedRun : List (ℕ × Event) :=
  (0, .call (.register (some 7) 1 true true true true)) :: List.replicate 4 (0, .resume false) ++
    (1, .call (.update .setPending ⟨0, 1⟩)) :: List.replicate 3 (1, .resume false) ++
    (0, .dispatch) :: List.replicate 3 (0, .resume false)

theorem interrupts_contract_pendedRun : ∃ c, run (fire step) start pendedRun = some c ∧
    invocations 0 1 c.shared.history = 1 ∧
    invocations 0 1 c.shared.history ≤ pendings 0 1 c.shared.history :=
  ⟨_, rfl, rfl, (@interrupts_contract pendedRun _ rfl).2.2.2.2.1 0 1⟩

end Histories

end RooTesting.InterruptController
