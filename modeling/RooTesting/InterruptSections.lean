import RooTesting.InterruptLedger

/-! # Critical sections and dispatches of the interrupt controller

At most one thread is in a critical section or in a dispatch. Its frame is the only one
that knows anything about a slot, so every step of the others may be ignored. -/
namespace RooTesting.InterruptController
open Transition Threads

structure Inv (c : System) : Prop where
  critical : Held criticals c.thread c.shared.critical
  dispatching : Held dispatches c.thread c.shared.dispatching
  apart : ¬(c.shared.critical = true ∧ c.shared.dispatching = true)
  fits : ∀ t, ∀ f ∈ c.thread t, Fits c.shared f
  ledger : Ledger c.shared

def Frame.Outside (f : Frame) : Prop := f.inCritical = false ∧ f.inDispatch = false

section Alone

variable {c : System} {t : ℕ} {rest : Local} {s' : Shared}

theorem outside_of_counts {l : Local} (hc : criticals l = 0) (hd : dispatches l = 0) :
    ∀ f ∈ l, f.Outside := fun f hf =>
  ⟨Bool.eq_false_iff.mpr (List.countP_eq_zero.mp hc f hf),
    Bool.eq_false_iff.mpr (List.countP_eq_zero.mp hd f hf)⟩

theorem counts_of_outside {l : Local} (h : ∀ f ∈ l, f.Outside) :
    criticals l = 0 ∧ dispatches l = 0 :=
  ⟨List.countP_eq_zero.mpr fun f hf => by simp [(h f hf).1],
    List.countP_eq_zero.mpr fun f hf => by simp [(h f hf).2]⟩

theorem Inv.outside_of_idle (h : Inv c) (hc : c.shared.critical = false)
    (hd : c.shared.dispatching = false) (t : ℕ) : ∀ f ∈ c.thread t, f.Outside := by
  have hcritical := h.critical
  have hdispatching := h.dispatching
  rw [hc] at hcritical
  rw [hd] at hdispatching
  exact outside_of_counts (hcritical t) (hdispatching t)

/-- While a frame is in a critical section or a dispatch, no other frame is. -/
theorem Inv.outside_of_top (h : Inv c) {f : Frame} (ht : c.thread t = f :: rest)
    (hf : f.inCritical = true ∨ f.inDispatch = true) :
    (∀ g ∈ rest, g.Outside) ∧ ∀ u, u ≠ t → ∀ g ∈ c.thread u, g.Outside := by
  rcases hf with hf | hf
  · have hpos : criticals (c.thread t) = criticals rest + 1 := by
      rw [ht, criticals, List.countP_cons_of_pos hf, criticals]
    have hcritical := h.critical.true_of_pos (by omega : 0 < criticals (c.thread t))
    have hdispatching : c.shared.dispatching = false :=
      Bool.eq_false_iff.mpr fun hd => h.apart ⟨hcritical, hd⟩
    have hnone : ∀ u, dispatches (c.thread u) = 0 := by
      have hd := h.dispatching
      rwa [hdispatching] at hd
    have hone := h.critical.count_le_one t
    refine ⟨outside_of_counts (by omega) ?_, fun u hu => outside_of_counts ?_ (hnone u)⟩
    · have hrest := hnone t
      rw [ht, dispatches, List.countP_cons] at hrest
      exact Nat.eq_zero_of_add_eq_zero_right hrest
    · by_contra hne
      exact hu (h.critical.eq_of_pos (Nat.pos_of_ne_zero hne) (by omega))
  · have hpos : dispatches (c.thread t) = dispatches rest + 1 := by
      rw [ht, dispatches, List.countP_cons_of_pos hf, dispatches]
    have hdispatching := h.dispatching.true_of_pos (by omega : 0 < dispatches (c.thread t))
    have hcritical : c.shared.critical = false :=
      Bool.eq_false_iff.mpr fun hc => h.apart ⟨hc, hdispatching⟩
    have hnone : ∀ u, criticals (c.thread u) = 0 := by
      have hc := h.critical
      rwa [hcritical] at hc
    have hone := h.dispatching.count_le_one t
    refine ⟨outside_of_counts ?_ (by omega), fun u hu => outside_of_counts (hnone u) ?_⟩
    · have hrest := hnone t
      rw [ht, criticals, List.countP_cons] at hrest
      exact Nat.eq_zero_of_add_eq_zero_right hrest
    · by_contra hne
      exact hu (h.dispatching.eq_of_pos (Nat.pos_of_ne_zero hne) (by omega))

private theorem held_of_alone {count : Local → ℕ} {f : ℕ → Local} {l : Local} {b : Bool}
    (hothers : ∀ u, u ≠ t → count (f u) = 0) (hl : count l = if b then 1 else 0) :
    Held count (Function.update f t l) b := by
  cases b with
  | false =>
    intro u
    by_cases hu : u = t
    · subst hu
      simpa using hl
    · rw [Function.update_of_ne hu]
      exact hothers u hu
  | true =>
    refine ⟨t, by simpa using hl, fun u hu => ?_⟩
    rw [Function.update_of_ne hu]
    exact hothers u hu

/-- A step in or into the section that only one thread can be in. -/
theorem Inv.alone (hrest : ∀ g ∈ rest, g.Outside)
    (hothers : ∀ u, u ≠ t → ∀ g ∈ c.thread u, g.Outside) (hl : Ledger s') {l : Local}
    (hfits : ∀ g ∈ l, Fits s' g) (hc : criticals l = if s'.critical then 1 else 0)
    (hd : dispatches l = if s'.dispatching then 1 else 0)
    (hapart : ¬(s'.critical = true ∧ s'.dispatching = true)) :
    Inv ⟨s', Function.update c.thread t (l ++ rest)⟩ := by
  obtain ⟨hcrest, hdrest⟩ := counts_of_outside hrest
  refine ⟨held_of_alone (fun u hu => (counts_of_outside (hothers u hu)).1) ?_,
    held_of_alone (fun u hu => (counts_of_outside (hothers u hu)).2) ?_, hapart, ?_, hl⟩
  · rw [criticals, List.countP_append]
    exact (congrArg (criticals l + ·) hcrest).trans hc
  · rw [dispatches, List.countP_append]
    exact (congrArg (dispatches l + ·) hdrest).trans hd
  · refine (forall_update (Q := fun l => ∀ f ∈ l, Fits s' f)).mpr
      ⟨fun g hg => ?_, fun u hu g hg => ?_⟩
    · rcases List.mem_append.mp hg with hg | hg
      · exact hfits g hg
      · exact fits_of_outside (hrest g hg).1 (hrest g hg).2
    · exact fits_of_outside (hothers u hu g hg).1 (hothers u hu g hg).2

/-- A step outside of it. -/
theorem Inv.gentle (h : Inv c) {r l : Local} (ht : c.thread t = r ++ rest)
    (hremoved : ∀ g ∈ r, g.Outside) (hg : Gentle c.shared s') (hl : Ledger s')
    (hcritical : s'.critical = c.shared.critical)
    (hdispatching : s'.dispatching = c.shared.dispatching) (hfs : ∀ g ∈ l, g.Outside) :
    Inv ⟨s', Function.update c.thread t (l ++ rest)⟩ := by
  obtain ⟨hcr, hdr⟩ := counts_of_outside hremoved
  obtain ⟨hcf, hdf⟩ := counts_of_outside hfs
  have hcount : criticals (l ++ rest) = criticals (c.thread t) ∧
      dispatches (l ++ rest) = dispatches (c.thread t) := by
    simp only [criticals, dispatches] at *
    simp only [ht, List.countP_append]
    omega
  refine ⟨?_, ?_, ?_, ?_, hl⟩
  · simpa [hcritical] using h.critical.keep hcount.1
  · simpa [hdispatching] using h.dispatching.keep hcount.2
  · simpa [hcritical, hdispatching] using h.apart
  · refine (forall_update (Q := fun l => ∀ f ∈ l, Fits s' f)).mpr
      ⟨fun g hgm => ?_, fun u _ g hgm => hg.fits (h.fits u g hgm)⟩
    rcases List.mem_append.mp hgm with hgm | hgm
    · exact fits_of_outside (hfs g hgm).1 (hfs g hgm).2
    · exact hg.fits (h.fits t g (by simp [ht, hgm]))

/-- The flag of the section that the top frame is in. -/
theorem Inv.flags_of_top (h : Inv c) {f : Frame} (ht : c.thread t = f :: rest) :
    (f.inCritical = true → c.shared.critical = true ∧ c.shared.dispatching = false) ∧
      (f.inDispatch = true → c.shared.critical = false ∧ c.shared.dispatching = true) := by
  refine ⟨fun hf => ?_, fun hf => ?_⟩
  · have hpos : 0 < criticals (c.thread t) := by
      rw [ht, criticals, List.countP_cons_of_pos hf]
      exact Nat.succ_pos _
    have hcritical := h.critical.true_of_pos hpos
    exact ⟨hcritical, Bool.eq_false_iff.mpr fun hd => h.apart ⟨hcritical, hd⟩⟩
  · have hpos : 0 < dispatches (c.thread t) := by
      rw [ht, dispatches, List.countP_cons_of_pos hf]
      exact Nat.succ_pos _
    have hdispatching := h.dispatching.true_of_pos hpos
    exact ⟨Bool.eq_false_iff.mpr fun hc => h.apart ⟨hc, hdispatching⟩, hdispatching⟩

/-- A step inside a critical section. -/
theorem Inv.critical_step (h : Inv c) {f g : Frame} (ht : c.thread t = f :: rest)
    (hf : f.inCritical = true) (hg : g.inCritical = true) (hl : Ledger s') (hfits : Fits s' g)
    (hcritical : s'.critical = c.shared.critical)
    (hdispatching : s'.dispatching = c.shared.dispatching) :
    Inv ⟨s', Function.update c.thread t (g :: rest)⟩ := by
  obtain ⟨hrest, hothers⟩ := h.outside_of_top ht (Or.inl hf)
  obtain ⟨hc, hd⟩ := (h.flags_of_top ht).1 hf
  have hnot : g.inDispatch = false := by cases g <;> trivial
  refine Inv.alone (l := [g]) hrest hothers hl (by simpa using hfits) ?_ ?_ ?_
  all_goals simp [criticals, dispatches, hg, hnot, hcritical, hdispatching, hc, hd]

theorem Inv.critical_exit (h : Inv c) {f : Frame} (ht : c.thread t = f :: rest)
    (hf : f.inCritical = true) (hl : Ledger s') (hcritical : s'.critical = false)
    (hdispatching : s'.dispatching = c.shared.dispatching) :
    Inv ⟨s', Function.update c.thread t rest⟩ := by
  obtain ⟨hrest, hothers⟩ := h.outside_of_top ht (Or.inl hf)
  obtain ⟨-, hd⟩ := (h.flags_of_top ht).1 hf
  refine Inv.alone (l := []) hrest hothers hl (by simp) ?_ ?_ ?_
  all_goals simp [criticals, dispatches, hcritical, hdispatching, hd]

/-- A step of the dispatcher; `l` may hold the frame of a handler. -/
theorem Inv.dispatch_step (h : Inv c) {f : Frame} {l : Local} (ht : c.thread t = f :: rest)
    (hf : f.inDispatch = true) (hc : criticals l = 0) (hd : dispatches l = 1)
    (hl : Ledger s') (hfits : ∀ g ∈ l, Fits s' g) (hcritical : s'.critical = c.shared.critical)
    (hdispatching : s'.dispatching = c.shared.dispatching) :
    Inv ⟨s', Function.update c.thread t (l ++ rest)⟩ := by
  obtain ⟨hrest, hothers⟩ := h.outside_of_top ht (Or.inr hf)
  obtain ⟨hc', hd'⟩ := (h.flags_of_top ht).2 hf
  refine Inv.alone hrest hothers hl hfits ?_ ?_ ?_
  all_goals simp [hc, hd, hcritical, hdispatching, hc', hd']

theorem Inv.dispatch_exit (h : Inv c) {f : Frame} (ht : c.thread t = f :: rest)
    (hf : f.inDispatch = true) (hl : Ledger s') (hcritical : s'.critical = c.shared.critical)
    (hdispatching : s'.dispatching = false) :
    Inv ⟨s', Function.update c.thread t rest⟩ := by
  obtain ⟨hrest, hothers⟩ := h.outside_of_top ht (Or.inr hf)
  obtain ⟨hc, -⟩ := (h.flags_of_top ht).2 hf
  refine Inv.alone (l := []) hrest hothers hl (by simp) ?_ ?_ ?_
  all_goals simp [criticals, dispatches, hcritical, hdispatching, hc]

end Alone

section Words

variable (state : Word)

theorem Update.apply_spec (op : Update) : generation (op.apply state) = generation state ∧
    allocated (op.apply state) = allocated state ∧
    (op = .setPending → pending (op.apply state) = true) ∧
    (op ≠ .setPending → pending (op.apply state) = pending state) := by
  cases op with
  | enable =>
    obtain ⟨hg, ha, -, hp⟩ := or_mask_spec state (i := 1) (by omega)
    exact ⟨hg, ha.trans (Bool.or_false _), by simp, fun _ => hp.trans (Bool.or_false _)⟩
  | disable =>
    obtain ⟨hg, ha, -, hp⟩ := and_not_mask_spec state (i := 1) (by omega)
    exact ⟨hg, ha.trans (Bool.and_true _), by simp, fun _ => hp.trans (Bool.and_true _)⟩
  | setPending =>
    obtain ⟨hg, ha, -, hp⟩ := or_mask_spec state (i := 2) (by omega)
    exact ⟨hg, ha.trans (Bool.or_false _), fun _ => hp.trans (Bool.or_true _), by simp⟩

theorem matchesHandle_iff {handle : Handle} :
    matchesHandle state handle = true ↔ allocated state = true ∧
      generation state = handle.generation := by
  simp [matchesHandle]

end Words

section Updates

variable {s : Shared} {rest : Local}

theorem gentle_setWord {i : ℕ} {w : Word} (ha : allocated w = allocated (s.word i))
    (hg : generation w = generation (s.word i)) : Gentle s (s.setWord i w) := by
  have hslot : ∀ j, (s.setWord i w).slots j = s.slots j ∨
      j = i ∧ (s.setWord i w).slots j = { s.slots i with state := w } := by
    intro j
    by_cases hj : j = i
    · subst hj
      exact Or.inr ⟨rfl, slots_setSlot_self ..⟩
    · exact Or.inl (slots_setSlot_of_ne _ _ _ hj)
  refine ⟨fun j => ?_, fun j => ?_, fun j => ?_, fun j => ?_, fun _ _ => rfl, fun _ _ => rfl⟩
  all_goals
    simp only [Shared.word] at *
    rcases hslot j with heq | ⟨rfl, heq⟩ <;> simp [*]

theorem Gentle.pended {s' : Shared} (h : Gentle s s') (i : ℕ) (g : Generation) :
    Gentle s (s'.record (.pended i g)) := by
  refine ⟨h.handler, h.argument, h.allocated, h.generation, fun j g' => ?_, fun j g' => ?_⟩
  · rw [← h.claims j g']
    exact List.count_cons_of_ne (by simp)
  · rw [← h.invocations j g']
    exact List.countP_cons_of_neg (by simp [Entry.isInvocation])

theorem update_gentle (op : Update) (handle : Handle) : Gentle s (s.update op handle) := by
  obtain ⟨hg, ha, -, -⟩ := op.apply_spec (s.word handle.slot)
  rw [Shared.update]
  split
  · exact (gentle_setWord ha hg).pended ..
  · exact gentle_setWord ha hg

theorem update_ledger (h : Ledger s) {op : Update} {handle : Handle}
    (hm : matchesHandle (s.word handle.slot) handle = true) : Ledger (s.update op handle) := by
  obtain ⟨hallocated, hgeneration⟩ := (matchesHandle_iff _).mp hm
  obtain ⟨hg, ha, hset, hkeep⟩ := op.apply_spec (s.word handle.slot)
  have haccount := h.account handle.slot
  rw [Shared.update]
  split
  · rw [← hgeneration]
    refine h.record rfl (haccount.pended rfl rfl ha hg) ⟨haccount.live hallocated, h.legal⟩
  · rename_i hop
    exact h.setSlot (haccount.of_flags rfl rfl ha hg fun hp => (hkeep hop).symm.trans hp)

theorem update_flags (s : Shared) (op : Update) (handle : Handle) :
    (s.update op handle).critical = s.critical ∧
      (s.update op handle).dispatching = s.dispatching ∧
      (s.update op handle).requested = s.requested := by
  rw [Shared.update]
  split <;> exact ⟨rfl, rfl, rfl⟩

theorem word_update_self (s : Shared) (op : Update) (handle : Handle) :
    (s.update op handle).word handle.slot = op.apply (s.word handle.slot) := by
  rw [Shared.update]
  split <;> simp

theorem word_update_of_ne (s : Shared) (op : Update) {handle : Handle} {i : ℕ}
    (hi : i ≠ handle.slot) : (s.update op handle).word i = s.word i := by
  rw [Shared.update]
  split <;> simp [word_setWord_of_ne _ _ hi]

/-- All that a round of an operation can do. -/
theorem swap_cases (s : Shared) (rest : Local) (op : Update) (handle : Handle) (state : Word)
    (spurious : Bool) : swap s rest op handle state spurious = (s, rest) ∨
      swap s rest op handle state spurious = (s, .swap op handle (s.word handle.slot) :: rest) ∨
      matchesHandle (s.word handle.slot) handle = true ∧
        swap s rest op handle state spurious = (s.update op handle,
          (if op.requests (op.apply (s.word handle.slot)) then [.request] else []) ++ rest) := by
  rw [swap]
  simp only [Bool.and_eq_true, decide_eq_true_eq, Bool.not_eq_true']
  split
  · exact Or.inl rfl
  · rename_i hm
    split
    · rename_i hw
      refine Or.inr (Or.inr ⟨?_, ?_⟩)
      · rw [hw.1]
        simpa using hm
      · rw [hw.1]
    · exact Or.inr (Or.inl rfl)

theorem registered_spec (g : Generation) (initiallyEnabled : Bool) :
    generation (registered g initiallyEnabled) = g ∧
      allocated (registered g initiallyEnabled) = true ∧
      pending (registered g initiallyEnabled) = false := by
  have hflags : ∀ j, 3 ≤ j →
      (kAllocated ||| if initiallyEnabled then kEnabled else 0 : Word).getLsbD j = false := by
    intro j hj
    rw [BitVec.getLsbD_or, kAllocated, getLsbD_mask (by omega)]
    cases initiallyEnabled
    · simp
      omega
    · simp only [kEnabled, if_true]
      rw [getLsbD_mask (by omega)]
      simp
      omega
  obtain ⟨hg, ha, hp⟩ := stateWithGeneration_spec g hflags
  refine ⟨hg, ha.trans ?_, hp.trans ?_⟩ <;> cases initiallyEnabled <;> decide

theorem unregistered_spec (g : Generation) : generation (stateWithGeneration g 0) = g ∧
    allocated (stateWithGeneration g 0) = false ∧ pending (stateWithGeneration g 0) = false := by
  obtain ⟨hg, ha, hp⟩ := stateWithGeneration_spec g (show ∀ j, 3 ≤ j → (0 : Word).getLsbD j = false
    from fun _ _ => BitVec.getLsbD_zero)
  exact ⟨hg, ha.trans (by decide), hp.trans (by decide)⟩

/-- All that a round of `unregisterInterrupt` can do. -/
theorem unregister_cases (s : Shared) (rest : Local) (handle : Handle) (state : Word)
    (spurious : Bool) :
    unregister s rest handle state spurious = ({ s with critical := false }, rest) ∨
      unregister s rest handle state spurious =
        (s, .unregister handle (s.word handle.slot) :: rest) ∨
      matchesHandle (s.word handle.slot) handle = true ∧
        unregister s rest handle state spurious =
          ((s.setWord handle.slot (stateWithGeneration handle.generation 0)).record
            (.unregistered handle.slot handle.generation), .clearHandler handle :: rest) := by
  rw [unregister]
  simp only [Bool.and_eq_true, decide_eq_true_eq, Bool.not_eq_true']
  split
  · exact Or.inl rfl
  · rename_i hm
    split
    · rename_i hw
      refine Or.inr (Or.inr ⟨?_, rfl⟩)
      rw [hw.1]
      simpa using hm
    · exact Or.inr (Or.inl rfl)

end Updates

section Steps

variable {c : System} {t : ℕ} {rest : Local}

theorem inv_start : Inv start := by
  refine ⟨fun _ => rfl, fun _ => rfl, by simp [start], by simp [start], ⟨fun i => ?_, trivial⟩⟩
  refine ⟨fun h => absurd h (by simp [start, allocated]), ?_, ?_, ?_, ?_⟩
  all_goals simp [start, pending, claims, pendings, invocations]

private theorem inv_begin (h : Inv c) {call : Call} {s' : Shared} {l' : Local}
    (hb : begin c.shared (c.thread t) call = some (s', l')) :
    Inv ⟨s', Function.update c.thread t l'⟩ := by
  have hsame : Inv ⟨c.shared, Function.update c.thread t (c.thread t)⟩ := by
    rwa [Function.update_eq_self]
  have henter : ∀ f : Frame, f.inCritical = true → (∀ s, Fits s f) →
      (c.shared.critical || c.shared.dispatching) = false →
      Inv ⟨{ c.shared with critical := true }, Function.update c.thread t (f :: c.thread t)⟩ := by
    intro f hf hfits hidle
    obtain ⟨hc, hd⟩ := Bool.or_eq_false_iff.mp hidle
    have houtside := h.outside_of_idle hc hd
    have hnot : f.inDispatch = false := by cases f <;> trivial
    have hledger : Ledger { c.shared with critical := true } := ⟨h.ledger.account, h.ledger.legal⟩
    refine Inv.alone (l := [f]) (houtside t) (fun u _ => houtside u) hledger
      (by simp [hfits]) ?_ ?_ ?_
    all_goals simp [criticals, dispatches, hf, hnot, hd]
  cases call with
  | update op handle =>
    simp only [begin] at hb
    split at hb
    · cases hb
      exact hsame
    · cases hb
      exact h.gentle (r := []) rfl (by simp) (Gentle.refl _) h.ledger rfl rfl
        (l := [.load op handle]) (by simp [Frame.Outside, Frame.inCritical, Frame.inDispatch])
  | register handler argument initiallyEnabled outHandle taskContext installed =>
    simp only [begin] at hb
    split at hb
    · split at hb
      · cases hb
      · rename_i hidle
        split at hb
        · cases hb
          exact henter _ rfl (fun _ => trivial) (Bool.eq_false_iff.mpr hidle)
        · cases hb
          exact hsame
    · cases hb
      exact hsame
  | unregister handle taskContext =>
    simp only [begin] at hb
    split at hb
    · cases hb
      exact hsame
    · split at hb
      · cases hb
      · rename_i hidle
        cases hb
        exact henter _ rfl (fun _ => trivial) (Bool.eq_false_iff.mpr hidle)

private theorem inv_outside (h : Inv c) {f : Frame} (ht : c.thread t = f :: rest)
    (hf : f.Outside) (spurious : Bool) :
    Inv ⟨(resume c.shared rest spurious f).1,
      Function.update c.thread t (resume c.shared rest spurious f).2⟩ := by
  have hremoved : ∀ g ∈ [f], g.Outside := by simpa using hf
  have hnext : ∀ op handle state, ∀ g ∈ [Frame.swap op handle state], g.Outside := by
    simp [Frame.Outside, Frame.inCritical, Frame.inDispatch]
  cases f with
  | load op handle =>
    exact h.gentle (r := [_]) ht hremoved (Gentle.refl _) h.ledger rfl rfl (hnext _ _ _)
  | swap op handle state =>
    rcases swap_cases c.shared rest op handle state spurious with hs | hs | ⟨hm, hs⟩
    · rw [resume, hs]
      exact h.gentle (r := [_]) (l := []) ht hremoved (Gentle.refl _) h.ledger rfl rfl (by simp)
    · rw [resume, hs]
      exact h.gentle (r := [_]) ht hremoved (Gentle.refl _) h.ledger rfl rfl (hnext _ _ _)
    · rw [resume, hs]
      obtain ⟨hcritical, hdispatching, -⟩ := update_flags c.shared op handle
      refine h.gentle (r := [_]) ht hremoved (update_gentle op handle) (update_ledger h.ledger hm)
        hcritical hdispatching ?_
      split <;> simp [Frame.Outside, Frame.inCritical, Frame.inDispatch]
  | request =>
    have hledger : Ledger { c.shared with requested := true } := ⟨h.ledger.account, h.ledger.legal⟩
    have hgentle : Gentle c.shared { c.shared with requested := true } :=
      ⟨fun _ => rfl, fun _ => rfl, fun _ => rfl, fun _ => rfl, fun _ _ => rfl, fun _ _ => rfl⟩
    exact h.gentle (r := [_]) (l := []) ht hremoved hgentle hledger rfl rfl (by simp)
  | running =>
    exact h.gentle (r := [_]) (l := []) ht hremoved (Gentle.refl _) h.ledger rfl rfl (by simp)
  | _ => cases hf.1 <;> cases hf.2

private theorem inv_critical (h : Inv c) {f : Frame} (ht : c.thread t = f :: rest)
    (hf : f.inCritical = true) (spurious : Bool) :
    Inv ⟨(resume c.shared rest spurious f).1,
      Function.update c.thread t (resume c.shared rest spurious f).2⟩ := by
  have hfits := h.fits t f (by simp [ht])
  have hledger : Ledger { c.shared with critical := false } := ⟨h.ledger.account, h.ledger.legal⟩
  cases f with
  | register slot handler argument initiallyEnabled =>
    simp only [resume, register]
    split
    · exact h.critical_exit ht rfl hledger rfl rfl
    · split
      · exact h.critical_step ht rfl rfl h.ledger trivial rfl rfl
      · rename_i hfree
        simp only [Bool.or_eq_true, not_or, Bool.not_eq_true, Bool.not_eq_true'] at hfree
        refine h.critical_step ht rfl rfl h.ledger ?_ rfl rfl
        exact ⟨hfree.1, by simpa using hfree.2, rfl⟩
  | storeHandler slot g handler argument initiallyEnabled =>
    obtain ⟨hallocated, hunused, hg⟩ := hfits
    refine h.critical_step ht rfl rfl
      (h.ledger.setSlot ((h.ledger.account slot).of_hidden hallocated rfl)) ?_ rfl rfl
    simp only [resume, Fits, Shared.word, slots_setSlot_self]
    exact ⟨hallocated, hunused, hg, trivial⟩
  | storeArgument slot g handler argument initiallyEnabled =>
    obtain ⟨hallocated, hunused, hg, hhandler⟩ := hfits
    refine h.critical_step ht rfl rfl
      (h.ledger.setSlot ((h.ledger.account slot).of_hidden hallocated rfl)) ?_ rfl rfl
    simp only [resume, Fits, Shared.word, slots_setSlot_self]
    exact ⟨hallocated, hunused, hg, hhandler, trivial⟩
  | storeState slot g handler argument initiallyEnabled =>
    obtain ⟨hallocated, hunused, rfl, hhandler, hargument⟩ := hfits
    obtain ⟨hg, ha, hp⟩ := registered_spec (generation (c.shared.word slot) + 1) initiallyEnabled
    obtain ⟨haccount, hfresh⟩ := (h.ledger.account slot).register (w := { c.shared.slots slot with
      state := registered (generation (c.shared.word slot) + 1) initiallyEnabled })
      hallocated hunused hhandler hargument ha hg hp
    have hlegal : Legal (.registered slot (generation (c.shared.word slot) + 1) handler argument ::
        c.shared.history) := ⟨hfresh, h.ledger.legal⟩
    have hrecord := h.ledger.record (i := slot) rfl haccount hlegal
    exact h.critical_exit ht rfl ⟨hrecord.account, hrecord.legal⟩ rfl rfl
  | unregisterLoad handle => exact h.critical_step ht rfl rfl h.ledger trivial rfl rfl
  | unregister handle state =>
    rcases unregister_cases c.shared rest handle state spurious with hs | hs | ⟨hm, hs⟩
    · rw [resume, hs]
      exact h.critical_exit ht rfl hledger rfl rfl
    · rw [resume, hs]
      exact h.critical_step ht rfl rfl h.ledger trivial rfl rfl
    · rw [resume, hs]
      obtain ⟨hallocated, hgeneration⟩ := (matchesHandle_iff _).mp hm
      obtain ⟨hg, ha, hp⟩ := unregistered_spec handle.generation
      have haccount := h.ledger.account handle.slot
      have haccount' := haccount.unregister hgeneration (w := { c.shared.slots handle.slot with
        state := stateWithGeneration handle.generation 0 }) ha hg hp
      have hlive : Live handle.slot handle.generation c.shared.history :=
        hgeneration ▸ haccount.live hallocated
      have hlegal : Legal (.unregistered handle.slot handle.generation :: c.shared.history) :=
        ⟨hlive, h.ledger.legal⟩
      have hrecord := h.ledger.record (i := handle.slot) rfl haccount' hlegal
      have hfits : Fits ((c.shared.setWord handle.slot
          (stateWithGeneration handle.generation 0)).record
          (.unregistered handle.slot handle.generation)) (.clearHandler handle) := by
        rw [Fits, word_record, word_setWord_self]
        exact ha
      exact h.critical_step ht rfl rfl hrecord hfits rfl rfl
  | clearHandler handle =>
    refine h.critical_step ht rfl rfl
      (h.ledger.setSlot ((h.ledger.account handle.slot).of_hidden hfits rfl)) ?_ rfl rfl
    simpa only [resume, Fits, Shared.word, slots_setSlot_self] using hfits
  | clearArgument handle =>
    have hset := h.ledger.setSlot (v := { c.shared.slots handle.slot with
      argument := 0 })
      ((h.ledger.account handle.slot).of_hidden hfits rfl)
    exact h.critical_exit ht rfl ⟨hset.account, hset.legal⟩ rfl rfl
  | _ => cases hf

/-- All that the dispatcher can do with the word of a slot. -/
theorem examine_cases (s : Shared) (rest : Local) (slot : ℕ) (dispatched : Bool) (state : Word)
    (spurious : Bool) :
    due state = false ∧
        examine s rest slot dispatched state spurious = (s, .scan (slot + 1) dispatched :: rest) ∨
      examine s rest slot dispatched state spurious =
        (s, .examine slot dispatched (s.word slot) :: rest) ∨
      due (s.word slot) = true ∧ examine s rest slot dispatched state spurious =
        ((s.setWord slot (claimed (s.word slot))).record
          (.claimed slot (generation (s.word slot))),
          .invoke slot (generation (s.word slot)) :: rest) := by
  rw [examine]
  simp only [Bool.and_eq_true, decide_eq_true_eq, Bool.not_eq_true']
  split
  · exact Or.inl ⟨by simpa using ‹_›, rfl⟩
  · rename_i hdue
    split
    · rename_i hw
      refine Or.inr (Or.inr ⟨?_, ?_⟩)
      · rw [hw.1]
        simpa using hdue
      · rw [hw.1]
    · exact Or.inr (Or.inl rfl)

private theorem inv_dispatch (h : Inv c) {f : Frame} (ht : c.thread t = f :: rest)
    (hf : f.inDispatch = true) (spurious : Bool) :
    Inv ⟨(resume c.shared rest spurious f).1,
      Function.update c.thread t (resume c.shared rest spurious f).2⟩ := by
  have hfits := h.fits t f (by simp [ht])
  have hexamine : ∀ slot dispatched state, Inv ⟨c.shared,
      Function.update c.thread t (.examine slot dispatched state :: rest)⟩ := fun _ _ _ =>
    h.dispatch_step (l := [_]) ht hf rfl rfl h.ledger (by simp [Fits]) rfl rfl
  have hscan : ∀ slot dispatched, Inv ⟨c.shared,
      Function.update c.thread t (.scan slot dispatched :: rest)⟩ := fun _ _ =>
    h.dispatch_step (l := [_]) ht hf rfl rfl h.ledger (by simp [Fits]) rfl rfl
  cases f with
  | scan slot dispatched =>
    simp only [resume, scan]
    split
    · exact hexamine ..
    · split
      · exact hscan ..
      · exact h.dispatch_exit ht hf ⟨h.ledger.account, h.ledger.legal⟩ rfl rfl
  | examine slot dispatched state =>
    rcases examine_cases c.shared rest slot dispatched state spurious with
      ⟨-, hs⟩ | hs | ⟨hdue, hs⟩
    · rw [resume, hs]
      exact hscan ..
    · rw [resume, hs]
      exact hexamine ..
    · rw [resume, hs]
      simp only [due_eq, Bool.and_eq_true] at hdue
      obtain ⟨⟨hallocated, -⟩, hpending⟩ := hdue
      obtain ⟨hg, ha, hp⟩ := claimed_spec (c.shared.word slot)
      obtain ⟨haccount, hlt, hclaimed⟩ := (h.ledger.account slot).claimed (w := { c.shared.slots slot with
        state := claimed (c.shared.word slot) }) hpending rfl rfl ha hg hp
      have hlegal : Legal (.claimed slot (generation (c.shared.word slot)) ::
          c.shared.history) :=
        ⟨⟨(h.ledger.account slot).live hallocated, hlt⟩, h.ledger.legal⟩
      have hrecord := h.ledger.record (i := slot) rfl haccount hlegal
      have hinvoke : Fits ((c.shared.setWord slot (claimed (c.shared.word slot))).record
          (.claimed slot (generation (c.shared.word slot))))
          (.invoke slot (generation (c.shared.word slot))) := by
        rw [Fits, word_record, word_setWord_self]
        exact ⟨ha.trans hallocated, hg, hclaimed⟩
      exact h.dispatch_step (l := [_]) ht hf rfl rfl hrecord (by simpa using hinvoke) rfl rfl
  | invoke slot g =>
    obtain ⟨hallocated, rfl, hlt⟩ := hfits
    obtain ⟨handler, hhandler, hregistered, hunregistered⟩ :=
      (h.ledger.account slot).handler hallocated
    simp only [resume, hhandler]
    have haccount := (h.ledger.account slot).invoked hlt handler (c.shared.slots slot).argument
    have hclaims := (h.ledger.account slot).claims (generation (c.shared.word slot))
    have hlegal : Legal (.invoked slot (generation (c.shared.word slot)) handler
        (c.shared.slots slot).argument :: c.shared.history) :=
      ⟨⟨(h.ledger.account slot).live hallocated, hregistered, by omega⟩, h.ledger.legal⟩
    have hledger : Ledger (c.shared.record (.invoked slot (generation (c.shared.word slot)) handler
        (c.shared.slots slot).argument)) := by
      refine ⟨fun i => ?_, hlegal⟩
      by_cases hi : slot = i
      · subst hi
        exact haccount
      · exact (h.ledger.account i).of_slot_ne hi
    exact h.dispatch_step (l := [.running, .scan (slot + 1) true]) ht hf rfl rfl hledger
      (by simp [Fits]) rfl rfl
  | _ => cases hf

theorem inv_step : Preserves (fire step) Inv := by
  intro c a c' hfire h
  obtain ⟨t, e⟩ := a
  obtain ⟨s', l', hstep, rfl⟩ := fire_eq_some.mp hfire
  cases e with
  | call call =>
    simp only [step] at hstep
    split at hstep
    · exact inv_begin h hstep
    · cases hstep
  | dispatch =>
    simp only [step] at hstep
    split at hstep
    · rename_i hidle
      cases hstep
      simp only [Bool.and_eq_true, Bool.not_eq_true'] at hidle
      have houtside := h.outside_of_idle hidle.1.2 hidle.2
      have hledger : Ledger { c.shared with requested := false, dispatching := true } :=
        ⟨h.ledger.account, h.ledger.legal⟩
      refine Inv.alone (l := [.scan 0 false]) (houtside t) (fun u _ => houtside u) hledger
        (by simp [Fits]) ?_ ?_ ?_
      all_goals simp [criticals, dispatches, Frame.inCritical, Frame.inDispatch, hidle]
    · cases hstep
  | resume spurious =>
    simp only at hstep
    generalize hl : c.thread t = l at hstep
    cases l with
    | nil => cases hstep
    | cons f rest =>
      obtain ⟨rfl, rfl⟩ := Prod.mk.inj (Option.some.inj hstep)
      rcases hcritical : f.inCritical with _ | _
      · rcases hdispatch : f.inDispatch with _ | _
        · exact inv_outside h hl ⟨hcritical, hdispatch⟩ spurious
        · exact inv_dispatch h hl hdispatch spurious
      · exact inv_critical h hl hcritical spurious

end Steps

end RooTesting.InterruptController
