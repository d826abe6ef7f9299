import RooTesting.InterruptController

/-! # What the slots record

Each registration has a generation of its own. Its handler is in the slot while it is
registered, and every invocation claims a set-pending of the same registration. -/
namespace RooTesting.InterruptController
open Transition Threads

section Histories

variable (slot : ℕ) (g : Generation) (h : List Entry)

/-- The registration exists and has not been removed. -/
def Live : Prop :=
  (∃ handler argument, .registered slot g handler argument ∈ h) ∧ .unregistered slot g ∉ h

def pendings : ℕ := h.count (.pended slot g)

def claims : ℕ := h.count (.claimed slot g)

def Entry.isInvocation : Entry → Bool
  | .invoked i g' _ _ => i = slot && g' = g
  | _ => false

def invocations : ℕ := h.countP (Entry.isInvocation slot g)

end Histories

/-- A history in which every registration is new, and everything else happens to a live
registration; an invocation runs the registered handler, and there are never more
invocations than set-pendings. -/
def Legal : List Entry → Prop
  | [] => True
  | .registered slot g _ _ :: h =>
    (∀ g' handler argument, .registered slot g' handler argument ∈ h →
      g' < g ∧ .unregistered slot g' ∈ h) ∧ Legal h
  | .unregistered slot g :: h => Live slot g h ∧ Legal h
  | .pended slot g :: h => Live slot g h ∧ Legal h
  | .claimed slot g :: h => (Live slot g h ∧ claims slot g h < pendings slot g h) ∧ Legal h
  | .invoked slot g handler argument :: h =>
    (Live slot g h ∧ .registered slot g handler argument ∈ h ∧
      invocations slot g h < pendings slot g h) ∧ Legal h

def Entry.slot : Entry → ℕ
  | .registered i .. | .unregistered i _ | .pended i _ | .claimed i _ | .invoked i .. => i

/-- A slot and the history agree. -/
structure Account (i : ℕ) (v : Slot) (h : List Entry) : Prop where
  handler : allocated v.state = true → ∃ handler, v.handler = some handler ∧
    .registered i (generation v.state) handler v.argument ∈ h ∧
    .unregistered i (generation v.state) ∉ h
  registered : ∀ g handler argument, .registered i g handler argument ∈ h →
    g ≤ generation v.state ∧
      (allocated v.state = true ∧ g = generation v.state ∨ .unregistered i g ∈ h)
  unregistered : ∀ g, .unregistered i g ∈ h → g ≤ generation v.state
  claims : ∀ g, claims i g h +
    (if pending v.state = true ∧ generation v.state = g then 1 else 0) ≤ pendings i g h
  invocations : ∀ g, invocations i g h ≤ InterruptController.claims i g h

section Accounts

variable {i : ℕ} {v w : Slot} {h : List Entry}

theorem mem_cons_of_slot_ne {e x : Entry} (hne : e.slot ≠ x.slot) : x ∈ e :: h ↔ x ∈ h := by
  constructor
  · intro hx
    rcases List.mem_cons.mp hx with rfl | hx
    · exact absurd rfl hne
    · exact hx
  · exact List.mem_cons_of_mem e

theorem invocations_cons_of_slot_ne {e : Entry} (hne : e.slot ≠ i) (g : Generation) :
    invocations i g (e :: h) = invocations i g h := by
  refine List.countP_cons_of_neg ?_
  cases e <;> simp_all [Entry.isInvocation, Entry.slot]

theorem Account.of_slot_ne (ha : Account i v h) {e : Entry} (hne : e.slot ≠ i) :
    Account i v (e :: h) := by
  have hcount : ∀ x : Entry, x.slot = i → List.count x (e :: h) = List.count x h :=
    fun x hx => List.count_cons_of_ne fun heq => hne (congrArg Entry.slot heq |>.trans hx)
  have hmem : ∀ x : Entry, x.slot = i → (x ∈ e :: h ↔ x ∈ h) :=
    fun x hx => mem_cons_of_slot_ne (hx ▸ hne)
  refine ⟨fun hallocated => ?_, fun g handler argument hr => ?_, fun g hu => ?_, fun g => ?_,
    fun g => ?_⟩
  · obtain ⟨handler, hh, hr, hu⟩ := ha.handler hallocated
    exact ⟨handler, hh, (hmem _ rfl).mpr hr, fun hx => hu ((hmem _ rfl).mp hx)⟩
  · rw [hmem _ rfl] at hr ⊢
    exact ha.registered g handler argument hr
  · exact ha.unregistered g ((hmem _ rfl).mp hu)
  · rw [InterruptController.claims, pendings, hcount _ rfl, hcount _ rfl]
    exact ha.claims g
  · rw [invocations_cons_of_slot_ne hne, InterruptController.claims, hcount _ rfl]
    exact ha.invocations g

/-- A slot that keeps its registration, and is not newly pending. -/
theorem Account.of_flags (ha : Account i v h) (hhandler : w.handler = v.handler)
    (hargument : w.argument = v.argument) (hallocated : allocated w.state = allocated v.state)
    (hgeneration : generation w.state = generation v.state)
    (hpending : pending w.state = true → pending v.state = true) : Account i w h := by
  refine ⟨?_, ?_, ?_, fun g => ?_, ha.invocations⟩
  · rw [hallocated, hgeneration, hhandler, hargument]
    exact ha.handler
  · rw [hallocated, hgeneration]
    exact ha.registered
  · rw [hgeneration]
    exact ha.unregistered
  · rw [hgeneration]
    refine le_trans (Nat.add_le_add_left ?_ _) (ha.claims g)
    split
    · rename_i hp
      rw [if_pos ⟨hpending hp.1, hp.2⟩]
    · exact Nat.zero_le _

/-- The handler and the argument of a slot that is not registered. -/
theorem Account.of_hidden (ha : Account i v h) (hallocated : allocated v.state = false)
    (hstate : w.state = v.state) : Account i w h := by
  refine ⟨?_, ?_, ?_, ?_, ha.invocations⟩
  · rw [hstate, hallocated]
    exact fun hf => absurd hf Bool.false_ne_true
  · rw [hstate]
    exact ha.registered
  · rw [hstate]
    exact ha.unregistered
  · rw [hstate]
    exact ha.claims

theorem Account.live (ha : Account i v h) (hallocated : allocated v.state = true) :
    Live i (generation v.state) h := by
  obtain ⟨handler, -, hr, hu⟩ := ha.handler hallocated
  exact ⟨⟨handler, _, hr⟩, hu⟩

theorem Account.pended (ha : Account i v h) (hhandler : w.handler = v.handler)
    (hargument : w.argument = v.argument) (hallocated : allocated w.state = allocated v.state)
    (hgeneration : generation w.state = generation v.state) :
    Account i w (.pended i (generation v.state) :: h) := by
  refine ⟨?_, ?_, ?_, fun g => ?_, fun g => ?_⟩
  · rw [hallocated, hgeneration, hhandler, hargument]
    simpa using ha.handler
  · rw [hallocated, hgeneration]
    simpa using ha.registered
  · rw [hgeneration]
    simpa using ha.unregistered
  · have hc := ha.claims g
    rw [hgeneration]
    simp only [InterruptController.claims, pendings, List.count_cons] at hc ⊢
    by_cases hg : generation v.state = g
    · subst hg
      simp at hc ⊢
      split <;> split at hc <;> omega
    · simp [hg] at hc ⊢
      exact hc
  · have hi := ha.invocations g
    simpa [InterruptController.claims, InterruptController.invocations, List.count_cons,
      Entry.isInvocation] using hi

/-- A registration of a free slot takes the next generation. -/
theorem Account.register (ha : Account i v h) (hfree : allocated v.state = false)
    (hunused : hasUnusedGeneration v.state = true) {handler argument : ℕ}
    (hhandler : w.handler = some handler) (hargument : w.argument = argument)
    (hallocated : allocated w.state = true)
    (hgeneration : generation w.state = generation v.state + 1)
    (hpending : pending w.state = false) :
    Account i w (.registered i (generation v.state + 1) handler argument :: h) ∧
      ∀ g' handler argument, .registered i g' handler argument ∈ h →
        g' < generation v.state + 1 ∧ .unregistered i g' ∈ h := by
  have hlt : generation v.state < generation v.state + 1 := by
    have hmax : (generation v.state).toNat < 2 ^ 32 - 1 := by
      simpa [hasUnusedGeneration, kMaxGeneration, BitVec.lt_def] using hunused
    rw [BitVec.lt_def, BitVec.toNat_add]
    simp
    omega
  have hold : ∀ g' handler argument, .registered i g' handler argument ∈ h →
      g' < generation v.state + 1 ∧ .unregistered i g' ∈ h := by
    intro g' handler argument hr
    obtain ⟨hle, hor⟩ := ha.registered g' handler argument hr
    refine ⟨Nat.lt_of_le_of_lt hle hlt, hor.resolve_left fun hx => ?_⟩
    exact Bool.false_ne_true (hfree.symm.trans hx.1)
  refine ⟨⟨fun _ => ?_, fun g handler' argument' hr => ?_, fun g hu => ?_, fun g => ?_,
    fun g => ?_⟩, hold⟩
  · refine ⟨handler, hhandler, ?_, ?_⟩
    · rw [hgeneration, hargument]
      exact List.mem_cons_self
    · rw [hgeneration]
      intro hu
      have hle := ha.unregistered _ ((List.mem_cons.mp hu).resolve_left (by simp))
      exact BitVec.not_lt.mpr hle hlt
  · rw [hgeneration]
    rcases List.mem_cons.mp hr with heq | hr
    · obtain ⟨-, rfl, -, -⟩ := Entry.registered.inj heq
      exact ⟨BitVec.le_refl _, Or.inl ⟨hallocated, rfl⟩⟩
    · obtain ⟨hg, hu⟩ := hold g handler' argument' hr
      exact ⟨BitVec.le_of_lt hg, Or.inr (List.mem_cons_of_mem _ hu)⟩
  · rw [hgeneration]
    have hle := ha.unregistered _ ((List.mem_cons.mp hu).resolve_left (by simp))
    exact BitVec.le_trans hle (BitVec.le_of_lt hlt)
  · have hc := ha.claims g
    simp only [InterruptController.claims, pendings, List.count_cons, hpending] at hc ⊢
    simp
    omega
  · simpa [InterruptController.claims, InterruptController.invocations, List.count_cons,
      Entry.isInvocation] using ha.invocations g

theorem Account.unregister (ha : Account i v h) {g : Generation} (hg : generation v.state = g)
    (hallocated : allocated w.state = false) (hgeneration : generation w.state = g)
    (hpending : pending w.state = false) : Account i w (.unregistered i g :: h) := by
  subst hg
  refine ⟨fun hf => ?_, fun g handler argument hr => ?_, fun g hu => ?_, fun g => ?_,
    fun g => ?_⟩
  · exact absurd (hallocated.symm.trans hf) Bool.false_ne_true
  · obtain ⟨hle, hor⟩ := ha.registered g handler argument
      ((List.mem_cons.mp hr).resolve_left (by simp))
    rw [hgeneration]
    refine ⟨hle, Or.inr ?_⟩
    rcases hor with ⟨-, rfl⟩ | hu
    · exact List.mem_cons_self
    · exact List.mem_cons_of_mem _ hu
  · rw [hgeneration]
    rcases List.mem_cons.mp hu with heq | hu
    · obtain ⟨-, rfl⟩ := Entry.unregistered.inj heq
      exact BitVec.le_refl _
    · exact ha.unregistered g hu
  · have hc := ha.claims g
    simp only [InterruptController.claims, pendings, List.count_cons, hpending] at hc ⊢
    simp
    omega
  · simpa [InterruptController.claims, InterruptController.invocations, List.count_cons,
      Entry.isInvocation] using ha.invocations g

theorem Account.claimed (ha : Account i v h) (hp : pending v.state = true)
    (hhandler : w.handler = v.handler) (hargument : w.argument = v.argument)
    (hallocated : allocated w.state = allocated v.state)
    (hgeneration : generation w.state = generation v.state)
    (hpending : pending w.state = false) :
    Account i w (.claimed i (generation v.state) :: h) ∧
      InterruptController.claims i (generation v.state) h <
        pendings i (generation v.state) h ∧
      InterruptController.invocations i (generation v.state)
          (.claimed i (generation v.state) :: h) <
        InterruptController.claims i (generation v.state)
          (.claimed i (generation v.state) :: h) := by
  refine ⟨⟨?_, ?_, ?_, fun g => ?_, fun g => ?_⟩, ?_, ?_⟩
  · rw [hallocated, hgeneration, hhandler, hargument]
    simpa using ha.handler
  · rw [hallocated, hgeneration]
    simpa using ha.registered
  · rw [hgeneration]
    simpa using ha.unregistered
  · have hc := ha.claims g
    simp only [InterruptController.claims, pendings, List.count_cons, hp] at hc ⊢
    by_cases hg : generation v.state = g
    · subst hg
      simp [hpending] at hc ⊢
      omega
    · simp [hg, hpending] at hc ⊢
      exact hc
  · have hi := ha.invocations g
    simp only [InterruptController.claims, InterruptController.invocations, List.count_cons,
      List.countP_cons, Entry.isInvocation] at hi ⊢
    simp
    omega
  · have hc := ha.claims (generation v.state)
    rw [if_pos ⟨hp, rfl⟩] at hc
    exact hc
  · have hi := ha.invocations (generation v.state)
    simp only [InterruptController.claims, InterruptController.invocations, List.count_cons,
      List.countP_cons, Entry.isInvocation] at hi ⊢
    simp
    omega

theorem Account.invoked (ha : Account i v h) {g : Generation}
    (hlt : InterruptController.invocations i g h < InterruptController.claims i g h)
    (handler argument : ℕ) : Account i v (.invoked i g handler argument :: h) := by
  refine ⟨by simpa using ha.handler, by simpa using ha.registered, by simpa using ha.unregistered,
    fun g' => ?_, fun g' => ?_⟩
  · have hc := ha.claims g'
    simpa [InterruptController.claims, pendings, List.count_cons] using hc
  · have hi := ha.invocations g'
    simp only [InterruptController.claims, InterruptController.invocations, List.count_cons,
      List.countP_cons, Entry.isInvocation] at hi hlt ⊢
    by_cases hg : g = g'
    · subst hg
      simp
      omega
    · simpa [hg] using hi

end Accounts

section Slots

variable (s : Shared) (i : ℕ) (v : Slot)

@[simp] theorem slots_setSlot_self : (s.setSlot i v).slots i = v := Function.update_self ..

theorem slots_setSlot_of_ne {j : ℕ} (hj : j ≠ i) : (s.setSlot i v).slots j = s.slots j :=
  Function.update_of_ne hj ..

@[simp] theorem word_setWord_self (w : Word) : (s.setWord i w).word i = w :=
  congrArg Slot.state (slots_setSlot_self ..)

theorem word_setWord_of_ne {j : ℕ} (hj : j ≠ i) (w : Word) : (s.setWord i w).word j = s.word j :=
  congrArg Slot.state (slots_setSlot_of_ne s i _ hj)

@[simp] theorem word_record (e : Entry) : (s.record e).word i = s.word i := rfl

@[simp] theorem history_setSlot : (s.setSlot i v).history = s.history := rfl

end Slots

structure Ledger (s : Shared) : Prop where
  account : ∀ i, Account i (s.slots i) s.history
  legal : Legal s.history

theorem Ledger.setSlot {s : Shared} (h : Ledger s) {i : ℕ} {v : Slot}
    (ha : Account i v s.history) : Ledger (s.setSlot i v) := by
  refine ⟨fun j => ?_, h.legal⟩
  by_cases hj : j = i
  · subst hj
    simpa using ha
  · rw [slots_setSlot_of_ne s i v hj]
    exact h.account j

theorem Ledger.record {s : Shared} (h : Ledger s) {i : ℕ} {v : Slot} {e : Entry}
    (he : e.slot = i) (ha : Account i v (e :: s.history)) (hl : Legal (e :: s.history)) :
    Ledger ((s.setSlot i v).record e) := by
  refine ⟨fun j => ?_, hl⟩
  by_cases hj : j = i
  · subst hj
    simpa [Shared.record] using ha
  · have hslot : ((s.setSlot i v).record e).slots j = s.slots j := slots_setSlot_of_ne s i v hj
    rw [hslot]
    exact (h.account j).of_slot_ne fun heq => hj (heq.symm.trans he)

/-- What a frame of a critical section or of the dispatcher knows about its slot. -/
def Fits (s : Shared) : Frame → Prop
  | .storeHandler i g _ _ _ => allocated (s.word i) = false ∧
      hasUnusedGeneration (s.word i) = true ∧ g = generation (s.word i) + 1
  | .storeArgument i g handler _ _ => allocated (s.word i) = false ∧
      hasUnusedGeneration (s.word i) = true ∧ g = generation (s.word i) + 1 ∧
      (s.slots i).handler = some handler
  | .storeState i g handler argument _ => allocated (s.word i) = false ∧
      hasUnusedGeneration (s.word i) = true ∧ g = generation (s.word i) + 1 ∧
      (s.slots i).handler = some handler ∧ (s.slots i).argument = argument
  | .clearHandler handle => allocated (s.word handle.slot) = false
  | .clearArgument handle => allocated (s.word handle.slot) = false
  | .invoke i g => allocated (s.word i) = true ∧ generation (s.word i) = g ∧
      invocations i g s.history < claims i g s.history
  | _ => True

def Frame.inCritical : Frame → Bool
  | .register .. | .storeHandler .. | .storeArgument .. | .storeState .. => true
  | .unregisterLoad _ | .unregister .. | .clearHandler _ | .clearArgument _ => true
  | _ => false

def Frame.inDispatch : Frame → Bool
  | .scan .. | .examine .. | .invoke .. => true
  | _ => false

def criticals (l : Local) : ℕ := l.countP Frame.inCritical
def dispatches (l : Local) : ℕ := l.countP Frame.inDispatch

/-- Frames outside critical sections and the dispatcher know nothing. -/
theorem fits_of_outside {s : Shared} {f : Frame} (hc : f.inCritical = false)
    (hd : f.inDispatch = false) : Fits s f := by
  cases f <;> trivial

/-- What the operations of other threads leave: the registrations, and all of the history
but set-pendings. -/
structure Gentle (s s' : Shared) : Prop where
  handler : ∀ i, (s'.slots i).handler = (s.slots i).handler
  argument : ∀ i, (s'.slots i).argument = (s.slots i).argument
  allocated : ∀ i, allocated (s'.word i) = allocated (s.word i)
  generation : ∀ i, generation (s'.word i) = generation (s.word i)
  claims : ∀ i g, claims i g s'.history = claims i g s.history
  invocations : ∀ i g, invocations i g s'.history = invocations i g s.history

theorem Gentle.refl (s : Shared) : Gentle s s :=
  ⟨fun _ => rfl, fun _ => rfl, fun _ => rfl, fun _ => rfl, fun _ _ => rfl, fun _ _ => rfl⟩

theorem Gentle.fits {s s' : Shared} (h : Gentle s s') {f : Frame} (hf : Fits s f) :
    Fits s' f := by
  cases f <;> simp only [Fits, hasUnusedGeneration, h.handler, h.argument, h.allocated,
    h.generation, h.claims, h.invocations] at hf ⊢ <;> exact hf

end RooTesting.InterruptController
