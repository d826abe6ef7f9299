import Mathlib.Tactic.Common

/-! # Runs of a partial step function

A step consumes one event and may be disabled. A run consumes a list of events.
Invariants are lifted from one step to a run, also when every step of the run
meets a condition on the state it is taken in. -/
namespace RooTesting.Transition

universe u v
variable {α : Type u} {ε : Type v}

/-- The state after a list of events, when each of them is enabled in turn. -/
def run (step : α → ε → Option α) : α → List ε → Option α
  | s, [] => some s
  | s, e :: es => (step s e).bind fun s' => run step s' es

variable {step : α → ε → Option α}

@[simp] theorem run_nil (s : α) : run step s [] = some s := rfl

theorem run_cons (s : α) (e : ε) (es : List ε) :
    run step s (e :: es) = (step s e).bind fun s' => run step s' es := rfl

/-- The first step of a run, split off. -/
theorem run_cons_eq_some {s z : α} {e : ε} {es : List ε} :
    run step s (e :: es) = some z ↔ ∃ s', step s e = some s' ∧ run step s' es = some z := by
  simp [run_cons, Option.bind_eq_some_iff]

theorem run_append (s : α) (es fs : List ε) :
    run step s (es ++ fs) = (run step s es).bind fun s' => run step s' fs := by
  induction es generalizing s with
  | nil => rfl
  | cons e es ih =>
    simp only [List.cons_append, run_cons, Option.bind_assoc]
    cases h : step s e with
    | none => rfl
    | some s' => simpa using ih s'

/-- One step keeps the property. -/
def Preserves (step : α → ε → Option α) (I : α → Prop) : Prop :=
  ∀ ⦃s e s'⦄, step s e = some s' → I s → I s'

theorem Preserves.run {I : α → Prop} (h : Preserves step I) {s s' : α} {es : List ε}
    (hr : run step s es = some s') (hs : I s) : I s' := by
  induction es generalizing s with
  | nil => cases hr; exact hs
  | cons e es ih =>
    obtain ⟨t, ht, hr⟩ := run_cons_eq_some.mp hr
    exact ih hr (h ht hs)

/-- Two invariants may use one another at every step. -/
theorem Preserves.and {I J : α → Prop} (hI : Preserves step I)
    (hJ : ∀ ⦃s e s'⦄, step s e = some s' → I s → J s → J s') :
    Preserves step (fun s => I s ∧ J s) := by
  intro s e s' h hs
  exact ⟨hI h hs.1, hJ h hs.1 hs.2⟩

/-- A relation between the two ends of a run, from its step by step form. -/
theorem run_rel {R : α → α → Prop} (hrefl : ∀ s, R s s)
    (htrans : ∀ ⦃a b c⦄, R a b → R b c → R a c)
    (h : ∀ ⦃s e s'⦄, step s e = some s' → R s s') {s s' : α} {es : List ε}
    (hr : run step s es = some s') : R s s' := by
  induction es generalizing s with
  | nil => cases hr; exact hrefl _
  | cons e es ih =>
    obtain ⟨t, ht, hr⟩ := run_cons_eq_some.mp hr
    exact htrans (h ht) (ih hr)

/-- What no step raises by more than one, no run raises by more than its length. -/
theorem Preserves.run_le {I : α → Prop} (h : Preserves step I) {f : α → ℕ}
    (hle : ∀ ⦃s e s'⦄, I s → step s e = some s' → f s' ≤ f s + 1) {s s' : α} {es : List ε}
    (hr : Transition.run step s es = some s') (hs : I s) : f s' ≤ f s + es.length := by
  induction es generalizing s with
  | nil =>
    cases hr
    exact Nat.le_add_right _ _
  | cons e es ih =>
    obtain ⟨t, ht, hr⟩ := run_cons_eq_some.mp hr
    have hrest := ih hr (h ht hs)
    have hfirst := hle hs ht
    rw [List.length_cons]
    omega

/-- Every step of the run meets `ok` in the state it is taken in. -/
def Meets (step : α → ε → Option α) (ok : α → ε → Prop) : α → List ε → Prop
  | _, [] => True
  | s, e :: es => ok s e ∧ ∀ s', step s e = some s' → Meets step ok s' es

theorem Meets.cons {ok : α → ε → Prop} {s s' : α} {e : ε} {es : List ε} (h : ok s e)
    (hs : step s e = some s') (hm : Meets step ok s' es) : Meets step ok s (e :: es) := by
  refine ⟨h, fun t ht => ?_⟩
  obtain rfl := Option.some.inj (hs.symm.trans ht)
  exact hm

/-- A condition on the events alone. -/
theorem Meets.of_forall {ok : ε → Prop} {s : α} {es : List ε} (h : ∀ e ∈ es, ok e) :
    Meets step (fun _ e => ok e) s es := by
  induction es generalizing s with
  | nil => trivial
  | cons e es ih =>
    exact ⟨h e List.mem_cons_self, fun s' _ => ih fun f hf => h f (List.mem_cons_of_mem _ hf)⟩

theorem Meets.and {ok ok' : α → ε → Prop} {s : α} {es : List ε} (h : Meets step ok s es)
    (h' : Meets step ok' s es) : Meets step (fun s e => ok s e ∧ ok' s e) s es := by
  induction es generalizing s with
  | nil => trivial
  | cons e es ih => exact ⟨⟨h.1, h'.1⟩, fun s' hs => ih (h.2 s' hs) (h'.2 s' hs)⟩

/-- A weaker condition. -/
theorem Meets.imp {ok ok' : α → ε → Prop} (himp : ∀ s e, ok s e → ok' s e) {s : α} {es : List ε}
    (h : Meets step ok s es) : Meets step ok' s es := by
  induction es generalizing s with
  | nil => trivial
  | cons e es ih => exact ⟨himp s e h.1, fun s' hs => ih (h.2 s' hs)⟩

/-- Walks the run and looks at each step. -/
def check (step : α → ε → Option α) (test : α → ε → Bool) : α → List ε → Bool
  | _, [] => true
  | s, e :: es => test s e && (step s e).all fun s' => check step test s' es

theorem Meets.of_check {ok : α → ε → Prop} {test : α → ε → Bool} {I : α → Prop}
    (hkeeps : ∀ ⦃s e s'⦄, I s → test s e = true → step s e = some s' → I s')
    (htest : ∀ s e, I s → test s e = true → ok s e) {s : α} {es : List ε} (hs : I s)
    (hcheck : check step test s es = true) : Meets step ok s es := by
  induction es generalizing s with
  | nil => trivial
  | cons e es ih =>
    rw [check, Bool.and_eq_true] at hcheck
    refine ⟨htest s e hs hcheck.1, fun s' hstep => ?_⟩
    rw [hstep] at hcheck
    exact ih (hkeeps hs hcheck.1 hstep) hcheck.2

/-- Steps that meet a condition keep the property. -/
def PreservesWhen (step : α → ε → Option α) (ok : α → ε → Prop) (I : α → Prop) : Prop :=
  ∀ ⦃s e s'⦄, ok s e → step s e = some s' → I s → I s'

theorem Preserves.when {I : α → Prop} (h : Preserves step I) (ok : α → ε → Prop) :
    PreservesWhen step ok I :=
  fun _ _ _ _ hs => h hs

theorem PreservesWhen.run {ok : α → ε → Prop} {I : α → Prop} (h : PreservesWhen step ok I)
    {s s' : α} {es : List ε} (hm : Meets step ok s es) (hr : run step s es = some s')
    (hs : I s) : I s' := by
  induction es generalizing s with
  | nil => cases hr; exact hs
  | cons e es ih =>
    obtain ⟨t, ht, hr⟩ := run_cons_eq_some.mp hr
    exact ih (hm.2 t ht) hr (h hm.1 ht hs)

/-- What a condition says wherever an invariant holds that it keeps. -/
theorem Meets.along {ok ok' : α → ε → Prop} {I : α → Prop} (hkeeps : PreservesWhen step ok I)
    (himp : ∀ s e, I s → ok s e → ok' s e) {s : α} {es : List ε} (hs : I s)
    (h : Meets step ok s es) : Meets step ok' s es := by
  induction es generalizing s with
  | nil => trivial
  | cons e es ih => exact ⟨himp s e hs h.1, fun t ht => ih (hkeeps h.1 ht hs) (h.2 t ht)⟩

/-- What the rest of a run meets, after its beginning. -/
theorem Meets.after {ok : α → ε → Prop} {s t : α} {es fs : List ε}
    (h : Meets step ok s (es ++ fs)) (hr : Transition.run step s es = some t) :
    Meets step ok t fs := by
  induction es generalizing s with
  | nil =>
    cases hr
    exact h
  | cons e es ih =>
    obtain ⟨s', hs', hr⟩ := run_cons_eq_some.mp hr
    exact ih (h.2 s' hs') hr

/-- Two conditions that are the same wherever an invariant holds, when one of them keeps it. -/
theorem Meets.congr {ok ok' : α → ε → Prop} {I : α → Prop} (hkeeps : PreservesWhen step ok I)
    (hiff : ∀ s e, I s → (ok s e ↔ ok' s e)) {s : α} {es : List ε} (hs : I s) :
    Meets step ok s es ↔ Meets step ok' s es := by
  induction es generalizing s with
  | nil => exact Iff.rfl
  | cons e es ih =>
    constructor
    · rintro ⟨hok, hrest⟩
      exact ⟨(hiff s e hs).1 hok, fun t ht => (ih (hkeeps hok ht hs)).1 (hrest t ht)⟩
    · rintro ⟨hok', hrest⟩
      have hok := (hiff s e hs).2 hok'
      exact ⟨hok, fun t ht => (ih (hkeeps hok ht hs)).2 (hrest t ht)⟩

/-- Where a step keeps a property exactly when it meets a condition, the property holds all
along a run exactly when every step of the run meets the condition. -/
theorem always_iff_meets {ok : α → ε → Prop} {I J : α → Prop} {s z : α} {es : List ε}
    (hJ : Preserves step J)
    (hstep : ∀ ⦃s e s'⦄, e ∈ es → J s → I s → step s e = some s' → (I s' ↔ ok s e))
    (hr : run step s es = some z) (hj : J s) (hi : I s) :
    (∀ n s', run step s (es.take n) = some s' → I s') ↔ Meets step ok s es := by
  induction es generalizing s with
  | nil =>
    apply iff_of_true _ trivial
    intro n s' hrun
    rw [List.take_nil] at hrun
    cases hrun
    exact hi
  | cons e es ih =>
    obtain ⟨t, ht, hr⟩ := run_cons_eq_some.mp hr
    have hiff := hstep List.mem_cons_self hj hi ht
    have hrest := fun hi' : I t =>
      ih (fun _ _ _ he => hstep (List.mem_cons_of_mem _ he)) hr (hJ ht hj) hi'
    constructor
    · intro halways
      have hi' : I t := by
        apply halways 1 t
        rw [List.take_succ_cons, List.take_zero, run_cons, ht]
        rfl
      refine Meets.cons (hiff.mp hi') ht ((hrest hi').mp ?_)
      intro n s' hrun
      apply halways (n + 1) s'
      rw [List.take_succ_cons, run_cons, ht]
      exact hrun
    · rintro ⟨hok, hmeets⟩ n s' hrun
      cases n with
      | zero =>
        cases hrun
        exact hi
      | succ n =>
        rw [List.take_succ_cons, run_cons, ht] at hrun
        exact (hrest (hiff.mpr hok)).mpr (hmeets t ht) n s' hrun

end RooTesting.Transition
