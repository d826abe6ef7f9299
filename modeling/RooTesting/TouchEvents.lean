import RooTesting.TouchPanels
import RooTesting.Transition

/-! # The events of the FT6x36

A poll should report a press when a touch begins, contact while it lasts, and once more, at the
place it had last, that it has ended. A read never stores that the panel is pressed, so that each
poll is answered as if none had come before it. -/
namespace RooTesting.Touch

open Transition

/-- A read of 16 bytes with a stop, and what is clicked at the time. -/
structure Poll where
  clicked : Option (ℤ × ℤ)
  buff : ℕ → Byte

/-- The controller, and the coordinates of the poll before when that one was pressed. -/
structure Session where
  device : FakeFt6x36
  held : Option (ℤ × ℤ)

/-- An event with its coordinates; no touch at all is `none`. -/
abbrev Event := Option (Kind × ℤ × ℤ)

/-- The event a poll should report. -/
def expected (held touch : Option (ℤ × ℤ)) : Event :=
  match held, touch with
  | none, some t => some (.pressDown, t)
  | some _, some t => some (.contact, t)
  | some t, none => some (.liftUp, t)
  | none, none => none

/-- What the registers of a successful read say. -/
def Says (out : Result × (ℕ → Byte) × FakeFt6x36) : Event → Prop
  | none => out.1 = .errorOk ∧ out.2.1 2 = 0
  | some (kind, x, y) => out.1 = .errorOk ∧
      ∃ buff, out.2.1 = FakeFt6x36.registers kind (.ofInt 16 x) (.ofInt 16 y) buff

namespace Session

variable (v : Viewport) (k : Calibration)

def begin (x y : ℤ) : Session := ⟨.new x y, none⟩

variable (x : Session) (poll : Poll)

def answer : Result × (ℕ → Byte) × FakeFt6x36 := x.device.read v k poll.clicked poll.buff 16 true

def step : Option Session := some ⟨(x.answer v k poll).2.2, poll.clicked.map (touched v k)⟩

/-- The poll is answered with its event. -/
def Reported : Prop := Says (x.answer v k poll) (expected x.held (poll.clicked.map (touched v k)))

end Session

section Polls

variable {v : Viewport} {k : Calibration} {x y : Session} {poll : Poll}

theorem read_idle {s : FakeFt6x36} (h : s.pressed = false) (buff : ℕ → Byte) :
    s.read v k none buff 16 true =
      (.errorOk, Function.update (Function.update (Function.update buff 0 0) 1 0) 2 0, s) := by
  unfold FakeFt6x36.read
  rw [if_neg (by decide)]
  exact if_pos ⟨h, rfl⟩

/-- A read stores coordinates only. -/
theorem pressed_step (h : x.device.pressed = false) (hs : x.step v k poll = some y) :
    y.device.pressed = false := by
  obtain rfl := Option.some.inj hs
  change (x.device.read v k poll.clicked poll.buff 16 true).2.2.pressed = false
  cases poll.clicked with
  | none =>
    rw [read_idle h]
    exact h
  | some p =>
    rw [read_touch]
    exact h

/-- The kinds of a touch are told apart by their register. -/
theorem says_kind {out : Result × (ℕ → Byte) × FakeFt6x36} {kind kind' : Kind} {t : ℤ × ℤ}
    (h : Says out (some (kind, t))) (h' : Says out (some (kind', t))) :
    kind.value = kind'.value := by
  obtain ⟨-, buff, hbuff⟩ := h
  obtain ⟨-, buff', hbuff'⟩ := h'
  exact (BitVec.add_right_inj _).mp (congrFun (hbuff.symm.trans hbuff') 3)

/-- No touch is told apart from a touch by the number of touches. -/
theorem says_none {out : Result × (ℕ → Byte) × FakeFt6x36} {kind : Kind} {t : ℤ × ℤ}
    (h : Says out none) (h' : Says out (some (kind, t))) : False := by
  obtain ⟨-, hzero⟩ := h
  obtain ⟨-, buff, hbuff⟩ := h'
  rw [hbuff] at hzero
  exact absurd hzero (by decide : (1 : Byte) ≠ 0)

variable (poll) in
/-- What a controller that does not count as pressed answers. -/
theorem answer_says (h : x.device.pressed = false) :
    Says (x.answer v k poll) (expected none (poll.clicked.map (touched v k))) := by
  unfold Session.answer
  cases poll.clicked with
  | none =>
    rw [read_idle h]
    exact ⟨rfl, rfl⟩
  | some p =>
    rw [read_touch, h]
    exact ⟨rfl, _, rfl⟩

/-- A poll is answered with its event when the one before it was not pressed. -/
theorem reported_iff (h : x.device.pressed = false) : x.Reported v k poll ↔ x.held = none := by
  have hsays := answer_says (v := v) (k := k) poll h
  unfold Session.Reported
  cases hheld : x.held with
  | none => exact iff_of_true hsays rfl
  | some t =>
    refine iff_of_false (fun hreported => ?_) (Option.some_ne_none t)
    cases hclicked : poll.clicked with
    | none =>
      rw [hclicked] at hsays hreported
      exact says_none hsays hreported
    | some p =>
      rw [hclicked] at hsays hreported
      exact absurd (says_kind hsays hreported) (by decide)

theorem held_iff (polls : List Poll) :
    Meets (Session.step v k) (fun x _ => x.held = none) x polls ↔
      (polls ≠ [] → x.held = none) ∧ ∀ poll ∈ polls.dropLast, poll.clicked = none := by
  induction polls generalizing x with
  | nil => exact iff_of_true trivial ⟨fun hno => absurd rfl hno, fun poll hpoll => by cases hpoll⟩
  | cons poll polls ih =>
    have hrest : Meets (Session.step v k) (fun x _ => x.held = none) x (poll :: polls) ↔
        x.held = none ∧ (polls ≠ [] → poll.clicked.map (touched v k) = none) ∧
          ∀ poll ∈ polls.dropLast, poll.clicked = none := by
      refine and_congr_right fun _ => ?_
      rw [← ih (x := ⟨(x.answer v k poll).2.2, poll.clicked.map (touched v k)⟩)]
      exact ⟨fun h => h _ rfl, fun h y hy => Option.some.inj hy ▸ h⟩
    rw [hrest]
    cases polls with
    | nil =>
      refine ⟨fun h => ⟨fun _ => h.1, h.2.2⟩, fun h => ⟨h.1 (List.cons_ne_nil _ _), ?_, h.2⟩⟩
      exact fun hno => absurd rfl hno
    | cons next polls =>
      have hne : poll :: next :: polls ≠ [] := List.cons_ne_nil _ _
      have hne' : next :: polls ≠ [] := List.cons_ne_nil _ _
      rw [List.dropLast_cons_of_ne_nil hne', List.forall_mem_cons, imp_iff_right hne,
        imp_iff_right hne', Option.map_eq_none_iff]

end Polls

/-- In every history from a new controller each poll is answered with its event, exactly when no
poll comes after a pressed one. -/
theorem events_iff (v : Viewport) (k : Calibration) (x y : ℤ) (polls : List Poll) :
    Meets (Session.step v k) (Session.Reported v k) (.begin x y) polls ↔
      ∀ poll ∈ polls.dropLast, poll.clicked = none := by
  have hkeeps : PreservesWhen (Session.step v k) (Session.Reported v k)
      fun x => x.device.pressed = false :=
    fun x poll y _ hs h => pressed_step h hs
  rw [Meets.congr hkeeps (fun x poll h => reported_iff h) rfl, held_iff]
  exact and_iff_right fun _ => rfl

/-- The second poll of a press reports another press. -/
theorem contact_never_reported :
    ¬∀ (v : Viewport) (k : Calibration) (x y : ℤ) (polls : List Poll),
      Meets (Session.step v k) (Session.Reported v k) (.begin x y) polls := by
  intro h
  have hpolls := h ⟨240, 320⟩ ⟨0, 0, 239, 319, false, false, false⟩ 0 0
    [⟨some (0, 0), fun _ => 0⟩, ⟨some (0, 0), fun _ => 0⟩]
  obtain ⟨-, buff, hbuff⟩ := (hpolls.2 _ rfl).1
  have hkinds : (0x00 : Byte) = 0x80 := congrFun hbuff 3
  exact absurd hkinds (by decide)

end RooTesting.Touch
