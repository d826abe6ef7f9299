import RooTesting.DisplayWindows
import RooTesting.Transition
import Mathlib.Tactic.IntervalCases

/-! # The colours of the ST77xx controllers

A pixel of a stream has the channels of its two bytes, each widened by its own highest bits. INVON
should complement them until INVOFF or a reset, but the controller clears the mode there as well:
it draws every pixel as it came. -/
namespace RooTesting.Displays

open Transition

/-- A channel of five bits, followed by its highest bits again. -/
def replicate5 (c : BitVec 5) : Byte := (c.setWidth 8 <<< 3) ||| (c.setWidth 8 >>> 2)
def replicate6 (c : BitVec 6) : Byte := (c.setWidth 8 <<< 2) ||| (c.setWidth 8 >>> 4)

def red (color : Word) : BitVec 5 := color.extractLsb' 11 5
def green (color : Word) : BitVec 6 := color.extractLsb' 5 6
def blue (color : Word) : BitVec 5 := color.extractLsb' 0 5

def opaqueArgb (r g b : Byte) : BitVec 32 :=
  0xFF000000 ||| (r.setWidth 32 <<< 16) ||| (g.setWidth 32 <<< 8) ||| b.setWidth 32

/-- The colour a pixel is to be drawn with. -/
def expanded (inverted : Bool) (color : Word) : BitVec 32 :=
  let r := replicate5 (red color)
  let g := replicate6 (green color)
  let b := replicate5 (blue color)
  if inverted then opaqueArgb (~~~r) (~~~g) (~~~b) else opaqueArgb r g b

/-- What reaches the controller: a transfer with RST low, or a byte with its level of D/C. -/
inductive Event
  | rstLow
  | command (cmd : Byte)
  | data (b : Byte)
  deriving DecidableEq

/-- What a stream says about its next pixel: whether INVON was the last command or reset to set the
mode, whether pixels follow, and the first byte of a pixel. -/
structure Traffic where
  inverted : Bool
  drawing : Bool
  half : Option Byte

namespace Traffic

variable (t : Traffic)

def next : Event → Traffic
  | .rstLow => { t with inverted := false }
  | .command cmd =>
    { inverted := if cmd = 0x21 then true else if cmd = 0x20 ∨ cmd = 0x01 then false else t.inverted
      drawing := cmd = 0x2C
      half := none }
  | .data b =>
    if t.drawing then { t with half := match t.half with | none => some b | some _ => none } else t

/-- The pixel that a byte completes. -/
def pixel : Event → Option Word
  | .data b => if t.drawing then t.half.map fun hi => word hi b else none
  | _ => none

end Traffic

def State.event (p : Panel) (s : State) : Event → Except Error State
  | .rstLow => .ok (s.reset p)
  | .command cmd => s.handle p (.command (cmd.setWidth 16))
  | .data b => s.handle p (.data (b.setWidth 16))

/-- The events of a sequence of transfers. -/
def Transfer.events (t : Transfer) : List Event :=
  if t.resetLow then [.rstLow] else t.bytes.map fun b => if t.command then .command b else .data b

/-- The controller beside what the stream has said so far. -/
structure Screen where
  state : State
  traffic : Traffic

namespace Screen

variable (p : Panel)

def step (x : Screen) (e : Event) : Option Screen :=
  (x.state.event p e).toOption.map fun state => ⟨state, x.traffic.next e⟩

/-- A new device, which may count any command as its last one. -/
def begin (g : State) : Screen := ⟨g, ⟨false, g.lastCommand = 0x2C, none⟩⟩

/-- A completed pixel is drawn in its colour, at the place of the cursor when that is visible. -/
def Colored (x : Screen) (e : Event) : Prop :=
  ∀ y, x.step p e = some y → y.state.writes = x.state.writes ++
    match x.traffic.pixel e with
    | some color => writeAt (expanded x.traffic.inverted color)
        (p.place x.state.madCtl x.state.xCursor x.state.yCursor)
    | none => []

/-- What a byte has to draw. -/
def wanted (x : Screen) (e : Event) : List Write :=
  match x.traffic.pixel e with
  | some color => writeAt (expanded x.traffic.inverted color)
      (p.place x.state.madCtl x.state.xCursor x.state.yCursor)
  | none => []

/-- What a stream has to draw, as far as it is accepted. -/
def picture (x : Screen) : List Event → List Write
  | [] => []
  | e :: es => x.wanted p e ++
    match x.step p e with
    | some y => y.picture es
    | none => []

/-- No visible pixel is completed while INVON is in force. -/
def Unseen (x : Screen) (e : Event) : Prop :=
  x.traffic.inverted = true → (x.traffic.pixel e).isSome →
    p.place x.state.madCtl x.state.xCursor x.state.yCursor = none

/-- The device has collected what the stream has said. -/
structure Follows (x : Screen) : Prop where
  steady : Steady x.state
  drawing : x.traffic.drawing = true ↔ x.state.lastCommand = 0x2C
  first : x.traffic.drawing = true → x.traffic.half = none → x.state.bufSize = 0
  second : ∀ hi, x.traffic.drawing = true → x.traffic.half = some hi →
    x.state.bufSize = 1 ∧ x.state.buf 0 = hi.setWidth 16

end Screen

theorem red_replicated (color : Word) :
    ((color.setWidth 32 >>> 8) &&& 0xF8) ||| (color.setWidth 32 >>> 13) =
      (replicate5 (red color)).setWidth 32 := by
  apply BitVec.eq_of_getLsbD_eq
  intro i hi
  interval_cases i <;> simp [replicate5, red]

theorem green_replicated (color : Word) :
    ((color.setWidth 32 >>> 3) &&& 0xFC) ||| ((color.setWidth 32 >>> 9) &&& 0x03) =
      (replicate6 (green color)).setWidth 32 := by
  apply BitVec.eq_of_getLsbD_eq
  intro i hi
  interval_cases i <;> simp [replicate6, green]

theorem blue_replicated (color : Word) :
    ((color.setWidth 32 <<< 3) &&& 0xF8) ||| ((color.setWidth 32 >>> 2) &&& 0x07) =
      (replicate5 (blue color)).setWidth 32 := by
  apply BitVec.eq_of_getLsbD_eq
  intro i hi
  interval_cases i <;> simp [replicate5, blue]

/-- The shifts and masks of `writeColor` replicate the bits of each channel. -/
theorem rgb565_expanded (color : Word) : rgb565 color = expanded false color := by
  change _ = opaqueArgb _ _ _
  rw [opaqueArgb, ← red_replicated, ← green_replicated, ← blue_replicated]
  rfl

theorem complement_argb (r g b : Byte) :
    opaqueArgb r g b ^^^ 0x00FFFFFF = opaqueArgb (~~~r) (~~~g) (~~~b) := by
  apply BitVec.eq_of_getLsbD_eq
  intro i hi
  interval_cases i <;> simp [opaqueArgb]

theorem expanded_ne (color : Word) : expanded true color ≠ expanded false color := by
  change opaqueArgb _ _ _ ≠ opaqueArgb _ _ _
  rw [← complement_argb]
  intro h
  have hmask := congrArg (opaqueArgb (replicate5 (red color)) (replicate6 (green color))
    (replicate5 (blue color)) ^^^ ·) h
  rw [BitVec.xor_self, ← BitVec.xor_assoc, BitVec.xor_self, BitVec.zero_xor] at hmask
  exact absurd hmask (by decide)

theorem writeColor_lastCommand (p : Panel) (s : State) :
    (s.writeColor p).lastCommand = s.lastCommand := by
  simp only [State.writeColor, apply_ite State.lastCommand, ite_self]

theorem run_events {p : Panel} (x : Screen) (es : List Event) :
    run (Screen.step p) x es =
      (es.foldlM (State.event p) x.state).toOption.map fun s => ⟨s, es.foldl Traffic.next x.traffic⟩ := by
  induction es generalizing x with
  | nil => rfl
  | cons e es ih =>
    rw [run_cons, Screen.step, List.foldlM_cons]
    cases x.state.event p e with
    | error err => rfl
    | ok s => exact ih ⟨s, x.traffic.next e⟩

theorem send_events {p : Panel} (hp : p.words = false) (t : Transfer) (s : State) :
    t.send p s = t.events.foldlM (State.event p) s := by
  unfold Transfer.send transfer Transfer.events
  cases t.resetLow with
  | true => rfl
  | false =>
    rw [hp, if_neg Bool.false_ne_true, if_neg Bool.false_ne_true, if_neg Bool.false_ne_true,
      byteLoop_eq, handleAll, byteItems, List.foldlM_map, List.foldlM_map]
    refine congrArg (fun f => t.bytes.foldlM f s) ?_
    funext u b
    cases t.command with
    | false => rfl
    | true => rfl

theorem sendAll_events {p : Panel} (hp : p.words = false) (s : State) (ts : List Transfer) :
    sendAll p s ts = (ts.flatMap Transfer.events).foldlM (State.event p) s := by
  induction ts generalizing s with
  | nil => rfl
  | cons t ts ih =>
    rw [sendAll_cons, send_events hp, List.flatMap_cons, List.foldlM_append]
    exact congrArg _ (funext ih)

/-- Transfers of bytes are runs of their events. -/
theorem transfers_run {p : Panel} (hp : p.words = false) (x : Screen) (ts : List Transfer) :
    run (Screen.step p) x (ts.flatMap Transfer.events) =
      (sendAll p x.state ts).toOption.map fun s =>
        ⟨s, (ts.flatMap Transfer.events).foldl Traffic.next x.traffic⟩ := by
  rw [run_events, sendAll_events hp]

section Panels

variable {width height xPadding yPadding : Word} {x y : Screen} {e : Event}

theorem step_eq {p : Panel} (h : x.step p e = some y) :
    x.state.event p e = .ok y.state ∧ y.traffic = x.traffic.next e := by
  unfold Screen.step at h
  cases hs : x.state.event p e with
  | error err =>
    rw [hs] at h
    cases h
  | ok s =>
    rw [hs] at h
    cases h
    exact ⟨rfl, rfl⟩

/-- A byte of data after RAMWR: the first one is kept, the second one completes a pixel. -/
theorem data_drawn (h : x.Follows) (hdrawing : x.traffic.drawing = true) {b : Byte}
    (hs : x.step (fakeSt77xxSpi width height xPadding yPadding) (.data b) = some y) :
    y.Follows ∧ y.state.writes = x.state.writes ++
      match x.traffic.pixel (.data b) with
      | some color => writeAt (expanded false color)
          ((fakeSt77xxSpi width height xPadding yPadding).place x.state.madCtl x.state.xCursor
            x.state.yCursor)
      | none => [] := by
  obtain ⟨hevent, htraffic⟩ := step_eq hs
  obtain ⟨s, t⟩ := y
  have hlast := h.drawing.mp hdrawing
  have hsteady : Steady s := h.steady.handle (i := .data (b.setWidth 16)) hevent
  change x.state.handle _ (.data _) = .ok s at hevent
  change t = _ at htraffic
  cases hhalf : x.traffic.half with
  | none =>
    rw [handle_first hlast (h.first hdrawing hhalf)] at hevent
    obtain rfl := Except.ok.inj hevent
    rw [Traffic.next, if_pos hdrawing, hhalf] at htraffic
    rw [Traffic.pixel, if_pos hdrawing, hhalf, htraffic]
    refine ⟨⟨hsteady, h.drawing, fun _ hnone => absurd hnone (Option.some_ne_none b),
      fun hi _ hsome => ?_⟩, (List.append_nil _).symm⟩
    obtain rfl := Option.some.inj hsome
    exact ⟨rfl, rfl⟩
  | some hi =>
    obtain ⟨hsize, hbuf⟩ := h.second hi hdrawing hhalf
    rw [handle_second hlast hsize] at hevent
    obtain rfl := Except.ok.inj hevent
    rw [Traffic.next, if_pos hdrawing, hhalf] at htraffic
    rw [Traffic.pixel, if_pos hdrawing, hhalf, htraffic]
    let u : State :=
      { x.state with buf := Function.update x.state.buf 1 (b.setWidth 16), bufSize := 2 }
    constructor
    · refine ⟨hsteady, ?_, fun _ _ => rfl,
        fun hi _ hsome => absurd hsome.symm (Option.some_ne_none hi)⟩
      exact h.drawing.trans (iff_of_eq (congrArg (· = 0x2C) (writeColor_lastCommand _ u).symm))
    · have hargb : u.argb (fakeSt77xxSpi width height xPadding yPadding) =
          expanded false (word hi b) := by
        rw [State.argb, if_neg (by rw [show u.isInverted = false from h.steady.isInverted]; decide),
          ← rgb565_expanded]
        change rgb565 ((x.state.buf 0 <<< 8) + b.setWidth 16) = _
        rw [hbuf]
        rfl
      refine (writeColor_writes _ u).trans (congrArg (x.state.writes ++ ·) ?_)
      rw [pixel_eq, hargb]
      rfl

/-- A level of RST changes nothing that is drawn. -/
theorem reset_drawn (h : x.Follows)
    (hs : x.step (fakeSt77xxSpi width height xPadding yPadding) .rstLow = some y) :
    y.Follows ∧ y.state.writes = x.state.writes := by
  obtain ⟨hevent, htraffic⟩ := step_eq hs
  obtain ⟨s, t⟩ := y
  change Except.ok (x.state.reset _) = .ok s at hevent
  change t = _ at htraffic
  rw [reset_of_isReset _ h.steady.isReset] at hevent
  obtain rfl := Except.ok.inj hevent
  obtain rfl := htraffic
  exact ⟨⟨h.steady, h.drawing, h.first, h.second⟩, rfl⟩

/-- A command ends the pixel that is half there. -/
theorem command_drawn (h : x.Follows) {cmd : Byte}
    (hs : x.step (fakeSt77xxSpi width height xPadding yPadding) (.command cmd) = some y) :
    y.Follows ∧ y.state.writes = x.state.writes := by
  obtain ⟨hevent, htraffic⟩ := step_eq hs
  obtain ⟨s, t⟩ := y
  have hr := h.steady.isReset
  have hsteady : Steady s := h.steady.handle (i := .command (cmd.setWidth 16)) hevent
  change Except.ok (x.state.handleCmd _ (cmd.setWidth 16)) = .ok s at hevent
  change t = _ at htraffic
  obtain rfl := Except.ok.inj hevent
  obtain rfl := htraffic
  refine ⟨⟨hsteady, ?_, fun _ _ => handleCmd_bufSize _ hr _,
    fun hi _ hsome => absurd hsome.symm (Option.some_ne_none hi)⟩, handleCmd_writes _ hr _⟩
  change decide (cmd = 0x2C) = true ↔ (x.state.handleCmd _ _).lastCommand = _
  rw [handleCmd_lastCommand _ hr, decide_eq_true_iff]
  exact (setWidth_inj (b := 0x2C)).symm

/-- A byte of data after another command draws nothing. -/
theorem operand_drawn (h : x.Follows) (hdrawing : ¬x.traffic.drawing = true) {b : Byte}
    (hs : x.step (fakeSt77xxSpi width height xPadding yPadding) (.data b) = some y) :
    y.Follows ∧ y.state.writes = x.state.writes := by
  obtain ⟨hevent, htraffic⟩ := step_eq hs
  obtain ⟨s, t⟩ := y
  have hsteady : Steady s := h.steady.handle (i := .data (b.setWidth 16)) hevent
  change x.state.handle _ (.data _) = .ok s at hevent
  change t = _ at htraffic
  rw [Traffic.next, if_neg hdrawing] at htraffic
  obtain rfl := htraffic
  obtain ⟨u, hu, rfl⟩ := handle_data_ok hevent
  have hlast : u.lastCommand = x.state.lastCommand := (store_ok hu).1
  have hidle : u.lastCommand ≠ 0x2C := by
    intro heq
    exact hdrawing (h.drawing.mpr (hlast.symm.trans heq))
  refine ⟨⟨hsteady, ?_, fun hd => absurd hd hdrawing, fun _ hd => absurd hd hdrawing⟩, ?_⟩
  · rw [handleData_lastCommand, hlast]
    exact h.drawing
  · rw [handleData_idle _ hidle, store_writes hu]

/-- Every event that the device accepts. -/
theorem step_drawn (h : x.Follows)
    (hs : x.step (fakeSt77xxSpi width height xPadding yPadding) e = some y) :
    y.Follows ∧ y.state.writes = x.state.writes ++
      match x.traffic.pixel e with
      | some color => writeAt (expanded false color)
          ((fakeSt77xxSpi width height xPadding yPadding).place x.state.madCtl x.state.xCursor
            x.state.yCursor)
      | none => [] := by
  cases e with
  | rstLow =>
    obtain ⟨hfollows, hwrites⟩ := reset_drawn h hs
    exact ⟨hfollows, hwrites.trans (List.append_nil _).symm⟩
  | command cmd =>
    obtain ⟨hfollows, hwrites⟩ := command_drawn h hs
    exact ⟨hfollows, hwrites.trans (List.append_nil _).symm⟩
  | data b =>
    by_cases hdrawing : x.traffic.drawing = true
    · exact data_drawn h hdrawing hs
    · obtain ⟨hfollows, hwrites⟩ := operand_drawn h hdrawing hs
      rw [Traffic.pixel, if_neg hdrawing]
      exact ⟨hfollows, hwrites.trans (List.append_nil _).symm⟩

variable (width height xPadding yPadding) in
/-- The second byte of a pixel is always accepted. -/
theorem pixel_accepted (h : x.Follows) {color : Word} (hpixel : x.traffic.pixel e = some color) :
    ∃ y, x.step (fakeSt77xxSpi width height xPadding yPadding) e = some y := by
  cases e with
  | rstLow => cases hpixel
  | command cmd => cases hpixel
  | data b =>
    by_cases hdrawing : x.traffic.drawing = true
    · rw [Traffic.pixel, if_pos hdrawing] at hpixel
      obtain ⟨hi, hhalf, -⟩ := Option.map_eq_some_iff.mp hpixel
      obtain ⟨hsize, -⟩ := h.second hi hdrawing hhalf
      rw [← Option.isSome_iff_exists, Screen.step, State.event,
        handle_second (h.drawing.mp hdrawing) hsize]
      rfl
    · rw [Traffic.pixel, if_neg hdrawing] at hpixel
      cases hpixel

theorem writeAt_none (argb : BitVec 32) : writeAt argb none = [] := rfl

theorem writeAt_argb {argb argb' : BitVec 32} {q : Option (Word × Word)}
    (h : writeAt argb q = writeAt argb' q) (hne : argb ≠ argb') : q = none := by
  cases q with
  | none => rfl
  | some r => exact absurd (congrArg Write.argb (List.cons.inj h).1) hne

/-- A step draws the colours of its stream exactly when it draws nothing that is to be inverted. -/
theorem colored_iff (h : x.Follows) :
    x.Colored (fakeSt77xxSpi width height xPadding yPadding) e ↔
      x.Unseen (fakeSt77xxSpi width height xPadding yPadding) e := by
  cases hpixel : x.traffic.pixel e with
  | none =>
    refine iff_of_true (fun y hy => ?_) fun _ hsome => ?_
    · have hdrawn := (step_drawn h hy).2
      rwa [hpixel] at hdrawn ⊢
    · rw [hpixel] at hsome
      cases hsome
  | some color =>
    constructor
    · intro hcolored hinverted _
      obtain ⟨y, hy⟩ := pixel_accepted width height xPadding yPadding h hpixel
      have hdrawn := (step_drawn h hy).2
      have hwanted := hcolored y hy
      rw [hpixel] at hdrawn hwanted
      rw [hinverted] at hwanted
      exact writeAt_argb (List.append_cancel_left (hwanted.symm.trans hdrawn)) (expanded_ne color)
    · intro hunseen y hy
      have hdrawn := (step_drawn h hy).2
      rw [hpixel] at hdrawn ⊢
      cases hinverted : x.traffic.inverted with
      | false => exact hdrawn
      | true =>
        have hplace := hunseen hinverted (by rw [hpixel]; rfl)
        dsimp only at hdrawn ⊢
        rw [hplace, writeAt_none] at hdrawn ⊢
        exact hdrawn

theorem begin_follows {g : State} (hg : Constructed g) : (Screen.begin g).Follows := by
  refine ⟨hg.steady, decide_eq_true_iff, fun _ _ => hg.bufSize, fun hi _ hsome => ?_⟩
  exact absurd hsome.symm (Option.some_ne_none hi)

/-- Every pixel of a run is drawn in its colour, complemented while INVON is in force, exactly when
no visible pixel of the run is to be complemented. -/
theorem run_colored_iff {g : State} (hg : Constructed g) (es : List Event) :
    Meets (Screen.step (fakeSt77xxSpi width height xPadding yPadding))
        (Screen.Colored (fakeSt77xxSpi width height xPadding yPadding)) (.begin g) es ↔
      Meets (Screen.step (fakeSt77xxSpi width height xPadding yPadding))
        (Screen.Unseen (fakeSt77xxSpi width height xPadding yPadding)) (.begin g) es := by
  have hkeeps : PreservesWhen (Screen.step (fakeSt77xxSpi width height xPadding yPadding))
      (Screen.Colored (fakeSt77xxSpi width height xPadding yPadding)) Screen.Follows :=
    fun x e y _ hs h => (step_drawn h hs).1
  exact Meets.congr hkeeps (fun x e h => colored_iff h) (begin_follows hg)

theorem length_writeAt (argb argb' : BitVec 32) (q : Option (Word × Word)) :
    (writeAt argb q).length = (writeAt argb' q).length := by
  cases q with
  | none => rfl
  | some r => rfl

/-- A byte draws as much as it has to. -/
theorem step_length (h : x.Follows)
    (hs : x.step (fakeSt77xxSpi width height xPadding yPadding) e = some y) :
    ∃ drawn, y.state.writes = x.state.writes ++ drawn ∧
      drawn.length = (x.wanted (fakeSt77xxSpi width height xPadding yPadding) e).length := by
  refine ⟨_, (step_drawn h hs).2, ?_⟩
  unfold Screen.wanted
  cases x.traffic.pixel e with
  | none => rfl
  | some color => exact length_writeAt ..

/-- What a run has drawn is its picture exactly when every byte has drawn what it had to. -/
theorem run_picture_iff (h : x.Follows) {es : List Event}
    (hr : run (Screen.step (fakeSt77xxSpi width height xPadding yPadding)) x es = some y) :
    ∃ drawn, y.state.writes = x.state.writes ++ drawn ∧
      drawn.length = (x.picture (fakeSt77xxSpi width height xPadding yPadding) es).length ∧
      (drawn = x.picture (fakeSt77xxSpi width height xPadding yPadding) es ↔
        Meets (Screen.step (fakeSt77xxSpi width height xPadding yPadding))
          (Screen.Colored (fakeSt77xxSpi width height xPadding yPadding)) x es) := by
  induction es generalizing x with
  | nil =>
    cases hr
    exact ⟨[], (List.append_nil _).symm, rfl, iff_of_true rfl trivial⟩
  | cons e es ih =>
    obtain ⟨z, hz, hrest⟩ := run_cons_eq_some.mp hr
    obtain ⟨first, hfirst, hlength⟩ := step_length h hz
    obtain ⟨later, hlater, hlength', hiff⟩ := ih (step_drawn h hz).1 hrest
    have hpicture : x.picture (fakeSt77xxSpi width height xPadding yPadding) (e :: es) =
        x.wanted (fakeSt77xxSpi width height xPadding yPadding) e ++
          z.picture (fakeSt77xxSpi width height xPadding yPadding) es := by
      rw [Screen.picture, hz]
    refine ⟨first ++ later, by rw [hlater, hfirst, List.append_assoc], ?_, ?_⟩
    · rw [hpicture, List.length_append, List.length_append, hlength, hlength']
    · rw [hpicture, List.append_eq_append_iff_of_size_eq_left hlength, hiff]
      refine and_congr ?_ ?_
      · constructor
        · rintro hsame y' hy
          obtain rfl := Option.some.inj (hz.symm.trans hy)
          rw [hfirst, hsame]
          rfl
        · intro hcolored
          exact List.append_cancel_left (hfirst.symm.trans (hcolored z hz))
      · constructor
        · rintro hmeets z' hz'
          obtain rfl := Option.some.inj (hz.symm.trans hz')
          exact hmeets
        · exact fun hmeets => hmeets z hz

/-- The transfers of a bus draw the picture of their bytes exactly when no visible pixel of it is to
be complemented. -/
theorem transfers_colored_iff {g s : State} (hg : Constructed g) {ts : List Transfer}
    (h : sendAll (fakeSt77xxSpi width height xPadding yPadding) g ts = .ok s) :
    s.writes = g.writes ++ (Screen.begin g).picture
        (fakeSt77xxSpi width height xPadding yPadding) (ts.flatMap Transfer.events) ↔
      Meets (Screen.step (fakeSt77xxSpi width height xPadding yPadding))
        (Screen.Unseen (fakeSt77xxSpi width height xPadding yPadding)) (.begin g)
        (ts.flatMap Transfer.events) := by
  have hrun := transfers_run (show (fakeSt77xxSpi width height xPadding yPadding).words = false
    from rfl) (.begin g) ts
  rw [show (Screen.begin g).state = g from rfl, h] at hrun
  obtain ⟨drawn, hdrawn, -, hiff⟩ := run_picture_iff (begin_follows hg) hrun
  rw [← run_colored_iff hg, ← hiff, show s.writes = g.writes ++ drawn from hdrawn,
    List.append_cancel_left_eq]

end Panels

theorem run_colored_inverted :
    (Constructed constructed ∧ Meets (Screen.step (fakeSt77xxSpi 1 1 0 0))
      (Screen.Unseen (fakeSt77xxSpi 1 1 0 0)) (.begin constructed)
      [.command 0x21, .rstLow, .command 0x2C, .data 0xF8, .data 0x1F]) ∧
    Meets (Screen.step (fakeSt77xxSpi 1 1 0 0)) (Screen.Colored (fakeSt77xxSpi 1 1 0 0))
      (.begin constructed) [.command 0x21, .rstLow, .command 0x2C, .data 0xF8, .data 0x1F] := by
  have hunseen : Meets (Screen.step (fakeSt77xxSpi 1 1 0 0))
      (Screen.Unseen (fakeSt77xxSpi 1 1 0 0)) (.begin constructed)
      [.command 0x21, .rstLow, .command 0x2C, .data 0xF8, .data 0x1F] := by
    refine Meets.cons (fun hinverted => absurd hinverted (by decide)) rfl ?_
    refine Meets.cons (fun _ hpixel => absurd hpixel (by decide)) rfl ?_
    refine Meets.cons (fun hinverted => absurd hinverted (by decide)) rfl ?_
    refine Meets.cons (fun hinverted => absurd hinverted (by decide)) rfl ?_
    exact Meets.cons (fun hinverted => absurd hinverted (by decide)) rfl trivial
  exact ⟨⟨⟨rfl, rfl, rfl, rfl, rfl⟩, hunseen⟩,
    (run_colored_iff ⟨rfl, rfl, rfl, rfl, rfl⟩ _).mpr hunseen⟩

/-- One pixel after INVON. -/
theorem invon_ignored :
    ¬∀ (width height xPadding yPadding : Word) (g : State), Constructed g → ∀ es : List Event,
      Meets (Screen.step (fakeSt77xxSpi width height xPadding yPadding))
        (Screen.Colored (fakeSt77xxSpi width height xPadding yPadding)) (.begin g) es := by
  intro h
  have hpixel := h 1 1 0 0 constructed ⟨rfl, rfl, rfl, rfl, rfl⟩
    [.command 0x21, .command 0x2C, .data 0, .data 0]
  obtain ⟨-, hnext⟩ := hpixel
  obtain ⟨-, hnext⟩ := hnext _ rfl
  obtain ⟨-, hnext⟩ := hnext _ rfl
  obtain ⟨hlast, -⟩ := hnext _ rfl
  exact absurd (hlast _ rfl) (by decide)

end RooTesting.Displays
