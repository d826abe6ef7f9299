import RooTesting.DisplayOperands

/-! # What a reset of a display controller forgets

`reset` returns at once on a device that counts as reset, and no traffic makes it count as anything
else. A later stream that sets its own windows can tell the orientation and a pending half word. -/
namespace RooTesting.Displays

/-- The columns and the pages are set before each RAMWR command. The flags say which ones have
been set since the beginning, by `n` units of data after the command `last`. -/
def Windowed : Word → ℕ → Bool → Bool → List Item → Prop
  | _, _, _, _, [] => True
  | _, _, column, page, .command cmd :: rest =>
    (cmd = 0x2C → column = true ∧ page = true) ∧ Windowed cmd 0 column page rest
  | last, n, column, page, .data _ :: rest =>
    Windowed last (n + 1) (column || last = 0x2A && n + 1 ≥ 4) (page || last = 0x2B && n + 1 ≥ 4) rest

/-- A stream that begins with a command, and sets its own windows before it draws. -/
def OwnWindow : List Item → Prop
  | .command cmd :: rest => Windowed 0 0 false false (.command cmd :: rest)
  | _ => False

/-- What a sequence of transfers writes to the viewport. -/
def drawn (p : Panel) (s : State) (ts : List Transfer) : Except Error (List Write) :=
  (sendAll p s ts).map fun s' => s'.writes.drop s.writes.length

/-- A transfer with RST low, or one that ends with an SWRESET command. -/
def Resets (p : Panel) (half : Option Byte) (t : Transfer) : Prop :=
  t.resetLow = true ∨ ∃ items, t.items p half = (items ++ [.command 0x01], none)

/-- The MADCTL value places every pixel as the value of a new device does. -/
def Upright (p : Panel) (val : Word) : Prop := ∀ x y, p.place val x y = p.place 0 x y

/-- Two devices that cannot be told apart by a stream which has set the windows that the flags say,
and what they have written since. -/
structure Alike (p : Panel) (column page : Bool) (ws wg : List Write) (s g : State) : Prop where
  isReset : s.isReset = true ∧ g.isReset = true
  isInverted : s.isInverted = g.isInverted
  lastCommand : s.lastCommand = g.lastCommand
  bufSize : s.bufSize = g.bufSize
  buf : ∀ i : Fin 16, i.val < s.bufSize → s.buf i = g.buf i
  place : ∀ x y, p.place s.madCtl x y = p.place g.madCtl x y
  column : column = true → s.x0 = g.x0 ∧ s.x1 = g.x1
  page : page = true → s.y0 = g.y0
  drawing : s.lastCommand = 0x2C →
    s.x0 = g.x0 ∧ s.x1 = g.x1 ∧ s.xCursor = g.xCursor ∧ s.yCursor = g.yCursor
  written : ∃ out, s.writes = ws ++ out ∧ g.writes = wg ++ out

section Commands

variable (p : Panel) {s : State} (hr : s.isReset = true) (cmd : Word)
include hr

theorem handleCmd_madCtl : (s.handleCmd p cmd).madCtl = s.madCtl := by
  rw [handleCmd_eq p hr]
  simp only [apply_ite State.madCtl, ite_self]

theorem handleCmd_writes : (s.handleCmd p cmd).writes = s.writes := by
  rw [handleCmd_eq p hr]
  simp only [apply_ite State.writes, ite_self]

theorem handleCmd_isInverted : (s.handleCmd p cmd).isInverted =
    if cmd ≠ 0x01 ∧ (cmd = 0x20 ∨ p.invon ∧ cmd = 0x21) then false else s.isInverted := by
  rw [handleCmd_eq p hr]
  simp only [apply_ite State.isInverted]
  grind

theorem handleCmd_window : (s.handleCmd p cmd).x0 = s.x0 ∧ (s.handleCmd p cmd).x1 = s.x1 ∧
    (s.handleCmd p cmd).y0 = s.y0 := by
  rw [handleCmd_eq p hr]
  simp only [apply_ite State.x0, apply_ite State.x1, apply_ite State.y0, ite_self, and_self]

theorem handleCmd_ramwr : (s.handleCmd p 0x2C).xCursor = s.x0 ∧
    (s.handleCmd p 0x2C).yCursor = s.y0 := by
  rw [handleCmd_eq p hr]
  simp

end Commands

/-- After a command two devices are alike when they were in what a command leaves alone. -/
theorem alike_command {p : Panel} {column page : Bool} {ws wg out : List Write} {s g : State}
    (cmd : Word) (hs : s.isReset = true) (hg : g.isReset = true)
    (hinv : s.isInverted = g.isInverted)
    (hplace : ∀ x y, p.place s.madCtl x y = p.place g.madCtl x y)
    (hcolumn : column = true → s.x0 = g.x0 ∧ s.x1 = g.x1) (hpage : page = true → s.y0 = g.y0)
    (hws : s.writes = ws ++ out) (hwg : g.writes = wg ++ out)
    (hcmd : cmd = 0x2C → column = true ∧ page = true) :
    Alike p column page ws wg (s.handleCmd p cmd) (g.handleCmd p cmd) := by
  obtain ⟨hx0, hx1, hy0⟩ := handleCmd_window p hs cmd
  obtain ⟨gx0, gx1, gy0⟩ := handleCmd_window p hg cmd
  constructor
  · exact ⟨handleCmd_isReset p hs cmd, handleCmd_isReset p hg cmd⟩
  · rw [handleCmd_isInverted p hs, handleCmd_isInverted p hg, hinv]
  · rw [handleCmd_lastCommand p hs, handleCmd_lastCommand p hg]
  · rw [handleCmd_bufSize p hs, handleCmd_bufSize p hg]
  · intro i hi
    rw [handleCmd_bufSize p hs] at hi
    omega
  · rw [handleCmd_madCtl p hs, handleCmd_madCtl p hg]
    exact hplace
  · rw [hx0, hx1, gx0, gx1]
    exact hcolumn
  · rw [hy0, gy0]
    exact hpage
  · intro hlast
    rw [handleCmd_lastCommand p hs] at hlast
    subst hlast
    obtain ⟨hcolumn', hpage'⟩ := hcmd rfl
    obtain ⟨hxc, hyc⟩ := handleCmd_ramwr p hs
    obtain ⟨gxc, gyc⟩ := handleCmd_ramwr p hg
    rw [hx0, hx1, gx0, gx1, hxc, hyc, gxc, gyc]
    exact ⟨(hcolumn hcolumn').1, (hcolumn hcolumn').2, (hcolumn hcolumn').1, hpage hpage'⟩
  · rw [handleCmd_writes p hs, handleCmd_writes p hg]
    exact ⟨out, hws, hwg⟩

section Classes

variable (p : Panel) {s : State}

theorem handleData_caset (h : s.lastCommand = 0x2A) :
    s.handleData p = if s.bufSize < 4 then s
      else { s with
        x0 := State.address p (s.buf 0) (s.buf 1)
        x1 := State.address p (s.buf 2) (s.buf 3)
        cmdDone := true } :=
  if_pos h

theorem handleData_paset (h : s.lastCommand = 0x2B) :
    s.handleData p = if s.bufSize < p.pageUnits then s
      else { s with
        y0 := State.address p (s.buf 0) (s.buf 1)
        y1 := State.address p (s.buf 2) (s.buf 3)
        cmdDone := true } := by
  simp [State.handleData, h]

theorem handleData_ramwr (h : s.lastCommand = 0x2C) :
    s.handleData p =
      if s.bufSize < p.pixelUnits then s else { s.writeColor p with bufSize := 0 } := by
  simp [State.handleData, h]

theorem handleData_madctl (h : s.lastCommand = 0x36) :
    s.handleData p = { s with madCtl := s.buf 0, cmdDone := true } := by
  simp [State.handleData, h]

theorem handleData_other (hA : s.lastCommand ≠ 0x2A) (hB : s.lastCommand ≠ 0x2B)
    (hC : s.lastCommand ≠ 0x2C) (hM : s.lastCommand ≠ 0x36) :
    s.handleData p = { s with
      bufSize := if s.lastCommand = 0x3A then s.bufSize else 0, cmdDone := true } := by
  simp only [State.handleData, if_neg hA, if_neg hB, if_neg hC, if_neg hM]
  split
  · rfl
  · rfl

end Classes

section Data

variable {p : Panel} {column page : Bool} {ws wg : List Write} {s g : State}

theorem Alike.store (h : Alike p column page ws wg s g) {t : State} {unit : Word}
    (ht : s.store unit = .ok t) :
    ∃ u, g.store unit = .ok u ∧ Alike p column page ws wg t u := by
  unfold State.store at ht
  split at ht
  · rename_i hlt
    cases ht
    have hlt' : g.bufSize < 16 := h.bufSize ▸ hlt
    refine ⟨_, dif_pos hlt', ?_⟩
    refine ⟨h.isReset, h.isInverted, h.lastCommand, congrArg (· + 1) h.bufSize, ?_, h.place,
      h.column, h.page, h.drawing, h.written⟩
    intro i hi
    have hindex : (⟨g.bufSize, hlt'⟩ : Fin 16) = ⟨s.bufSize, hlt⟩ := Fin.ext h.bufSize.symm
    dsimp only at hi ⊢
    rw [hindex]
    by_cases heq : i = ⟨s.bufSize, hlt⟩
    · rw [heq, Function.update_self, Function.update_self]
    · rw [Function.update_of_ne heq, Function.update_of_ne heq]
      apply h.buf
      have : i.val ≠ s.bufSize := fun hval => heq (Fin.ext hval)
      omega
  · cases ht

theorem Alike.store_error (h : Alike p column page ws wg s g) {e : Error} {unit : Word}
    (hs : s.store unit = .error e) : g.store unit = .error e := by
  unfold State.store at hs ⊢
  split at hs
  · cases hs
  · rename_i hge
    rw [dif_neg (h.bufSize ▸ hge)]
    exact hs

/-- A complete pixel looks the same on the two devices. -/
theorem Alike.pixel (h : Alike p column page ws wg s g) (hlast : s.lastCommand = 0x2C)
    (hfull : p.pixelUnits ≤ s.bufSize) : s.pixel p = g.pixel p := by
  obtain ⟨-, -, hx, hy⟩ := h.drawing hlast
  have hargb : s.argb p = g.argb p := by
    rw [State.argb, State.argb, h.isInverted,
      p.color_congr s.buf g.buf fun i hi => h.buf i (Nat.lt_of_lt_of_le hi hfull)]
  rw [State.pixel, State.pixel, h.place, hx, hy, hargb]

theorem Alike.writeColor (h : Alike p column page ws wg s g) (hlast : s.lastCommand = 0x2C)
    (hfull : p.pixelUnits ≤ s.bufSize) :
    Alike p column page ws wg { s.writeColor p with bufSize := 0 }
      { g.writeColor p with bufSize := 0 } := by
  obtain ⟨hx0, hx1, hx, hy⟩ := h.drawing hlast
  obtain ⟨out, hws, hwg⟩ := h.written
  have hpixel := h.pixel hlast hfull
  have hwritten : ∃ out, s.writes ++ s.pixel p = ws ++ out ∧ g.writes ++ g.pixel p = wg ++ out := by
    refine ⟨out ++ s.pixel p, ?_, ?_⟩
    · rw [hws, List.append_assoc]
    · rw [hwg, ← hpixel, List.append_assoc]
  have hempty : ∀ i : Fin 16, i.val < 0 → s.buf i = g.buf i := fun i hi => absurd hi (by omega)
  by_cases hlt : s.xCursor.slt s.x1 = true
  · have hlt' : g.xCursor.slt g.x1 = true := by rwa [← hx, ← hx1]
    rw [State.writeColor, State.writeColor, if_pos hlt, if_pos hlt']
    refine ⟨h.isReset, h.isInverted, h.lastCommand, rfl, hempty, h.place, h.column, h.page,
      fun _ => ⟨hx0, hx1, ?_, hy⟩, hwritten⟩
    exact congrArg (· + 1) hx
  · have hlt' : ¬g.xCursor.slt g.x1 = true := by rwa [← hx, ← hx1]
    rw [State.writeColor, State.writeColor, if_neg hlt, if_neg hlt']
    refine ⟨h.isReset, h.isInverted, h.lastCommand, rfl, hempty, h.place, h.column, h.page,
      fun _ => ⟨hx0, hx1, hx0, ?_⟩, hwritten⟩
    exact congrArg (· + 1) hy

/-- Complete operands set the same windows and the same orientation. The last unit of data was
number `n` after the command. -/
theorem Alike.handleData (h : Alike p column page ws wg s g) {n : ℕ} (hpos : 0 < s.bufSize)
    (hn : keeps s.lastCommand = true → s.bufSize = n) :
    Alike p (column || s.lastCommand = 0x2A && n ≥ 4) (page || s.lastCommand = 0x2B && n ≥ 4) ws wg
      (s.handleData p) (g.handleData p) := by
  have hlast := h.lastCommand
  have hsize := h.bufSize
  by_cases hA : s.lastCommand = 0x2A
  · have hbuf := hn (by simp [keeps, hA])
    have hC : s.lastCommand ≠ 0x2C := by simp [hA]
    rw [handleData_caset p hA, handleData_caset p (hlast.symm.trans hA), ← hsize]
    by_cases hlt : s.bufSize < 4
    · have hflag : ¬n ≥ 4 := by omega
      rw [if_pos hlt, if_pos hlt]
      simpa [hA, hflag] using h
    · have h0 := h.buf 0 (by change 0 < _; omega)
      have h1 := h.buf 1 (by change 1 < _; omega)
      have h2 := h.buf 2 (by change 2 < _; omega)
      have h3 := h.buf 3 (by change 3 < _; omega)
      rw [if_neg hlt, if_neg hlt]
      refine ⟨h.isReset, h.isInverted, hlast, rfl, h.buf, h.place, fun _ => ?_, ?_, ?_, h.written⟩
      · dsimp only
        rw [h0, h1, h2, h3]
        exact ⟨rfl, rfl⟩
      · simpa [hA] using h.page
      · intro hno
        exact absurd hno hC
  · by_cases hB : s.lastCommand = 0x2B
    · have hbuf := hn (by simp [keeps, hB])
      have hC : s.lastCommand ≠ 0x2C := by simp [hB]
      have hge := p.pageUnits_ge
      have hle := p.pageUnits_le
      rw [handleData_paset p hB, handleData_paset p (hlast.symm.trans hB), ← hsize]
      by_cases hlt : s.bufSize < p.pageUnits
      · have hflag : ¬n ≥ 4 := by omega
        rw [if_pos hlt, if_pos hlt]
        simpa [hB, hflag] using h
      · have h0 := h.buf 0 (by change 0 < _; omega)
        have h1 := h.buf 1 (by change 1 < _; omega)
        rw [if_neg hlt, if_neg hlt]
        refine ⟨h.isReset, h.isInverted, hlast, rfl, h.buf, h.place, ?_, fun _ => ?_, ?_, h.written⟩
        · simpa [hB] using h.column
        · dsimp only
          rw [h0, h1]
        · intro hno
          exact absurd hno hC
    · have hflags : (column || s.lastCommand = 0x2A && n ≥ 4) = column ∧
          (page || s.lastCommand = 0x2B && n ≥ 4) = page := by
        rw [decide_eq_false hA, decide_eq_false hB, Bool.false_and, Bool.or_false, Bool.or_false]
        exact ⟨rfl, rfl⟩
      rw [hflags.1, hflags.2]
      by_cases hC : s.lastCommand = 0x2C
      · rw [handleData_ramwr p hC, handleData_ramwr p (hlast.symm.trans hC), ← hsize]
        by_cases hlt : s.bufSize < p.pixelUnits
        · rw [if_pos hlt, if_pos hlt]
          exact h
        · rw [if_neg hlt, if_neg hlt]
          exact h.writeColor hC (Nat.le_of_not_lt hlt)
      · by_cases hM : s.lastCommand = 0x36
        · have h0 := h.buf 0 hpos
          rw [handleData_madctl p hM, handleData_madctl p (hlast.symm.trans hM), h0]
          exact ⟨h.isReset, h.isInverted, hlast, hsize, h.buf, fun _ _ => rfl, h.column, h.page,
            h.drawing, h.written⟩
        · rw [handleData_other p hA hB hC hM, handleData_other p (hlast ▸ hA) (hlast ▸ hB)
            (hlast ▸ hC) (hlast ▸ hM), ← hlast, ← hsize]
          refine ⟨h.isReset, h.isInverted, rfl, rfl, ?_, h.place, h.column, h.page, h.drawing,
            h.written⟩
          intro i hi
          apply h.buf
          dsimp only at hi
          split at hi
          · exact hi
          · omega

end Data

/-- A stream that sets the missing windows before it draws writes the same on both devices. -/
theorem Alike.handleAll {p : Panel} {column page : Bool} {ws wg : List Write} {s g : State}
    {last : Word} {n : ℕ} {items : List Item} (h : Alike p column page ws wg s g)
    (hfits : Fits p s last n) (hw : Windowed last n column page items) :
    (handleAll p s items).map (fun s' => s'.writes.drop ws.length) =
      (handleAll p g items).map fun g' => g'.writes.drop wg.length := by
  induction items generalizing s g last n column page with
  | nil =>
    obtain ⟨out, hws, hwg⟩ := h.written
    change Except.ok (s.writes.drop ws.length) = Except.ok (g.writes.drop wg.length)
    rw [hws, hwg, List.drop_left, List.drop_left]
  | cons i items ih =>
    rw [handleAll_cons, handleAll_cons]
    cases i with
    | command cmd =>
      obtain ⟨out, hws, hwg⟩ := h.written
      have hnext := alike_command cmd h.isReset.1 h.isReset.2 h.isInverted h.place h.column h.page
        hws hwg hw.1
      exact ih hnext (hfits.command cmd) hw.2
    | data unit =>
      cases hs : s.store unit with
      | error e =>
        rw [State.handle, State.handle, hs, h.store_error hs]
        rfl
      | ok t =>
        obtain ⟨u, hu, halike⟩ := h.store hs
        obtain ⟨hlast, hsize⟩ := store_ok hs
        have hnext := halike.handleData (n := n + 1) (by omega) fun hkeeps => by
          rw [hsize, hfits.kept]
          rwa [← hfits.latest, ← hlast]
        have hhandle : s.handle p (.data unit) = .ok (t.handleData p) := by
          rw [State.handle, hs]
          rfl
        rw [hlast, hfits.latest] at hnext
        rw [hhandle, State.handle, hu]
        exact ih hnext (hfits.data hhandle) hw

theorem drawn_eq (p : Panel) {s : State} (hr : s.isReset = true) (ts : List Transfer) :
    drawn p s ts = (handleAll p s (itemsOf p s.halfWord ts).1).map
      fun s' => s'.writes.drop s.writes.length := by
  rw [drawn, sendAll_eq p hr]
  cases handleAll p s (itemsOf p s.halfWord ts).1 with
  | error e => rfl
  | ok z => rfl

/-- What every state of a device has, whatever the traffic. -/
structure Steady (s : State) : Prop where
  isReset : s.isReset = true
  isInverted : s.isInverted = false

theorem Constructed.steady {s : State} (h : Constructed s) : Steady s := ⟨h.isReset, h.isInverted⟩

theorem handleData_isInverted (p : Panel) (s : State) :
    (s.handleData p).isInverted = s.isInverted := by
  simp only [State.handleData, State.writeColor, apply_ite State.isInverted, ite_self]

theorem Steady.handle {p : Panel} {s s' : State} {i : Item} (h : Steady s)
    (hs : s.handle p i = .ok s') : Steady s' := by
  refine ⟨handle_isReset h.isReset hs, ?_⟩
  cases i with
  | command cmd =>
    cases hs
    rw [handleCmd_isInverted p h.isReset, h.isInverted, ite_self]
  | data unit =>
    obtain ⟨t, ht, rfl⟩ := handle_data_ok hs
    rw [handleData_isInverted]
    unfold State.store at ht
    split at ht
    · cases ht
      exact h.isInverted
    · cases ht

theorem Steady.handleAll {p : Panel} {s s' : State} {items : List Item} (h : Steady s)
    (hs : handleAll p s items = .ok s') : Steady s' := by
  induction items generalizing s with
  | nil =>
    cases hs
    exact h
  | cons i items ih =>
    rw [handleAll_cons] at hs
    cases hi : s.handle p i with
    | error e =>
      rw [hi] at hs
      cases hs
    | ok t =>
      rw [hi] at hs
      exact ih (h.handle hi) hs

theorem Steady.sendAll {p : Panel} {s s' : State} {ts : List Transfer} (h : Steady s)
    (hs : sendAll p s ts = .ok s') : Steady s' := by
  rw [sendAll_eq p h.isReset] at hs
  cases hall : RooTesting.Displays.handleAll p s (itemsOf p s.halfWord ts).1 with
  | error e =>
    rw [hall] at hs
    cases hs
  | ok z =>
    rw [hall] at hs
    cases hs
    exact ⟨(h.handleAll hall).isReset, (h.handleAll hall).isInverted⟩

theorem Steady.send {p : Panel} {s s' : State} {t : Transfer} (h : Steady s)
    (hs : t.send p s = .ok s') : Steady s' := by
  have hone : RooTesting.Displays.sendAll p s [t] = .ok s' := by
    rw [sendAll_cons, hs]
    rfl
  exact h.sendAll hone

/-- Two devices of the same orientation and without a half word draw the same. -/
theorem drawn_same {p : Panel} {s g : State} {ts : List Transfer} (hs : Steady s) (hg : Steady g)
    (hplace : ∀ x y, p.place s.madCtl x y = p.place g.madCtl x y) (hshalf : s.halfWord = none)
    (hghalf : g.halfWord = none) (hw : OwnWindow (itemsOf p none ts).1) :
    drawn p s ts = drawn p g ts := by
  rw [drawn_eq p hs.isReset, drawn_eq p hg.isReset, hshalf, hghalf]
  generalize (itemsOf p none ts).1 = items at hw
  cases items with
  | nil => exact hw.elim
  | cons i items =>
    cases i with
    | data unit => exact hw.elim
    | command cmd =>
      rw [handleAll_cons, handleAll_cons]
      have halike : Alike p false false s.writes g.writes (s.handleCmd p cmd) (g.handleCmd p cmd) :=
        alike_command cmd hs.isReset hg.isReset (hs.isInverted.trans hg.isInverted.symm) hplace
          nofun nofun (List.append_nil _).symm (List.append_nil _).symm hw.1
      have hfits : Fits p (s.handleCmd p cmd) cmd 0 := by
        have hsize := handleCmd_bufSize p hs.isReset cmd
        refine ⟨handleCmd_isReset p hs.isReset cmd, handleCmd_lastCommand p hs.isReset cmd,
          fun _ => hsize, fun _ => ?_⟩
        rw [hsize]
        exact p.pixelUnits_pos
      exact halike.handleAll hfits hw.2

def highByte (x : Word) : Byte := (x >>> 8).setWidth 8
def lowByte (x : Word) : Byte := x.setWidth 8

/-- Bytes as the controller takes them, one to a unit. -/
def packet (p : Panel) (command : Bool) (b : Byte) (rest : List Byte) : Transfer where
  resetLow := false
  command := command
  bytes := (b :: rest).flatMap fun b => if p.words then [0, b] else [b]
  nonempty := by split <;> simp

/-- The windows of one pixel, and the pixel. -/
def drawAt (p : Panel) (x y : Word) : List Transfer :=
  [packet p true 0x2A [], packet p false (highByte x) [lowByte x, highByte x, lowByte x],
    packet p true 0x2B [], packet p false (highByte y) [lowByte y, highByte y, lowByte y],
    packet p true 0x2C [], packet p false 0 (List.replicate (p.pixelUnits - 1) 0)]

/-- The addresses of a controller are as long as two bytes. -/
def Wide (p : Panel) : Prop := ∀ b : Byte, p.operand (b.setWidth 16) = b.setWidth 16

theorem word_zero (b : Byte) : word 0 b = b.setWidth 16 := by
  simp [word]

theorem packet_items (p : Panel) (command : Bool) (b : Byte) (rest : List Byte) :
    (packet p command b rest).items p none = (byteItems command (b :: rest), none) := by
  have hwords : ∀ bytes : List Byte,
      wordItems command (bytes.flatMap fun b => [0, b]) = (byteItems command bytes, none) := by
    intro bytes
    induction bytes with
    | nil => rfl
    | cons b bytes ih =>
      change wordItems command (0 :: b :: bytes.flatMap fun b => [0, b]) = _
      rw [wordItems, ih, word_zero]
      rfl
  have hbytes : ∀ bytes : List Byte, (bytes.flatMap fun b => [b]) = bytes := by
    intro bytes
    induction bytes with
    | nil => rfl
    | cons b bytes ih => exact congrArg (b :: ·) ih
  rw [Transfer.items, packet, if_neg Bool.false_ne_true]
  split
  · simp only [hwords]
  · simp only [hbytes]

/-- One unit of a window, and what it leaves alone. -/
structure Loads (p : Panel) (s t : State) (unit : Word) : Prop where
  steady : Steady t
  madCtl : t.madCtl = s.madCtl
  writes : t.writes = s.writes
  latest : t.lastCommand = s.lastCommand
  bufSize : t.bufSize = s.bufSize + 1
  buf : ∀ i : Fin 16, t.buf i = if i.val = s.bufSize then unit else s.buf i
  column : s.lastCommand = 0x2A → t.y0 = s.y0 ∧ (4 ≤ t.bufSize →
    t.x0 = State.address p (t.buf 0) (t.buf 1) ∧ t.x1 = State.address p (t.buf 2) (t.buf 3))
  page : s.lastCommand = 0x2B → (t.x0 = s.x0 ∧ t.x1 = s.x1) ∧ (4 ≤ t.bufSize →
    t.y0 = State.address p (t.buf 0) (t.buf 1))

theorem Loads.loaded {p : Panel} {s t : State} {unit : Word} (h : Loads p s t unit) {i : Fin 16}
    (hi : i.val = s.bufSize) : t.buf i = unit := by
  rw [h.buf, if_pos hi]

theorem Loads.kept {p : Panel} {s t : State} {unit : Word} (h : Loads p s t unit) {i : Fin 16}
    (hi : i.val ≠ s.bufSize) : t.buf i = s.buf i := by
  rw [h.buf, if_neg hi]

theorem loads (p : Panel) {s : State} (hs : Steady s)
    (hlast : s.lastCommand = 0x2A ∨ s.lastCommand = 0x2B) (hlt : s.bufSize < 16) (unit : Word) :
    ∃ t, s.handle p (.data unit) = .ok t ∧ Loads p s t unit := by
  have hstore : s.store unit = .ok
      { s with buf := Function.update s.buf ⟨s.bufSize, hlt⟩ unit, bufSize := s.bufSize + 1 } :=
    dif_pos hlt
  have hhandle : s.handle p (.data unit) = .ok (State.handleData p
      { s with buf := Function.update s.buf ⟨s.bufSize, hlt⟩ unit, bufSize := s.bufSize + 1 }) := by
    rw [State.handle, hstore]
    rfl
  refine ⟨_, hhandle, ?_⟩
  have hsteady := hs.handle hhandle
  have hbuf : ∀ i : Fin 16, Function.update s.buf ⟨s.bufSize, hlt⟩ unit i =
      if i.val = s.bufSize then unit else s.buf i := by
    intro i
    simp only [Function.update_apply, Fin.ext_iff]
  rcases hlast with hlast | hlast
  · have hpage : s.lastCommand ≠ 0x2B := by simp [hlast]
    rw [handleData_caset p (by exact hlast)] at hsteady ⊢
    by_cases hfew : s.bufSize + 1 < 4
    · rw [if_pos (by exact hfew)] at hsteady ⊢
      exact ⟨hsteady, rfl, rfl, rfl, rfl, hbuf,
        fun _ => ⟨rfl, fun hge => absurd hfew (Nat.not_lt.mpr hge)⟩, fun h => absurd h hpage⟩
    · rw [if_neg (by exact hfew)] at hsteady ⊢
      exact ⟨hsteady, rfl, rfl, rfl, rfl, hbuf, fun _ => ⟨rfl, fun _ => ⟨rfl, rfl⟩⟩,
        fun h => absurd h hpage⟩
  · have hcolumn : s.lastCommand ≠ 0x2A := by simp [hlast]
    have hunits := p.pageUnits_le
    rw [handleData_paset p (by exact hlast)] at hsteady ⊢
    by_cases hfew : s.bufSize + 1 < p.pageUnits
    · rw [if_pos (by exact hfew)] at hsteady ⊢
      exact ⟨hsteady, rfl, rfl, rfl, rfl, hbuf, fun h => absurd h hcolumn,
        fun _ => ⟨⟨rfl, rfl⟩, fun hge => absurd (Nat.lt_of_lt_of_le hfew hunits)
          (Nat.not_lt.mpr hge)⟩⟩
    · rw [if_neg (by exact hfew)] at hsteady ⊢
      exact ⟨hsteady, rfl, rfl, rfl, rfl, hbuf, fun h => absurd h hcolumn,
        fun _ => ⟨⟨rfl, rfl⟩, fun _ => rfl⟩⟩

def windowItems (cmd a b : Word) : List Item :=
  [.command cmd, .data a, .data b, .data a, .data b]

theorem window (p : Panel) {s : State} (hs : Steady s) {cmd : Word}
    (hcmd : cmd = 0x2A ∨ cmd = 0x2B) (a b : Word) :
    ∃ t, handleAll p s (windowItems cmd a b) = .ok t ∧ Steady t ∧ t.madCtl = s.madCtl ∧
      t.writes = s.writes ∧
      (cmd = 0x2A → t.y0 = s.y0 ∧ t.x0 = State.address p a b ∧ t.x1 = State.address p a b) ∧
      (cmd = 0x2B → t.x0 = s.x0 ∧ t.x1 = s.x1 ∧ t.y0 = State.address p a b) := by
  have hstart : Steady (s.handleCmd p cmd) := hs.handle (p := p) (i := .command cmd) rfl
  have hlast := handleCmd_lastCommand p hs.isReset cmd
  have hsize := handleCmd_bufSize p hs.isReset cmd
  obtain ⟨hx0, hx1, hy0⟩ := handleCmd_window p hs.isReset cmd
  have hlast0 := hcmd
  rw [← hlast] at hlast0
  obtain ⟨t1, h1, l1⟩ := loads p hstart hlast0 (by omega) a
  obtain ⟨t2, h2, l2⟩ := loads p l1.steady (l1.latest.symm ▸ hlast0)
    (by have := l1.bufSize; omega) b
  have hlast2 := l2.latest.trans l1.latest
  obtain ⟨t3, h3, l3⟩ := loads p l2.steady (hlast2.symm ▸ hlast0)
    (by have := l1.bufSize; have := l2.bufSize; omega) a
  have hlast3 := l3.latest.trans hlast2
  obtain ⟨t4, h4, l4⟩ := loads p l3.steady (hlast3.symm ▸ hlast0)
    (by have := l1.bufSize; have := l2.bufSize; have := l3.bufSize; omega) b
  have hsize1 : t1.bufSize = 1 := by rw [l1.bufSize, hsize]
  have hsize2 : t2.bufSize = 2 := by rw [l2.bufSize, hsize1]
  have hsize3 : t3.bufSize = 3 := by rw [l3.bufSize, hsize2]
  have hsize4 : t4.bufSize = 4 := by rw [l4.bufSize, hsize3]
  have hbuf : t4.buf 0 = a ∧ t4.buf 1 = b ∧ t4.buf 2 = a ∧ t4.buf 3 = b := by
    refine ⟨?_, ?_, ?_, ?_⟩
    · rw [l4.kept (by rw [hsize3]; decide), l3.kept (by rw [hsize2]; decide),
        l2.kept (by rw [hsize1]; decide), l1.loaded hsize.symm]
    · rw [l4.kept (by rw [hsize3]; decide), l3.kept (by rw [hsize2]; decide),
        l2.loaded hsize1.symm]
    · rw [l4.kept (by rw [hsize3]; decide), l3.loaded hsize2.symm]
    · exact l4.loaded hsize3.symm
  have hrun : handleAll p s (windowItems cmd a b) = .ok t4 := by
    rw [windowItems, handleAll_cons]
    change handleAll p (s.handleCmd p cmd) _ = _
    rw [handleAll_cons, h1]
    change handleAll p t1 _ = _
    rw [handleAll_cons, h2]
    change handleAll p t2 _ = _
    rw [handleAll_cons, h3]
    change handleAll p t3 _ = _
    rw [handleAll_cons, h4]
    rfl
  obtain ⟨hbuf0, hbuf1, hbuf2, hbuf3⟩ := hbuf
  refine ⟨t4, hrun, l4.steady, ?_, ?_, fun hcmd => ?_, fun hcmd => ?_⟩
  · rw [l4.madCtl, l3.madCtl, l2.madCtl, l1.madCtl, handleCmd_madCtl p hs.isReset]
  · rw [l4.writes, l3.writes, l2.writes, l1.writes, handleCmd_writes p hs.isReset]
  · have hlast1 := l1.latest.trans hlast
    rw [hlast] at hlast2 hlast3
    obtain ⟨hy1, -⟩ := l1.column (hlast.trans hcmd)
    obtain ⟨hy2, -⟩ := l2.column (hlast1.trans hcmd)
    obtain ⟨hy3, -⟩ := l3.column (hlast2.trans hcmd)
    obtain ⟨hy4, hx⟩ := l4.column (hlast3.trans hcmd)
    have hx := hx (Nat.le_of_eq hsize4.symm)
    rw [hbuf0, hbuf1, hbuf2, hbuf3] at hx
    exact ⟨by rw [hy4, hy3, hy2, hy1, hy0], hx⟩
  · have hlast1 := l1.latest.trans hlast
    rw [hlast] at hlast2 hlast3
    obtain ⟨⟨hxa, hxb⟩, -⟩ := l1.page (hlast.trans hcmd)
    obtain ⟨⟨hxc, hxd⟩, -⟩ := l2.page (hlast1.trans hcmd)
    obtain ⟨⟨hxe, hxf⟩, -⟩ := l3.page (hlast2.trans hcmd)
    obtain ⟨⟨hxg, hxh⟩, hy⟩ := l4.page (hlast3.trans hcmd)
    have hy := hy (Nat.le_of_eq hsize4.symm)
    rw [hbuf0, hbuf1] at hy
    exact ⟨by rw [hxg, hxe, hxc, hxa, hx0], by rw [hxh, hxf, hxd, hxb, hx1], hy⟩

/-- The write of a pixel at a place, when it has one. -/
def writeAt (argb : BitVec 32) (place : Option (Word × Word)) : List Write :=
  place.toList.map fun q => ⟨q.1, q.2, q.1, q.2, argb⟩

theorem pixel_eq (p : Panel) (s : State) :
    s.pixel p = writeAt (s.argb p) (p.place s.madCtl s.xCursor s.yCursor) := by
  unfold State.pixel
  cases p.place s.madCtl s.xCursor s.yCursor with
  | none => rfl
  | some q => rfl

theorem writeColor_writes (p : Panel) (s : State) :
    (s.writeColor p).writes = s.writes ++ s.pixel p := by
  simp only [State.writeColor, apply_ite State.writes, ite_self]

/-- The units that complete a pixel draw it. -/
theorem pixels (p : Panel) {s : State} {m : ℕ} (hlast : s.lastCommand = 0x2C)
    (hsum : s.bufSize + (m + 1) = p.pixelUnits) :
    ∃ t argb, handleAll p s (List.replicate (m + 1) (.data 0)) = .ok t ∧
      t.writes = s.writes ++ writeAt argb (p.place s.madCtl s.xCursor s.yCursor) := by
  induction m generalizing s with
  | zero =>
    have hlt : s.bufSize < 16 := by
      have := p.pixelUnits_le
      omega
    have hfull : ¬s.bufSize + 1 < p.pixelUnits := by omega
    let u : State :=
      { s with buf := Function.update s.buf ⟨s.bufSize, hlt⟩ 0, bufSize := s.bufSize + 1 }
    refine ⟨u.handleData p, u.argb p, ?_, ?_⟩
    · rw [List.replicate_one, handleAll_cons, State.handle, State.store, dif_pos hlt]
      rfl
    · rw [handleData_ramwr p (by exact hlast), if_neg (by exact hfull)]
      exact (writeColor_writes p u).trans (congrArg _ (pixel_eq p u))
  | succ m ih =>
    have hlt : s.bufSize < 16 := by
      have := p.pixelUnits_le
      omega
    have hfew : s.bufSize + 1 < p.pixelUnits := by omega
    obtain ⟨t, argb, hrun, hwrites⟩ := ih (s := { s with
      buf := Function.update s.buf ⟨s.bufSize, hlt⟩ 0, bufSize := s.bufSize + 1 }) hlast
      (by dsimp only; omega)
    refine ⟨t, argb, ?_, hwrites⟩
    rw [List.replicate_succ, handleAll_cons, State.handle, State.store, dif_pos hlt]
    change handleAll p (State.handleData p _) _ = _
    rw [handleData_ramwr p (by exact hlast), if_pos (by exact hfew)]
    exact hrun

theorem address_bytes {p : Panel} (hp : Wide p) (x : Word) :
    State.address p ((highByte x).setWidth 16) ((lowByte x).setWidth 16) = x := by
  rw [State.address, hp, hp]
  apply BitVec.eq_of_toNat_eq
  have := x.isLt
  simp [highByte, lowByte, Nat.shiftRight_eq_div_pow, Nat.shiftLeft_eq]
  omega

theorem drawAt_items (p : Panel) (x y : Word) :
    itemsOf p none (drawAt p x y) =
      (windowItems 0x2A ((highByte x).setWidth 16) ((lowByte x).setWidth 16) ++
        (windowItems 0x2B ((highByte y).setWidth 16) ((lowByte y).setWidth 16) ++
          (.command 0x2C :: List.replicate (p.pixelUnits - 1 + 1) (.data 0))), none) := by
  have hpixel : byteItems false (0 :: List.replicate (p.pixelUnits - 1) 0) =
      List.replicate (p.pixelUnits - 1 + 1) (.data 0) := by
    rw [← List.replicate_succ, byteItems, List.map_replicate]
    rfl
  simp only [drawAt, itemsOf, packet_items, hpixel, List.append_nil]
  rfl

/-- A device without a half word draws the pixel where its orientation places it. -/
theorem drawAt_drawn {p : Panel} (hp : Wide p) {s : State} (hs : Steady s) (hhalf : s.halfWord = none)
    (x y : Word) :
    ∃ argb, drawn p s (drawAt p x y) = .ok (writeAt argb (p.place s.madCtl x y)) := by
  obtain ⟨t, ht, hts, htm, htw, htx, -⟩ :=
    window p hs (Or.inl rfl) ((highByte x).setWidth 16) ((lowByte x).setWidth 16)
  obtain ⟨u, hu, hus, hum, huw, -, huy⟩ :=
    window p hts (Or.inr rfl) ((highByte y).setWidth 16) ((lowByte y).setWidth 16)
  obtain ⟨-, hx, -⟩ := htx rfl
  obtain ⟨hux, -, hy⟩ := huy rfl
  rw [address_bytes hp] at hx hy
  have hpos := p.pixelUnits_pos
  obtain ⟨hxc, hyc⟩ := handleCmd_ramwr p hus.isReset
  obtain ⟨z, argb, hz, hzw⟩ := pixels p (s := u.handleCmd p 0x2C) (m := p.pixelUnits - 1)
    (handleCmd_lastCommand p hus.isReset _)
    (by rw [handleCmd_bufSize p hus.isReset]; omega)
  rw [handleCmd_writes p hus.isReset, handleCmd_madCtl p hus.isReset, hxc, hyc, hux, hx, hy, hum,
    htm, huw, htw] at hzw
  refine ⟨argb, ?_⟩
  rw [drawn_eq p hs.isReset, hhalf, drawAt_items, handleAll_append, ht]
  change Except.map _ (handleAll p t _) = _
  rw [handleAll_append, hu]
  change Except.map _ (handleAll p (u.handleCmd p 0x2C) _) = _
  rw [hz]
  change Except.ok (z.writes.drop s.writes.length) = _
  rw [hzw, List.drop_left]

theorem writeAt_inj {argb argb' : BitVec 32} {q q' : Option (Word × Word)}
    (h : writeAt argb q = writeAt argb' q') : q = q' := by
  cases q with
  | none =>
    cases q' with
    | none => rfl
    | some r' => cases h
  | some r =>
    cases q' with
    | none => cases h
    | some r' =>
      have hwrite := List.cons.inj h
      exact congrArg some (Prod.ext (congrArg Write.x0 hwrite.1) (congrArg Write.y0 hwrite.1))

theorem windowed_data (cmd : Word) (n m : ℕ) (column page : Bool) :
    Windowed cmd n column page (List.replicate m (.data 0)) := by
  induction m generalizing n column page with
  | zero => trivial
  | succ m ih => exact ih _ _ _

theorem drawAt_own (p : Panel) (x y : Word) : OwnWindow (itemsOf p none (drawAt p x y)).1 := by
  rw [drawAt_items]
  have hpixel := windowed_data 0x2C 0 (p.pixelUnits - 1 + 1) true true
  simpa [windowItems, OwnWindow, Windowed] using hpixel

def Item.isCommand : Item → Bool
  | .command _ => true
  | .data _ => false

theorem item_isCommand (command : Bool) (unit : Word) :
    (item command unit).isCommand = command := by
  cases command with
  | false => rfl
  | true => rfl

theorem completed_isCommand (command : Bool) (half b : Byte) :
    (completed command half b).isCommand = command := by
  cases command with
  | false => rfl
  | true => rfl

theorem wordItems_isCommand {command : Bool} {bytes : List Byte} {i : Item}
    (h : i ∈ (wordItems command bytes).1) : i.isCommand = command := by
  induction bytes using wordItems.induct with
  | case1 hi lo rest ih =>
    rw [wordItems] at h
    rcases List.mem_cons.mp h with rfl | h
    · exact item_isCommand command _
    · exact ih h
  | case2 b => cases h
  | case3 => cases h

/-- The level of D/C tells commands from data, whatever half word there was. -/
theorem items_isCommand {p : Panel} {half : Option Byte} {t : Transfer} {i : Item}
    (h : i ∈ (t.items p half).1) : i.isCommand = t.command := by
  unfold Transfer.items at h
  split at h
  · cases h
  · split at h
    · cases half with
      | none => exact wordItems_isCommand h
      | some b =>
        dsimp only at h
        unfold completedItems at h
        split at h
        · rcases List.mem_cons.mp h with rfl | h
          · exact completed_isCommand ..
          · exact wordItems_isCommand h
        · cases h
    · obtain ⟨b, -, rfl⟩ := List.mem_map.mp h
      exact item_isCommand ..

theorem commands_madCtl {p : Panel} {s s' : State} {items : List Item} (hr : s.isReset = true)
    (hall : ∀ i ∈ items, i.isCommand = true) (h : handleAll p s items = .ok s') :
    s'.madCtl = s.madCtl := by
  induction items generalizing s with
  | nil =>
    cases h
    rfl
  | cons i items ih =>
    cases i with
    | command cmd =>
      have hrest := ih (handleCmd_isReset p hr cmd) (fun j hj => hall j (List.mem_cons_of_mem _ hj)) h
      rw [hrest, handleCmd_madCtl p hr]
    | data unit => cases hall _ List.mem_cons_self

/-- A reset keeps the orientation, and with RST low the half word too. -/
theorem resets_keeps {p : Panel} {s s' : State} {t : Transfer} (hr : s.isReset = true)
    (ht : Resets p s.halfWord t) (h : t.send p s = .ok s') :
    s'.madCtl = s.madCtl ∧ s'.halfWord = if t.resetLow then s.halfWord else none := by
  rw [send_eq p hr] at h
  by_cases hlow : t.resetLow = true
  · have hitems : t.items p s.halfWord = ([], s.halfWord) := if_pos hlow
    rw [hitems] at h
    cases h
    rw [if_pos hlow]
    exact ⟨rfl, rfl⟩
  · obtain ⟨items, hitems⟩ := ht.resolve_left hlow
    have hcommand : t.command = true := by
      have hmem : Item.command 0x01 ∈ (t.items p s.halfWord).1 := by
        rw [hitems]
        exact List.mem_append_right _ List.mem_cons_self
      exact (items_isCommand hmem).symm
    cases hall : handleAll p s (t.items p s.halfWord).1 with
    | error e =>
      rw [hall] at h
      cases h
    | ok z =>
      rw [hall, hitems] at h
      cases h
      rw [if_neg hlow]
      have hkept : z.madCtl = s.madCtl :=
        commands_madCtl hr (fun i hi => (items_isCommand hi).trans hcommand) hall
      exact ⟨hkept, rfl⟩

/-- No traffic without a RAMWR command draws anything. -/
theorem idle_writes {p : Panel} {s s' : State} {items : List Item} (hr : s.isReset = true)
    (hlast : s.lastCommand = 0) (hnop : ∀ cmd, .command cmd ∈ items → cmd = 0)
    (h : handleAll p s items = .ok s') : s'.writes = s.writes := by
  induction items generalizing s with
  | nil =>
    cases h
    rfl
  | cons i items ih =>
    have hnop' := fun cmd hcmd => hnop cmd (List.mem_cons_of_mem _ hcmd)
    rw [handleAll_cons] at h
    cases hi : s.handle p i with
    | error e =>
      rw [hi] at h
      cases h
    | ok t =>
      rw [hi] at h
      have htr := handle_isReset hr hi
      cases i with
      | command cmd =>
        cases hi
        have hzero := hnop cmd List.mem_cons_self
        rw [ih htr ((handleCmd_lastCommand p hr cmd).trans hzero) hnop' h, handleCmd_writes p hr]
      | data unit =>
        obtain ⟨u, hu, rfl⟩ := handle_data_ok hi
        have hulast : u.lastCommand = 0 := (store_ok hu).1.trans hlast
        have huwrites : u.writes = s.writes := by
          unfold State.store at hu
          split at hu
          · cases hu
            rfl
          · cases hu
        rw [ih htr ((handleData_lastCommand p u).trans hulast) hnop' h,
          handleData_other p (by simp [hulast]) (by simp [hulast]) (by simp [hulast])
            (by simp [hulast]), ← huwrites]

theorem completed_nop (half : Byte) : completed true half 0 = .command 0 := by
  refine congrArg Item.command ?_
  apply BitVec.eq_of_toNat_eq
  rw [BitVec.toNat_and]
  change _ &&& (2 ^ 8 - 1) = 0
  rw [Nat.and_two_pow_sub_one_eq_mod]
  simp [word, Nat.shiftLeft_eq]

/-- The byte after a half word is a NOP, and what follows is out of step with it. -/
theorem pending_items (half : Byte) :
    ∃ items, (itemsOf fakeIli9486Spi (some half) (drawAt fakeIli9486Spi 0 0)).1 =
      .command 0 :: items ∧ ∀ cmd, .command cmd ∈ items → cmd = 0 := by
  refine ⟨[.data (word 0x2A 0), .data (word 0 0), .data (word 0 0), .data (word 0 0),
    .command 0, .data (word 0x2B 0), .data (word 0 0), .data (word 0 0), .data (word 0 0),
    .command 0, .data (word 0x2C 0)], ?_, ?_⟩
  · have hitems : (itemsOf fakeIli9486Spi (some half) (drawAt fakeIli9486Spi 0 0)).1 =
        [completed true half 0, .data (word 0x2A 0), .data (word 0 0), .data (word 0 0),
          .data (word 0 0), completed true 0 0, .data (word 0x2B 0), .data (word 0 0),
          .data (word 0 0), .data (word 0 0), completed true 0 0, .data (word 0x2C 0)] := rfl
    rw [hitems, completed_nop, completed_nop]
  · intro cmd hmem
    simpa using hmem

theorem pending_drawn {s : State} {half : Byte} {writes : List Write} (hr : s.isReset = true)
    (hhalf : s.halfWord = some half)
    (h : drawn fakeIli9486Spi s (drawAt fakeIli9486Spi 0 0) = .ok writes) : writes = [] := by
  obtain ⟨items, hitems, hnop⟩ := pending_items half
  rw [drawn_eq _ hr, hhalf, hitems, handleAll_cons] at h
  cases hall : handleAll fakeIli9486Spi (s.handleCmd fakeIli9486Spi 0) items with
  | error e =>
    change Except.map _ (handleAll _ _ _) = _ at h
    rw [hall] at h
    cases h
  | ok z =>
    change Except.map _ (handleAll _ _ _) = _ at h
    rw [hall] at h
    cases h
    have hwrites := idle_writes (handleCmd_isReset _ hr 0) (handleCmd_lastCommand _ hr 0) hnop hall
    rw [handleCmd_writes _ hr] at hwrites
    change z.writes.drop s.writes.length = []
    rw [hwrites, List.drop_length]

theorem Controller.wide (c : Controller) : Wide c.panel := by
  cases c with
  | ili9486 =>
    intro b
    apply BitVec.eq_of_toNat_eq
    have hlt := b.isLt
    change (b.setWidth 16 &&& 0xFF).toNat = _
    rw [BitVec.toNat_and]
    change _ &&& (2 ^ 8 - 1) = _
    rw [Nat.and_two_pow_sub_one_eq_mod]
    simp
    omega
  | ili9341 => exact fun _ => rfl
  | ili9488 => exact fun _ => rfl
  | st77xx width height xPadding yPadding => exact fun _ => rfl

theorem sendAll_halfWord {p : Panel} {s s' : State} {ts : List Transfer} (hr : s.isReset = true)
    (h : sendAll p s ts = .ok s') : s'.halfWord = (itemsOf p s.halfWord ts).2 := by
  rw [sendAll_eq p hr] at h
  cases hall : handleAll p s (itemsOf p s.halfWord ts).1 with
  | error e =>
    rw [hall] at h
    cases h
  | ok z =>
    rw [hall] at h
    cases h
    rfl

/-- Only the ILI9486 has half words. -/
theorem bytes_halfWord {p : Panel} (hp : p.words = false) {half : Option Byte}
    (ts : List Transfer) : (itemsOf p half ts).2 = half := by
  induction ts generalizing half with
  | nil => rfl
  | cons t ts ih =>
    have hitems : (t.items p half).2 = half := by
      unfold Transfer.items
      rw [hp]
      split
      · rfl
      · rfl
    rw [itemsOf, hitems]
    exact ih

/-- A reset forgets the past, whatever the history, exactly when the last MADCTL value places the
pixels as a new device does and no half word is pending while RST is low. -/
theorem reset_forgets (c : Controller) {g s s' : State} {history : List Transfer} {t : Transfer}
    (hg : Constructed g) (hhistory : sendAll c.panel g history = .ok s)
    (ht : Resets c.panel s.halfWord t) (hs : t.send c.panel s = .ok s') :
    (∀ g' ts, Constructed g' → OwnWindow (itemsOf c.panel none ts).1 →
        drawn c.panel s' ts = drawn c.panel g' ts) ↔
      Upright c.panel s.madCtl ∧ (t.resetLow = true → s.halfWord = none) := by
  have hsteady : Steady s := hg.steady.sendAll hhistory
  have hsteady' : Steady s' := hsteady.send hs
  obtain ⟨hmad, hhalf⟩ := resets_keeps hsteady.isReset ht hs
  constructor
  · intro hsame
    have hnone : s'.halfWord = none := by
      by_contra hsome
      obtain ⟨half, hsome⟩ := Option.ne_none_iff_exists'.mp hsome
      by_cases hwords : c.panel.words = true
      · have hc : c.panel = fakeIli9486Spi := by
          cases c with
          | ili9486 => rfl
          | _ => cases hwords
        rw [hc] at hsame
        obtain ⟨argb, h⟩ := drawAt_drawn Controller.ili9486.wide hg.steady hg.halfWord 0 0
        have hpending := hsame g (drawAt fakeIli9486Spi 0 0) hg (drawAt_own fakeIli9486Spi 0 0)
        have hdrawn : drawn fakeIli9486Spi g (drawAt fakeIli9486Spi 0 0) =
            .ok (writeAt argb (fakeIli9486Spi.place g.madCtl 0 0)) := h
        rw [hdrawn] at hpending
        cases pending_drawn hsteady'.isReset hsome hpending
      · have hbytes : c.panel.words = false := by simpa using hwords
        rw [sendAll_halfWord hg.isReset hhistory, hg.halfWord, bytes_halfWord hbytes, ite_self]
          at hhalf
        rw [hhalf] at hsome
        cases hsome
    refine ⟨?_, ?_⟩
    · intro x y
      have hdrawn := hsame g (drawAt c.panel x y) hg (drawAt_own c.panel x y)
      obtain ⟨argb, h⟩ := drawAt_drawn c.wide hsteady' hnone x y
      obtain ⟨argb', h'⟩ := drawAt_drawn c.wide hg.steady hg.halfWord x y
      rw [h, h', hmad, hg.madCtl] at hdrawn
      exact writeAt_inj (Except.ok.inj hdrawn)
    · intro hlow
      rw [if_pos hlow] at hhalf
      rw [← hhalf, hnone]
  · rintro ⟨hupright, hlow⟩ g' ts hg' hown
    apply drawn_same hsteady' hg'.steady _ _ hg'.halfWord hown
    · intro x y
      rw [hmad, hg'.madCtl]
      exact hupright x y
    · rw [hhalf]
      split
      · rename_i h
        exact hlow h
      · rfl

def madctl (val : Byte) : List Transfer := [send true 0x36 [], send false val []]

/-- The colour order is not part of the orientation. -/
theorem reset_forgets_bgr :
    ∃ s s', sendAll Controller.ili9341.panel constructed (madctl 0x08) = .ok s ∧
      (send true 0x01 []).send Controller.ili9341.panel s = .ok s' ∧
      ∀ g' ts, Constructed g' → OwnWindow (itemsOf Controller.ili9341.panel none ts).1 →
        drawn Controller.ili9341.panel s' ts = drawn Controller.ili9341.panel g' ts := by
  obtain ⟨s, hs, hmad⟩ : ∃ s, sendAll Controller.ili9341.panel constructed (madctl 0x08) = .ok s ∧
      s.madCtl = 0x08 := ⟨_, rfl, rfl⟩
  obtain ⟨s', hs'⟩ : ∃ s', (send true 0x01 []).send Controller.ili9341.panel s = .ok s' := ⟨_, rfl⟩
  have hreset : Resets Controller.ili9341.panel s.halfWord (send true 0x01 []) := by
    rw [sendAll_halfWord (s := constructed) rfl hs]
    exact Or.inr ⟨[], rfl⟩
  refine ⟨s, s', hs, hs', ?_⟩
  apply (reset_forgets .ili9341 ⟨rfl, rfl, rfl, rfl, rfl⟩ hs hreset hs').mpr
  constructor
  · intro x y
    rw [hmad]
    rfl
  · intro h
    cases h

/-- MADCTL mirrors the columns, and SWRESET leaves them so. -/
theorem mirror_survives :
    ¬∀ (c : Controller) (g s s' g' : State) (history ts : List Transfer) (t : Transfer),
      Constructed g → sendAll c.panel g history = .ok s → Resets c.panel s.halfWord t →
      t.send c.panel s = .ok s' → Constructed g' → OwnWindow (itemsOf c.panel none ts).1 →
      drawn c.panel s' ts = drawn c.panel g' ts := by
  intro h
  have hg : Constructed constructed := ⟨rfl, rfl, rfl, rfl, rfl⟩
  obtain ⟨s, hs, hmad⟩ : ∃ s, sendAll Controller.ili9341.panel constructed (madctl 0x40) = .ok s ∧
      s.madCtl = 0x40 := ⟨_, rfl, rfl⟩
  obtain ⟨s', hs'⟩ : ∃ s', (send true 0x01 []).send Controller.ili9341.panel s = .ok s' := ⟨_, rfl⟩
  have hreset : Resets Controller.ili9341.panel s.halfWord (send true 0x01 []) := by
    rw [sendAll_halfWord (s := constructed) rfl hs]
    exact Or.inr ⟨[], rfl⟩
  have hsteady : Steady s := hg.steady.sendAll hs
  have hsteady' : Steady s' := hsteady.send hs'
  obtain ⟨hmad', hhalf⟩ := resets_keeps hsteady.isReset hreset hs'
  have hdrawn := h .ili9341 constructed s s' constructed (madctl 0x40)
    (drawAt fakeIli9341Spi 0 0) (send true 0x01 []) hg hs hreset hs' hg (drawAt_own _ 0 0)
  obtain ⟨argb, hleft⟩ := drawAt_drawn Controller.ili9341.wide hsteady' hhalf 0 0
  obtain ⟨argb', hright⟩ := drawAt_drawn Controller.ili9341.wide hg.steady rfl 0 0
  have hplace := writeAt_inj (Except.ok.inj (hleft.symm.trans (hdrawn.trans hright)))
  rw [hmad', hmad] at hplace
  have hfst := congrArg Prod.fst (Option.some.inj hplace)
  exact absurd hfst (by decide)

end RooTesting.Displays
