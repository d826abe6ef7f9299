import RooTesting.DisplayChunks
import RooTesting.GridOrientations
import Mathlib.Data.List.GetD

/-! # The windows of the ST77xx controllers

CASET and PASET set a window in the controller's memory, and MADCTL sets its orientation. RAMWR
fills the window with pixels, row by row, and the viewport shows the memory without its borders.
The addresses are kept as `int16_t`, so that only a memory of up to 32768 rows and columns can be
addressed as a whole. -/
namespace RooTesting.Displays

open GridOrientations

/-- A command with the data bytes that follow it. -/
structure Frame where
  cmd : Byte
  data : List Byte

/-- What the frames of a stream set for later pixels. -/
structure Registers where
  madCtl : Word
  x0 : Word
  y0 : Word
  x1 : Word
  y1 : Word

def State.registers (s : State) : Registers := ⟨s.madCtl, s.x0, s.y0, s.x1, s.y1⟩

namespace Frame

variable (f : Frame)

def stream : Stream := (true, f.cmd) :: f.data.map fun b => (false, b)

/-- A byte of the data, as the operand buffer holds it. -/
def unit (i : ℕ) : Word := (f.data.getD i 0).setWidth 16

def address (i : ℕ) : Word := (f.unit i <<< 8) + f.unit (i + 1)

def set (r : Registers) : Registers :=
  if f.cmd = 0x2A ∧ 4 ≤ f.data.length then { r with x0 := f.address 0, x1 := f.address 2 }
  else if f.cmd = 0x2B ∧ 4 ≤ f.data.length then { r with y0 := f.address 0, y1 := f.address 2 }
  else if f.cmd = 0x36 ∧ 1 ≤ f.data.length then { r with madCtl := f.unit 0 }
  else r

def push (b : Byte) : Frame := { f with data := f.data ++ [b] }

end Frame

def caset (a b : Word) : Frame := ⟨0x2A, [highByte a, lowByte a, highByte b, lowByte b]⟩
def paset (a b : Word) : Frame := ⟨0x2B, [highByte a, lowByte a, highByte b, lowByte b]⟩

def ramwr (colors : List Word) : Frame :=
  ⟨0x2C, colors.flatMap fun color => [highByte color, lowByte color]⟩

def orientation (val : Word) : Orientation := ⟨MadCtl.mv val, MadCtl.mx val, MadCtl.my val⟩

section Geometry

variable (width height xPadding yPadding : Word)

/-- The controller's memory in native coordinates. -/
def ram : Cell := (width.toInt + 2 * xPadding.toInt, height.toInt + 2 * yPadding.toInt)

def viewport : Cell := (width.toInt, height.toInt)

/-- The place on the viewport of a native cell. -/
def behindBorder (native : Cell) : Cell := (native.1 - xPadding.toInt, native.2 - yPadding.toInt)

/-- The place on the viewport of a logical cell. -/
def viewed (val : Word) (cell : Cell) : Cell :=
  behindBorder xPadding yPadding ((orientation val).place (ram width height xPadding yPadding) cell)

def fill (v : Cell) (argb : BitVec 32) : Write :=
  ⟨.ofInt 16 v.1, .ofInt 16 v.2, .ofInt 16 v.1, .ofInt 16 v.2, argb⟩

/-- What a pixel of a logical cell draws. -/
def shows (val : Word) (cell : Cell) (argb : BitVec 32) : List Write :=
  if viewed width height xPadding yPadding val cell ∈ box (viewport width height) then
    [fill (viewed width height xPadding yPadding val cell) argb]
  else []

end Geometry

namespace Registers

variable (r : Registers)

def windowWidth : ℕ := r.x1.toNat - r.x0.toNat + 1
def windowHeight : ℕ := r.y1.toNat - r.y0.toNat + 1

/-- The logical cell of the `k`-th pixel in row-major order. -/
def cell (k : ℕ) : Cell :=
  ((r.x0.toNat + (rowMajor r.windowWidth k).1 : ℕ), (r.y0.toNat + (rowMajor r.windowWidth k).2 : ℕ))

/-- What pixels draw, each with its number. -/
def drawn (width height xPadding yPadding : Word) (pixels : List (Word × ℕ)) : List Write :=
  pixels.flatMap fun pixel =>
    shows width height xPadding yPadding r.madCtl (r.cell pixel.2) (rgb565 pixel.1)

/-- A window in a memory of the given native size. -/
def Inside (native : Cell) : Prop :=
  r.x0.toNat ≤ r.x1.toNat ∧ r.y0.toNat ≤ r.y1.toNat ∧
    ((r.x1.toNat, r.y1.toNat) : Cell) ∈ box ((orientation r.madCtl).turn native)

/-- The addresses that an `int16_t` holds. -/
def Signed : Prop := r.x1.toNat < 2 ^ 15 ∧ r.y1.toNat < 2 ^ 15

end Registers

/-- A frame on its way: what it has collected, and what it has set. -/
structure Collected (s : State) (f : Frame) (t : State) : Prop where
  steady : Steady t
  latest : t.lastCommand = f.cmd.setWidth 16
  kept : keeps t.lastCommand = true → t.bufSize = f.data.length ∧
    ∀ i : Fin 16, i.val < f.data.length → t.buf i = f.unit i
  registers : t.registers = f.set s.registers

theorem unit_push_lt {f : Frame} (b : Byte) {i : ℕ} (h : i < f.data.length) :
    (f.push b).unit i = f.unit i := by
  rw [Frame.unit, Frame.unit, Frame.push, List.getD_append _ _ _ _ h]

theorem unit_push (f : Frame) (b : Byte) :
    (f.push b).unit f.data.length = b.setWidth 16 := by
  rw [Frame.unit, Frame.push, List.getD_append_right _ _ _ _ (Nat.le_refl _), Nat.sub_self]
  rfl

/-- The operand buffer after one more byte. -/
theorem Collected.stored {s t u : State} {f : Frame} (h : Collected s f t) {b : Byte}
    (hu : t.store (b.setWidth 16) = .ok u) :
    (keeps u.lastCommand = true → u.bufSize = (f.push b).data.length ∧
      ∀ i : Fin 16, i.val < (f.push b).data.length → u.buf i = (f.push b).unit i) ∧
    u.lastCommand = t.lastCommand ∧ Steady u ∧ u.registers = t.registers := by
  unfold State.store at hu
  split at hu
  · cases hu
    refine ⟨fun hkeeps => ?_, rfl, ⟨h.steady.isReset, h.steady.isInverted⟩, rfl⟩
    obtain ⟨hsize, hbuf⟩ := h.kept hkeeps
    have hlen : (f.push b).data.length = f.data.length + 1 := List.length_append
    refine ⟨hlen ▸ congrArg (· + 1) hsize, fun i hi => ?_⟩
    dsimp only
    rcases Nat.lt_or_eq_of_le (Nat.lt_succ_iff.mp (hlen ▸ hi)) with hlt | heq
    · have hne : i ≠ ⟨t.bufSize, by assumption⟩ :=
        fun heq => absurd (congrArg Fin.val heq) (by dsimp only; omega)
      rw [Function.update_of_ne hne, hbuf i hlt, unit_push_lt b hlt]
    · have hindex : i = ⟨t.bufSize, by assumption⟩ := Fin.ext (heq.trans hsize.symm)
      rw [hindex, Function.update_self]
      dsimp only
      rw [hsize, unit_push]
  · cases hu

section Sets

variable {f : Frame} (r : Registers)

theorem set_caset (h : f.cmd = 0x2A) :
    f.set r = if 4 ≤ f.data.length then { r with x0 := f.address 0, x1 := f.address 2 } else r := by
  simp [Frame.set, h]

theorem set_paset (h : f.cmd = 0x2B) :
    f.set r = if 4 ≤ f.data.length then { r with y0 := f.address 0, y1 := f.address 2 } else r := by
  simp [Frame.set, h]

theorem set_madctl (h : f.cmd = 0x36) :
    f.set r = if 1 ≤ f.data.length then { r with madCtl := f.unit 0 } else r := by
  simp [Frame.set, h]

theorem set_other (hA : f.cmd ≠ 0x2A) (hB : f.cmd ≠ 0x2B) (hM : f.cmd ≠ 0x36) : f.set r = r := by
  rw [Frame.set, if_neg fun h => hA h.1, if_neg fun h => hB h.1, if_neg fun h => hM h.1]

/-- One more byte of data sets anew what the bytes before it have set. -/
theorem set_push (b : Byte) : (f.push b).set (f.set r) = (f.push b).set r := by
  have hlen : (f.push b).data.length = f.data.length + 1 := List.length_append
  by_cases hA : f.cmd = 0x2A
  · rw [set_caset (f := f.push b) _ hA, set_caset (f := f.push b) _ hA, set_caset _ hA]
    split_ifs with hmore hfew
    · rfl
    · rfl
    · omega
    · rfl
  · by_cases hB : f.cmd = 0x2B
    · rw [set_paset (f := f.push b) _ hB, set_paset (f := f.push b) _ hB, set_paset _ hB]
      split_ifs with hmore hfew
      · rfl
      · rfl
      · omega
      · rfl
    · by_cases hM : f.cmd = 0x36
      · rw [set_madctl (f := f.push b) _ hM, set_madctl (f := f.push b) _ hM, set_madctl _ hM]
        split_ifs with hmore hfew
        · rfl
        · rfl
        · omega
        · rfl
      · rw [set_other _ hA hB hM]

end Sets

theorem setWidth_inj {a b : Byte} : a.setWidth 16 = b.setWidth 16 ↔ a = b := by
  refine ⟨fun h => BitVec.eq_of_toNat_eq ?_, congrArg _⟩
  have hnat := congrArg BitVec.toNat h
  have := a.isLt
  have := b.isLt
  simp only [BitVec.toNat_setWidth] at hnat
  omega

section Panels

variable {width height xPadding yPadding : Word}

theorem handleData_buf (p : Panel) (s : State) : (s.handleData p).buf = s.buf := by
  simp only [State.handleData, State.writeColor, apply_ite State.buf, ite_self]

theorem handleCmd_registers (p : Panel) {s : State} (hr : s.isReset = true) (cmd : Word) :
    (s.handleCmd p cmd).registers = s.registers := by
  rw [handleCmd_eq p hr]
  simp only [apply_ite State.registers]
  simp only [State.registers, ite_self]

theorem writeColor_registers (p : Panel) (s : State) :
    (s.writeColor p).registers = s.registers := by
  simp only [State.writeColor, apply_ite State.registers]
  exact ite_self _

/-- The four operands of a window, when they are there. -/
theorem buf_units {s : State} {f : Frame}
    (hbuf : ∀ i : Fin 16, i.val < f.data.length → s.buf i = f.unit i) (h : 4 ≤ f.data.length) :
    s.buf 0 = f.unit 0 ∧ s.buf 1 = f.unit 1 ∧ s.buf 2 = f.unit 2 ∧ s.buf 3 = f.unit 3 :=
  ⟨hbuf 0 (Nat.lt_of_lt_of_le (by decide) h), hbuf 1 (Nat.lt_of_lt_of_le (by decide) h),
    hbuf 2 (Nat.lt_of_lt_of_le (by decide) h), hbuf 3 (Nat.lt_of_lt_of_le (by decide) h)⟩

/-- Complete operands set the registers. -/
theorem handleData_registers {s : State} {f : Frame} (hlast : s.lastCommand = f.cmd.setWidth 16)
    (hkept : keeps s.lastCommand = true → s.bufSize = f.data.length ∧
      ∀ i : Fin 16, i.val < f.data.length → s.buf i = f.unit i) (hpos : 1 ≤ f.data.length) :
    (s.handleData (fakeSt77xxSpi width height xPadding yPadding)).registers =
      f.set s.registers := by
  by_cases hA : f.cmd = 0x2A
  · have hlast : s.lastCommand = 0x2A := by rw [hlast, hA]; rfl
    obtain ⟨hsize, hbuf⟩ := hkept (by simp [keeps, hlast])
    rw [handleData_caset _ hlast, set_caset _ hA, hsize]
    by_cases hfew : f.data.length < 4
    · rw [if_pos hfew, if_neg (Nat.not_le.mpr hfew)]
    · have hge := Nat.le_of_not_lt hfew
      obtain ⟨h0, h1, h2, h3⟩ := buf_units hbuf hge
      rw [if_neg hfew, if_pos hge, h0, h1, h2, h3]
      rfl
  · by_cases hB : f.cmd = 0x2B
    · have hlast : s.lastCommand = 0x2B := by rw [hlast, hB]; rfl
      obtain ⟨hsize, hbuf⟩ := hkept (by simp [keeps, hlast])
      rw [handleData_paset _ hlast, set_paset _ hB, hsize]
      by_cases hfew : f.data.length < 4
      · rw [if_pos (by exact hfew), if_neg (Nat.not_le.mpr hfew)]
      · have hge := Nat.le_of_not_lt hfew
        obtain ⟨h0, h1, h2, h3⟩ := buf_units hbuf hge
        rw [if_neg (by exact hfew), if_pos hge, h0, h1, h2, h3]
        rfl
    · by_cases hM : f.cmd = 0x36
      · have hlast : s.lastCommand = 0x36 := by rw [hlast, hM]; rfl
        obtain ⟨-, hbuf⟩ := hkept (by simp [keeps, hlast])
        rw [handleData_madctl _ hlast, set_madctl _ hM, if_pos hpos, hbuf 0 (by change 0 < _; omega)]
        rfl
      · have hother : ∀ b : Byte, f.cmd ≠ b → s.lastCommand ≠ b.setWidth 16 :=
          fun b hne heq => hne (setWidth_inj.mp (hlast.symm.trans heq))
        rw [set_other _ hA hB hM]
        by_cases hC : s.lastCommand = 0x2C
        · rw [handleData_ramwr _ hC]
          split
          · rfl
          · exact writeColor_registers _ s
        · rw [handleData_other _ (hother 0x2A hA) (hother 0x2B hB) hC (hother 0x36 hM)]
          rfl

variable {s : State}

theorem Collected.push {t t' : State} {f : Frame} {b : Byte}
    (h : Collected s f t)
    (ht : t.handle (fakeSt77xxSpi width height xPadding yPadding) (.data (b.setWidth 16)) = .ok t') :
    Collected s (f.push b) t' := by
  have hsteady := h.steady.handle ht
  obtain ⟨u, hu, rfl⟩ := handle_data_ok ht
  obtain ⟨hkept, hlatest, -, hregs⟩ := h.stored hu
  have hcmd : u.lastCommand = f.cmd.setWidth 16 := hlatest.trans h.latest
  refine ⟨hsteady, (handleData_lastCommand _ u).trans hcmd, fun hkeeps => ?_, ?_⟩
  · rw [handleData_lastCommand] at hkeeps
    rw [handleData_bufSize, if_pos hkeeps, handleData_buf]
    exact hkept hkeeps
  · have hlen : (f.push b).data.length = f.data.length + 1 := List.length_append
    rw [handleData_registers (f := f.push b) hcmd hkept (by omega), hregs, h.registers, set_push]

theorem Collected.more {t t' : State} {f : Frame} {data : List Byte} (h : Collected s f t)
    (ht : handleAll (fakeSt77xxSpi width height xPadding yPadding) t
      (data.map fun b => .data (b.setWidth 16)) = .ok t') :
    Collected s { f with data := f.data ++ data } t' := by
  induction data generalizing f t with
  | nil =>
    cases ht
    rwa [List.append_nil]
  | cons b data ih =>
    rw [List.map_cons, handleAll_cons] at ht
    cases hb : t.handle (fakeSt77xxSpi width height xPadding yPadding) (.data (b.setWidth 16)) with
    | error e =>
      rw [hb] at ht
      cases ht
    | ok u =>
      rw [hb] at ht
      have hnext := ih (h.push hb) ht
      rwa [Frame.push, List.append_assoc] at hnext

theorem stream_items (f : Frame) :
    f.stream.map streamItem =
      .command (f.cmd.setWidth 16) :: f.data.map fun b => .data (b.setWidth 16) := by
  rw [Frame.stream, List.map_cons, List.map_map]
  rfl

theorem frame_collected {t : State} {f : Frame} (hs : Steady s)
    (ht : handleAll (fakeSt77xxSpi width height xPadding yPadding) s
      (f.stream.map streamItem) = .ok t) : Collected s f t := by
  have hfirst : Collected s ⟨f.cmd, []⟩
      (s.handleCmd (fakeSt77xxSpi width height xPadding yPadding) (f.cmd.setWidth 16)) := by
    have hr := hs.isReset
    refine ⟨hs.handle (i := .command (f.cmd.setWidth 16)) rfl, handleCmd_lastCommand _ hr _,
      fun _ => ⟨handleCmd_bufSize _ hr _, fun i hi => absurd hi (Nat.not_lt_zero _)⟩, ?_⟩
    rw [handleCmd_registers _ hr]
    simp [Frame.set]
  rw [stream_items, handleAll_cons] at ht
  exact hfirst.more ht

theorem handleAll_append_ok {p : Panel} {s t : State} {items rest : List Item}
    (h : handleAll p s (items ++ rest) = .ok t) :
    ∃ u, handleAll p s items = .ok u ∧ handleAll p u rest = .ok t := by
  rw [handleAll_append] at h
  cases hu : handleAll p s items with
  | error e =>
    rw [hu] at h
    cases h
  | ok u =>
    rw [hu] at h
    exact ⟨u, rfl, h⟩

/-- The frames of a stream set the registers one after the other. -/
theorem frames_registers {t : State} {frames : List Frame} (hs : Steady s)
    (ht : handleAll (fakeSt77xxSpi width height xPadding yPadding) s
      ((frames.flatMap Frame.stream).map streamItem) = .ok t) :
    Steady t ∧ t.registers = frames.foldl (fun r f => f.set r) s.registers := by
  induction frames generalizing s with
  | nil =>
    cases ht
    exact ⟨hs, rfl⟩
  | cons f frames ih =>
    rw [List.flatMap_cons, List.map_append] at ht
    obtain ⟨u, hu, hrest⟩ := handleAll_append_ok ht
    have hf := frame_collected hs hu
    rw [List.foldl_cons, ← hf.registers]
    exact ih hf.steady hrest

theorem viewed_eq (val x y : Word) :
    viewed width height xPadding yPadding val (x.toInt, y.toInt) =
      ((if MadCtl.mx val then
          width.toInt + 2 * xPadding.toInt - 1 - (if MadCtl.mv val then y.toInt else x.toInt)
        else if MadCtl.mv val then y.toInt else x.toInt) - xPadding.toInt,
      (if MadCtl.my val then
          height.toInt + 2 * yPadding.toInt - 1 - (if MadCtl.mv val then x.toInt else y.toInt)
        else if MadCtl.mv val then x.toInt else y.toInt) - yPadding.toInt) := by
  have hturn : (orientation val).turn (x.toInt, y.toInt) =
      (if MadCtl.mv val then y.toInt else x.toInt, if MadCtl.mv val then x.toInt else y.toInt) := by
    unfold Orientation.turn orientation
    dsimp only
    split
    · rfl
    · rfl
  rw [viewed, Orientation.place, hturn]
  rfl

/-- A pixel is placed where its logical cell is viewed. -/
theorem place_eq (val x y : Word) :
    (fakeSt77xxSpi width height xPadding yPadding).place val x y =
      if viewed width height xPadding yPadding val (x.toInt, y.toInt) ∈
          box (viewport width height) then
        some (.ofInt 16 (viewed width height xPadding yPadding val (x.toInt, y.toInt)).1,
          .ofInt 16 (viewed width height xPadding yPadding val (x.toInt, y.toInt)).2)
      else none := by
  have hmem : ∀ a b : ℤ, (0 ≤ a ∧ 0 ≤ b ∧ a < width.toInt ∧ b < height.toInt) ↔
      (a, b) ∈ box (viewport width height) := by
    intro a b
    rw [mem_box]
    exact ⟨fun h => ⟨⟨h.1, h.2.2.1⟩, h.2.1, h.2.2.2⟩, fun h => ⟨h.1.1, h.2.1, h.1.2, h.2.2⟩⟩
  rw [viewed_eq]
  exact if_congr (hmem _ _) rfl rfl

theorem writeAt_place (val x y : Word) (argb : BitVec 32) :
    writeAt argb ((fakeSt77xxSpi width height xPadding yPadding).place val x y) =
      shows width height xPadding yPadding val (x.toInt, y.toInt) argb := by
  rw [place_eq, shows]
  split
  · rfl
  · rfl

/-- A controller that has drawn `k` pixels of a window. -/
structure Drawing (r : Registers) (k : ℕ) (t : State) : Prop where
  steady : Steady t
  latest : t.lastCommand = 0x2C
  bufSize : t.bufSize = 0
  registers : t.registers = r
  xCursor : t.xCursor = r.x0 + .ofNat 16 (rowMajor r.windowWidth k).1
  yCursor : t.yCursor = r.y0 + .ofNat 16 (rowMajor r.windowWidth k).2

section Bytes

variable {t : State} (hlast : t.lastCommand = 0x2C)
include hlast

/-- The first byte of a pixel is kept. -/
theorem handle_first (hsize : t.bufSize = 0) (unit : Word) :
    t.handle (fakeSt77xxSpi width height xPadding yPadding) (.data unit) =
      .ok { t with buf := Function.update t.buf 0 unit, bufSize := 1 } := by
  rw [State.handle, State.store, dif_pos (by omega)]
  simp only [hsize]
  exact congrArg Except.ok
    ((handleData_ramwr _ (by exact hlast)).trans (if_pos (Nat.lt_succ_self 1)))

/-- The second byte of a pixel draws it. -/
theorem handle_second (hsize : t.bufSize = 1) (unit : Word) :
    t.handle (fakeSt77xxSpi width height xPadding yPadding) (.data unit) =
      .ok { State.writeColor (fakeSt77xxSpi width height xPadding yPadding)
        { t with buf := Function.update t.buf 1 unit, bufSize := 2 } with bufSize := 0 } := by
  rw [State.handle, State.store, dif_pos (by omega)]
  simp only [hsize]
  exact congrArg Except.ok
    ((handleData_ramwr _ (by exact hlast)).trans (if_neg (Nat.lt_irrefl 2)))

variable (width height xPadding yPadding) in
theorem handle_pixel (hsize : t.bufSize = 0) (color : Word) :
    ∃ buf : Fin 16 → Word, (buf 0 <<< 8) + buf 1 = color ∧
      handleAll (fakeSt77xxSpi width height xPadding yPadding) t
        [.data ((highByte color).setWidth 16), .data ((lowByte color).setWidth 16)] =
      .ok { State.writeColor (fakeSt77xxSpi width height xPadding yPadding)
        { t with buf := buf, bufSize := 2 } with bufSize := 0 } := by
  refine ⟨Function.update (Function.update t.buf 0 ((highByte color).setWidth 16)) 1
    ((lowByte color).setWidth 16), ?_, ?_⟩
  · exact address_bytes (p := fakeSt77xxSpi width height xPadding yPadding) (fun _ => rfl) color
  · rw [handleAll_cons, handle_first hlast hsize]
    change handleAll _ _ [Item.data ((lowByte color).setWidth 16)] = _
    rw [handleAll_cons, handle_second (by exact hlast) rfl]
    rfl

end Bytes

theorem toInt_offset {a : Word} {n : ℕ} (h : a.toNat + n < 2 ^ 15) :
    (a + .ofNat 16 n).toInt = (a.toNat + n : ℕ) := by
  have hnat : (a + .ofNat 16 n).toNat = a.toNat + n := by
    rw [BitVec.toNat_add, BitVec.toNat_ofNat, Nat.add_mod_mod, Nat.mod_eq_of_lt (by omega)]
  rw [BitVec.toInt_eq_toNat_of_lt (by omega), hnat]

theorem offset_succ (a : Word) (n : ℕ) :
    a + .ofNat 16 n + 1 = a + .ofNat 16 (n + 1) := by
  rw [BitVec.add_assoc, BitVec.ofNat_add]
  rfl

/-- A window whose addresses an `int16_t` holds. -/
structure Addressable (r : Registers) : Prop where
  columns : r.x0.toNat ≤ r.x1.toNat
  rows : r.y0.toNat ≤ r.y1.toNat
  signed : r.Signed

theorem Registers.windowWidth_pos (r : Registers) : 0 < r.windowWidth := Nat.succ_pos _

/-- The cursor is in its row as long as there is a next pixel in it. -/
theorem Drawing.slt {r : Registers} {k : ℕ} {t : State} (h : Drawing r k t) (hr : Addressable r) :
    t.xCursor.slt t.x1 = true ↔ (rowMajor r.windowWidth k).1 + 1 < r.windowWidth := by
  have hcolumns := hr.columns
  have hsigned := hr.signed.1
  have hwide : r.windowWidth = r.x1.toNat - r.x0.toNat + 1 := rfl
  have hlt : (rowMajor r.windowWidth k).1 < r.windowWidth := Nat.mod_lt k r.windowWidth_pos
  have hx1 : t.x1 = r.x1 := congrArg Registers.x1 h.registers
  rw [BitVec.slt_iff_toInt_lt, hx1, h.xCursor, toInt_offset (by omega),
    BitVec.toInt_eq_toNat_of_lt (by omega)]
  omega

variable (width height xPadding yPadding) in
theorem drawing_begins {t : State} (ht : Steady t) :
    Drawing t.registers 0 (t.handleCmd (fakeSt77xxSpi width height xPadding yPadding) 0x2C) := by
  have hr := ht.isReset
  obtain ⟨hx, hy⟩ := handleCmd_ramwr (fakeSt77xxSpi width height xPadding yPadding) hr
  have hfirst : rowMajor t.registers.windowWidth 0 = (0, 0) := by
    rw [rowMajor, Nat.zero_mod, Nat.zero_div]
  refine ⟨ht.handle (i := .command 0x2C) rfl, handleCmd_lastCommand _ hr _, handleCmd_bufSize _ hr _,
    handleCmd_registers _ hr _, ?_, ?_⟩
  · rw [hx, hfirst]
    exact (BitVec.add_zero _).symm
  · rw [hy, hfirst]
    exact (BitVec.add_zero _).symm

/-- A colour that is complete is shown at the cell whose turn it is. -/
theorem Drawing.pixel {r : Registers} {k : ℕ} {t : State} (h : Drawing r k t) (hr : Addressable r)
    (hk : k < r.windowWidth * r.windowHeight) {buf : Fin 16 → Word} {color : Word}
    (hcolor : (buf 0 <<< 8) + buf 1 = color) :
    State.pixel (fakeSt77xxSpi width height xPadding yPadding)
        { t with buf := buf, bufSize := 2 } =
      shows width height xPadding yPadding r.madCtl (r.cell k) (rgb565 color) := by
  obtain ⟨hcolumn, hrow⟩ := (rowMajor_bijOn r.windowWidth_pos r.windowHeight).mapsTo hk
  have hcolumns := hr.columns
  have hrows := hr.rows
  obtain ⟨hx1, hy1⟩ := hr.signed
  have hw : r.windowWidth = r.x1.toNat - r.x0.toNat + 1 := rfl
  have hh : r.windowHeight = r.y1.toNat - r.y0.toNat + 1 := rfl
  have hmad : t.madCtl = r.madCtl := congrArg Registers.madCtl h.registers
  let u : State := { t with buf := buf, bufSize := 2 }
  have hargb : u.argb (fakeSt77xxSpi width height xPadding yPadding) = rgb565 color := by
    rw [State.argb, if_neg (by rw [show u.isInverted = false from h.steady.isInverted]; decide)]
    exact congrArg rgb565 hcolor
  have hcell : ((t.xCursor.toInt, t.yCursor.toInt) : Cell) = r.cell k := by
    rw [h.xCursor, h.yCursor, toInt_offset (by simp only [Set.mem_Iio] at hcolumn; omega),
      toInt_offset (by simp only [Set.mem_Iio] at hrow; omega)]
    rfl
  rw [pixel_eq, hargb, writeAt_place]
  change shows width height xPadding yPadding t.madCtl (t.xCursor.toInt, t.yCursor.toInt) _ = _
  rw [hcell, hmad]

variable (width height xPadding yPadding) in
/-- One pixel of the window. -/
theorem Drawing.next {r : Registers} {k : ℕ} {t : State} (h : Drawing r k t) (hr : Addressable r)
    (hk : k < r.windowWidth * r.windowHeight) (color : Word) :
    ∃ t', handleAll (fakeSt77xxSpi width height xPadding yPadding) t
        [.data ((highByte color).setWidth 16), .data ((lowByte color).setWidth 16)] = .ok t' ∧
      Drawing r (k + 1) t' ∧
      t'.writes = t.writes ++
        shows width height xPadding yPadding r.madCtl (r.cell k) (rgb565 color) := by
  obtain ⟨buf, hcolor, hrun⟩ := handle_pixel width height xPadding yPadding h.latest h.bufSize color
  have hx0 : t.x0 = r.x0 := congrArg Registers.x0 h.registers
  let u : State := { t with buf := buf, bufSize := 2 }
  have hpixel : State.pixel (fakeSt77xxSpi width height xPadding yPadding) u =
      shows width height xPadding yPadding r.madCtl (r.cell k) (rgb565 color) :=
    h.pixel hr hk hcolor
  have hnext := rowMajor_succ r.windowWidth_pos k
  by_cases hlt : t.xCursor.slt t.x1 = true
  · rw [if_pos ((h.slt hr).mp hlt)] at hnext
    refine ⟨_, hrun, ?_, (writeColor_writes _ u).trans (congrArg _ hpixel)⟩
    rw [State.writeColor, if_pos (by exact hlt)]
    refine ⟨⟨h.steady.isReset, h.steady.isInverted⟩, h.latest, rfl, h.registers, ?_, ?_⟩
    · rw [hnext, ← offset_succ, ← h.xCursor]
    · rw [hnext, ← h.yCursor]
  · rw [if_neg fun hin => hlt ((h.slt hr).mpr hin)] at hnext
    refine ⟨_, hrun, ?_, (writeColor_writes _ u).trans (congrArg _ hpixel)⟩
    rw [State.writeColor, if_neg (by exact hlt)]
    refine ⟨⟨h.steady.isReset, h.steady.isInverted⟩, h.latest, rfl, h.registers, ?_, ?_⟩
    · rw [hnext]
      exact hx0.trans (BitVec.add_zero _).symm
    · rw [hnext, ← offset_succ, ← h.yCursor]

variable (width height xPadding yPadding) in
theorem Drawing.run {r : Registers} {k : ℕ} {t : State} {colors : List Word} (h : Drawing r k t)
    (hr : Addressable r) (hk : k + colors.length ≤ r.windowWidth * r.windowHeight) :
    ∃ t', handleAll (fakeSt77xxSpi width height xPadding yPadding) t
        ((ramwr colors).data.map fun b => .data (b.setWidth 16)) = .ok t' ∧
      t'.writes = t.writes ++ r.drawn width height xPadding yPadding (colors.zipIdx k) := by
  induction colors generalizing k t with
  | nil => exact ⟨t, rfl, (List.append_nil _).symm⟩
  | cons color colors ih =>
    rw [List.length_cons] at hk
    obtain ⟨u, hu, hnext, hone⟩ := h.next width height xPadding yPadding hr (by omega) color
    obtain ⟨t', ht', hrest⟩ := ih hnext (by omega)
    refine ⟨t', ?_, ?_⟩
    · change handleAll _ t ([Item.data ((highByte color).setWidth 16),
        Item.data ((lowByte color).setWidth 16)] ++ _) = _
      rw [handleAll_append, hu]
      exact ht'
    · rw [hrest, hone, List.append_assoc, List.zipIdx_cons, Registers.drawn, Registers.drawn,
        List.flatMap_cons]

/-- A write of one pixel of the viewport. -/
def OnViewport (width height : Word) (w : Write) : Prop :=
  (w.x1, w.y1) = (w.x0, w.y0) ∧ (w.x0.toInt, w.y0.toInt) ∈ box (viewport width height)

theorem shows_onViewport {val : Word} {cell : Cell} {argb : BitVec 32} {w : Write}
    (h : w ∈ shows width height xPadding yPadding val cell argb) : OnViewport width height w := by
  unfold shows at h
  split at h
  · rename_i hbox
    obtain rfl := List.mem_singleton.mp h
    refine ⟨rfl, ?_⟩
    have hwidth : width.toInt < 2 ^ 15 := BitVec.toInt_lt
    have hheight : height.toInt < 2 ^ 15 := BitVec.toInt_lt
    have hword : ∀ i n : ℤ, 0 ≤ i → i < n → n < 2 ^ 15 → (BitVec.ofInt 16 i).toInt = i := by
      intro i n hi hlt hn
      rw [BitVec.toInt_ofInt, Int.bmod_eq_of_le (by omega) (by omega)]
    obtain ⟨⟨hx, hx'⟩, hy, hy'⟩ := mem_box.mp hbox
    generalize viewed width height xPadding yPadding val cell = v at *
    change ((BitVec.ofInt 16 v.1).toInt, (BitVec.ofInt 16 v.2).toInt) ∈ _
    rw [hword v.1 _ hx hx' hwidth, hword v.2 _ hy hy' hheight]
    exact hbox
  · cases h

theorem handleData_idle (p : Panel) {s : State} (h : s.lastCommand ≠ 0x2C) :
    (s.handleData p).writes = s.writes := by
  simp only [State.handleData, if_neg h, apply_ite State.writes, ite_self]

theorem handleData_writes (p : Panel) (s : State) :
    ∃ out, (s.handleData p).writes = s.writes ++ out ∧ ∀ w ∈ out, w ∈ s.pixel p := by
  by_cases hC : s.lastCommand = 0x2C
  · rw [handleData_ramwr p hC]
    split
    · exact ⟨[], (List.append_nil _).symm, fun w hw => by cases hw⟩
    · exact ⟨s.pixel p, writeColor_writes p s, fun w hw => hw⟩
  · exact ⟨[], (handleData_idle p hC).trans (List.append_nil _).symm, fun w hw => by cases hw⟩

theorem store_writes {s u : State} {unit : Word} (h : s.store unit = .ok u) :
    u.writes = s.writes := by
  unfold State.store at h
  split at h
  · cases h
    rfl
  · cases h

/-- An item draws nothing outside the viewport. -/
theorem handle_draws {s' : State} {i : Item} (hs : Steady s)
    (h : s.handle (fakeSt77xxSpi width height xPadding yPadding) i = .ok s') :
    ∃ out, s'.writes = s.writes ++ out ∧ ∀ w ∈ out, OnViewport width height w := by
  cases i with
  | command cmd =>
    cases h
    exact ⟨[], by rw [handleCmd_writes _ hs.isReset, List.append_nil], fun w hw => by cases hw⟩
  | data unit =>
    obtain ⟨u, hu, rfl⟩ := handle_data_ok h
    obtain ⟨out, hout, hpixel⟩ := handleData_writes
      (fakeSt77xxSpi width height xPadding yPadding) u
    rw [store_writes hu] at hout
    refine ⟨out, hout, fun w hw => ?_⟩
    have hshown := hpixel w hw
    rw [pixel_eq, writeAt_place] at hshown
    exact shows_onViewport hshown

theorem handleAll_draws {s' : State} {items : List Item} (hs : Steady s)
    (h : handleAll (fakeSt77xxSpi width height xPadding yPadding) s items = .ok s') :
    ∃ out, s'.writes = s.writes ++ out ∧ ∀ w ∈ out, OnViewport width height w := by
  induction items generalizing s with
  | nil =>
    cases h
    exact ⟨[], (List.append_nil _).symm, fun w hw => by cases hw⟩
  | cons i items ih =>
    rw [handleAll_cons] at h
    cases hi : s.handle (fakeSt77xxSpi width height xPadding yPadding) i with
    | error e =>
      rw [hi] at h
      cases h
    | ok t =>
      rw [hi] at h
      obtain ⟨out, hout, hon⟩ := handle_draws hs hi
      obtain ⟨more, hmore, hon'⟩ := ih (hs.handle hi) h
      refine ⟨out ++ more, by rw [hmore, hout, List.append_assoc], fun w hw => ?_⟩
      rcases List.mem_append.mp hw with hw | hw
      · exact hon w hw
      · exact hon' w hw

end Panels

section Claims

variable (width height xPadding yPadding : Word)

/-- After any frames that set an admitted window, RAMWR draws its pixels row by row. -/
def Placed (admitted : Registers → Prop) : Prop :=
  ∀ (s t : State) (frames : List Frame) (colors : List Word) (us ts : List Transfer)
    (r : Registers), Reached (fakeSt77xxSpi width height xPadding yPadding) s →
    Cuts (frames.flatMap Frame.stream) us →
    sendAll (fakeSt77xxSpi width height xPadding yPadding) s us = .ok t →
    Cuts (frames.flatMap Frame.stream ++ (ramwr colors).stream) ts →
    r = frames.foldl (fun r f => f.set r) s.registers →
    r.Inside (ram width height xPadding yPadding) → admitted r →
    colors.length ≤ r.windowWidth * r.windowHeight →
    ∃ s', sendAll (fakeSt77xxSpi width height xPadding yPadding) s ts = .ok s' ∧
      s'.writes = t.writes ++ r.drawn width height xPadding yPadding colors.zipIdx

/-- Each orientation places the logical memory on the native one, and of its cells those that are
viewed are viewed on the whole viewport. -/
def Placement : Prop :=
  ∀ val : Word,
    Set.BijOn ((orientation val).place (ram width height xPadding yPadding))
      (box ((orientation val).turn (ram width height xPadding yPadding)))
      (box (ram width height xPadding yPadding)) ∧
    Set.BijOn (viewed width height xPadding yPadding val)
      {cell ∈ box ((orientation val).turn (ram width height xPadding yPadding)) |
        viewed width height xPadding yPadding val cell ∈ box (viewport width height)}
      (box (viewport width height))

/-- No traffic draws outside the viewport. -/
def Confined : Prop :=
  ∀ (g s : State) (ts : List Transfer), Constructed g →
    sendAll (fakeSt77xxSpi width height xPadding yPadding) g ts = .ok s →
    ∃ out, s.writes = g.writes ++ out ∧ ∀ w ∈ out, OnViewport width height w

end Claims

variable {width height xPadding yPadding : Word}

theorem Reached.steady {p : Panel} {s : State} (h : Reached p s) : Steady s := by
  obtain ⟨g, ts, hg, hs⟩ := h
  exact hg.steady.sendAll hs

theorem placed : Placed width height xPadding yPadding Registers.Signed := by
  intro s t frames colors us ts r hs hus ht hts hr hin hsigned hlen
  have hsteady := hs.steady
  rw [sendAll_bytes rfl hsteady.isReset hus] at ht
  obtain ⟨htsteady, hregs⟩ := frames_registers hsteady ht
  rw [← hr] at hregs
  have hbegins := drawing_begins width height xPadding yPadding htsteady
  rw [hregs] at hbegins
  obtain ⟨s', hrun, hwrites⟩ := hbegins.run width height xPadding yPadding ⟨hin.1, hin.2.1, hsigned⟩
    (by rwa [Nat.zero_add])
  refine ⟨s', ?_, ?_⟩
  · rw [sendAll_bytes rfl hsteady.isReset hts, List.map_append, handleAll_append, ht, stream_items]
    exact hrun
  · rw [hwrites, handleCmd_writes _ htsteady.isReset]

theorem placement (hx : 0 ≤ xPadding.toInt) (hy : 0 ≤ yPadding.toInt) :
    Placement width height xPadding yPadding := by
  intro val
  have hplace := place_bijOn (orientation val) (ram width height xPadding yPadding)
  refine ⟨hplace, fun cell hcell => hcell.2, ?_, ?_⟩
  · intro cell hcell cell' hcell' heq
    apply hplace.injOn hcell.1 hcell'.1
    obtain ⟨hfst, hsnd⟩ := Prod.ext_iff.mp heq
    exact Prod.ext (sub_left_inj.mp hfst) (sub_left_inj.mp hsnd)
  · intro v hv
    obtain ⟨⟨hx0, hx1⟩, hy0, hy1⟩ := mem_box.mp hv
    have hnative : (v.1 + xPadding.toInt, v.2 + yPadding.toInt) ∈
        box (ram width height xPadding yPadding) := by
      simp only [viewport] at hx1 hy1
      refine mem_box.mpr ⟨⟨?_, ?_⟩, ?_, ?_⟩
      · exact Int.add_nonneg hx0 hx
      · dsimp only [ram]
        omega
      · exact Int.add_nonneg hy0 hy
      · dsimp only [ram]
        omega
    obtain ⟨cell, hcell, hplaced⟩ := hplace.surjOn hnative
    have hviewed : viewed width height xPadding yPadding val cell = v := by
      rw [viewed, hplaced, behindBorder, add_sub_cancel_right, add_sub_cancel_right]
    exact ⟨cell, ⟨hcell, hviewed.symm ▸ hv⟩, hviewed⟩

theorem confined : Confined width height xPadding yPadding := by
  intro g s ts hg hs
  rw [sendAll_eq _ hg.isReset] at hs
  cases hall : handleAll (fakeSt77xxSpi width height xPadding yPadding) g
      (itemsOf (fakeSt77xxSpi width height xPadding yPadding) g.halfWord ts).1 with
  | error e =>
    rw [hall] at hs
    cases hs
  | ok z =>
    rw [hall] at hs
    cases hs
    obtain ⟨out, hout, hon⟩ := handleAll_draws hg.steady hall
    exact ⟨out, hout, hon⟩

/-- Windows are filled row by row, the logical memory is placed cell by cell on the native one, and
nothing is drawn outside the viewport. -/
theorem addressing (hx : 0 ≤ xPadding.toInt) (hy : 0 ≤ yPadding.toInt) :
    Placed width height xPadding yPadding Registers.Signed ∧
      Placement width height xPadding yPadding ∧ Confined width height xPadding yPadding :=
  ⟨placed, placement hx hy, confined⟩

theorem addressing_padded :
    (0 ≤ BitVec.toInt (1 : Word) ∧ 0 ≤ BitVec.toInt (2 : Word)) ∧
      Placed 240 240 1 2 Registers.Signed ∧ Placement 240 240 1 2 ∧ Confined 240 240 1 2 :=
  ⟨by decide, addressing (by decide) (by decide)⟩

/-- A visible row beyond the largest `int16_t`. -/
theorem high_address_wraps :
    ¬∀ width height xPadding yPadding : Word, 0 ≤ xPadding.toInt → 0 ≤ yPadding.toInt →
      Placed width height xPadding yPadding (fun _ => True) ∧
        Placement width height xPadding yPadding ∧ Confined width height xPadding yPadding := by
  intro h
  obtain ⟨hplaced, -⟩ := h 32767 1 1000 0 (by decide) (by decide)
  have hframes : (sendAll (fakeSt77xxSpi 32767 1 1000 0) constructed
      (singles ([caset 33000 33000, paset 0 0].flatMap Frame.stream))).map State.writes =
      .ok [] := rfl
  have hall : (sendAll (fakeSt77xxSpi 32767 1 1000 0) constructed
      (singles ([caset 33000 33000, paset 0 0].flatMap Frame.stream ++ (ramwr [0]).stream))).map
      State.writes = .ok [] := rfl
  cases ht : sendAll (fakeSt77xxSpi 32767 1 1000 0) constructed
      (singles ([caset 33000 33000, paset 0 0].flatMap Frame.stream)) with
  | error e =>
    rw [ht] at hframes
    cases hframes
  | ok t =>
    rw [ht] at hframes
    obtain ⟨s', hs', hwrites⟩ := hplaced constructed t [caset 33000 33000, paset 0 0] [0] _ _ _
      ⟨constructed, [], ⟨rfl, rfl, rfl, rfl, rfl⟩, rfl⟩ (cuts_singles _) ht (cuts_singles _) rfl
      ⟨by decide, by decide, by decide⟩ trivial (by decide)
    rw [hs'] at hall
    rw [Except.ok.inj hall, Except.ok.inj hframes] at hwrites
    exact absurd hwrites (by decide)

end RooTesting.Displays
