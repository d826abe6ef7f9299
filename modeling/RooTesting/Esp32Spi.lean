import Mathlib.Data.BitVec
import Mathlib.Data.List.OfFn
import Mathlib.Tactic.Common

/-! # The SPI controller of the ESP32

A transfer walks through the devices of the board. Those that are selected and share the clock take
part in it one after the other. The data buffer of the controller holds what goes out, and what
comes in is put there too. -/
namespace RooTesting.Esp32Spi

abbrev Byte := BitVec 8

/-- The 64 bytes of the controller, or those that a transfer lends to a device. -/
abbrev Buffer := Fin 64 → Byte

def memcpy (dst src : Buffer) (n : ℕ) : Buffer := fun j => if j.val < n then src j else dst j

def memset (dst : Buffer) (value : Byte) (n : ℕ) : Buffer := fun j => if j.val < n then value else dst j

def byteCount (bits : ℕ) : ℕ := (bits + 7) / 8

def firstBytes (buf : Buffer) (n : ℕ) : List Byte := (List.ofFn buf).take n

/-- What a device leaves in the bytes that it was lent. -/
def overwrite (buf : Buffer) (reply : List Byte) : Buffer := fun j => reply.getD j (buf j)

/-- What a device does with the bytes and the number of bits of a transfer, under the settings of
its interface: it replies in place. -/
structure Behaviour (σ : Type) where
  transfer : σ → List Byte → ℕ → List Byte × σ
  length_eq : ∀ s bytes bits, (transfer s bytes bits).1.length = bytes.length

structure Device (σ : Type) where
  clk : ℤ
  miso : ℤ
  mosi : ℤ
  isSelected : Bool
  state : σ

/-- The routes and the levels of the pins. -/
structure Board where
  signalForPin : ℤ → ℕ
  pinForSignal : ℕ → ℤ
  isDigitalHigh : ℤ → Bool

structure Interface where
  clkSignal : ℕ
  misoSignal : ℕ
  mosiSignal : ℕ

/-- The registers that a transfer works on. -/
structure SpiDev where
  dataBuf : Buffer
  usrMosiDbitlen : ℕ
  usrMisoDbitlen : ℕ

/-- The local variables of a transfer; `inputDev` says whether a device has been found that drives
MISO. -/
structure Walk where
  inputDev : Bool
  buf : Buffer
  dataBuf : Buffer

section Transfer

variable {σ : Type} (b : Board) (i : Interface) (F : Behaviour σ)

def level (pin : ℤ) : Byte := if b.isDigitalHigh pin then 0xFF else 0x00

def Device.Clocked (d : Device σ) : Prop := b.signalForPin d.clk = i.clkSignal ∧ d.isSelected = true

def Device.Drives (d : Device σ) : Prop := d.Clocked b i ∧ b.pinForSignal i.misoSignal = d.miso

def Device.Listens (d : Device σ) : Prop := d.Clocked b i ∧ b.signalForPin d.mosi = i.mosiSignal

instance (d : Device σ) : Decidable (d.Clocked b i) := inferInstanceAs (Decidable (_ ∧ _))

instance (d : Device σ) : Decidable (d.Drives b i) := inferInstanceAs (Decidable (_ ∧ _))

/-- What is lent to a device: the data buffer, or the level of a pin that is no MOSI line. -/
def lend (mosiBits : ℕ) (d : Device σ) (buf dataBuf : Buffer) : Buffer :=
  if b.signalForPin d.mosi = i.mosiSignal then memcpy buf dataBuf (byteCount mosiBits)
  else memset buf (level b d.mosi) (byteCount mosiBits)

/-- One turn of the loop. A second device that drives MISO is a conflict. -/
def visit (mosiBits misoBits : ℕ) (w : Walk) (d : Device σ) : Walk × Device σ :=
  if b.signalForPin d.clk ≠ i.clkSignal then (w, d)
  else if d.isSelected = false then (w, d)
  else
    let drives : Bool := b.pinForSignal i.misoSignal = d.miso
    let dataBuf :=
      if drives && w.inputDev then memset w.dataBuf 0xFF (byteCount misoBits) else w.dataBuf
    let buf := lend b i mosiBits d w.buf dataBuf
    let (reply, state) := F.transfer d.state (firstBytes buf (byteCount mosiBits)) mosiBits
    let buf := overwrite buf reply
    ({ inputDev := w.inputDev || drives
       buf := buf
       dataBuf :=
        if drives && !w.inputDev then memcpy dataBuf buf (byteCount misoBits) else dataBuf },
      { d with state := state })

def walk (mosiBits misoBits : ℕ) : Walk → List (Device σ) → Walk × List (Device σ)
  | w, [] => (w, [])
  | w, d :: ds =>
    let (w, d) := visit b i F mosiBits misoBits w d
    let (w, ds) := walk mosiBits misoBits w ds
    (w, d :: ds)

/-- A transfer of at most 512 bits, as many as the buffers hold, with the number of its cycles.
The local buffer has any bytes at first. The register of the bits to send holds one less than their
number, and that of the bits to receive is taken as their number. -/
def transfer (junk : Buffer) (dev : SpiDev) (ds : List (Device σ)) :
    SpiDev × List (Device σ) × ℕ :=
  let mosiBits := dev.usrMosiDbitlen + 1
  let misoBits := dev.usrMisoDbitlen
  let (w, ds) := walk b i F mosiBits misoBits ⟨false, junk, dev.dataBuf⟩ ds
  let dataBuf :=
    if w.inputDev then w.dataBuf
    else memset w.dataBuf (level b (b.pinForSignal i.misoSignal)) (byteCount misoBits)
  ({ dev with dataBuf := dataBuf }, ds, mosiBits)

end Transfer

theorem firstBytes_getElem? (buf : Buffer) (n j : ℕ) :
    (firstBytes buf n)[j]? = if h : j < n ∧ j < 64 then some (buf ⟨j, h.2⟩) else none := by
  unfold firstBytes
  rw [List.getElem?_take]
  by_cases hn : j < n
  · by_cases h64 : j < 64
    · rw [if_pos hn, List.getElem?_ofFn, dif_pos h64, dif_pos ⟨hn, h64⟩]
    · rw [if_pos hn, List.getElem?_ofFn, dif_neg h64, dif_neg (fun h => h64 h.2)]
  · rw [if_neg hn, dif_neg (fun h => hn h.1)]

@[simp] theorem length_firstBytes (buf : Buffer) (n : ℕ) :
    (firstBytes buf n).length = min n 64 := by
  rw [firstBytes, List.length_take, List.length_ofFn]

/-- The first bytes are those that agree there. -/
theorem firstBytes_congr {buf buf' : Buffer} {n : ℕ} (h : ∀ j : Fin 64, j.val < n → buf j = buf' j) :
    firstBytes buf n = firstBytes buf' n := by
  apply List.ext_getElem?
  intro j
  rw [firstBytes_getElem?, firstBytes_getElem?]
  split
  · rename_i hj
    rw [h ⟨j, hj.2⟩ hj.1]
  · rfl

theorem firstBytes_memcpy (dst src : Buffer) (n : ℕ) :
    firstBytes (memcpy dst src n) n = firstBytes src n :=
  firstBytes_congr fun _ hj => if_pos hj

theorem firstBytes_overwrite {buf : Buffer} {reply : List Byte} {n : ℕ}
    (h : reply.length = min n 64) : firstBytes (overwrite buf reply) n = reply := by
  apply List.ext_getElem?
  intro j
  rw [firstBytes_getElem?]
  split
  · rename_i hj
    have hlt : j < reply.length := by omega
    simp [overwrite, hlt]
  · exact (List.getElem?_eq_none (by omega)).symm

section Walks

variable {σ : Type} {b : Board} {i : Interface} (F : Behaviour σ) (mosiBits misoBits : ℕ)
  (w : Walk) {d : Device σ} {ds : List (Device σ)}

/-- A device that does not take part. -/
theorem visit_apart (h : ¬ d.Clocked b i) : visit b i F mosiBits misoBits w d = (w, d) := by
  unfold visit
  split
  · rfl
  · rename_i hclk
    rw [if_pos (by simpa [Device.Clocked, not_not.mp hclk] using h)]

/-- What a device is given, and what becomes of the buffer. -/
theorem visit_clocked (h : d.Clocked b i) {dataBuf buf : Buffer}
    (hdata : dataBuf = if d.Drives b i ∧ w.inputDev = true then
      memset w.dataBuf 0xFF (byteCount misoBits) else w.dataBuf)
    (hbuf : buf = lend b i mosiBits d w.buf dataBuf) :
    (visit b i F mosiBits misoBits w d).2 = { d with
      state := (F.transfer d.state (firstBytes buf (byteCount mosiBits)) mosiBits).2 } ∧
    (visit b i F mosiBits misoBits w d).1.inputDev = (w.inputDev || decide (d.Drives b i)) ∧
    (visit b i F mosiBits misoBits w d).1.dataBuf =
      if d.Drives b i ∧ w.inputDev = false then
        memcpy dataBuf (overwrite buf
          (F.transfer d.state (firstBytes buf (byteCount mosiBits)) mosiBits).1) (byteCount misoBits)
      else dataBuf := by
  have hdrives : d.Drives b i ↔ b.pinForSignal i.misoSignal = d.miso := by
    rw [Device.Drives, and_iff_right h]
  subst hbuf hdata
  unfold visit
  rw [if_neg (not_not.mpr h.1), if_neg (by rw [h.2]; decide)]
  simp [hdrives]

theorem visit_quiet (h : ¬ d.Drives b i) :
    (visit b i F mosiBits misoBits w d).1.inputDev = w.inputDev ∧
    (visit b i F mosiBits misoBits w d).1.dataBuf = w.dataBuf := by
  by_cases hclocked : d.Clocked b i
  · obtain ⟨-, hinput, hdata⟩ := visit_clocked F mosiBits misoBits w hclocked rfl rfl
    rw [hinput, hdata]
    simp [h]
  · rw [visit_apart F mosiBits misoBits w hclocked]
    exact ⟨rfl, rfl⟩

theorem walk_quiet (h : ∀ d ∈ ds, ¬ d.Drives b i) :
    (walk b i F mosiBits misoBits w ds).1.inputDev = w.inputDev ∧
    (walk b i F mosiBits misoBits w ds).1.dataBuf = w.dataBuf := by
  induction ds generalizing w with
  | nil => exact ⟨rfl, rfl⟩
  | cons d ds ih =>
    obtain ⟨hinput, hdata⟩ := visit_quiet F mosiBits misoBits w (h d List.mem_cons_self)
    obtain ⟨hinput', hdata'⟩ := ih (visit b i F mosiBits misoBits w d).1
      fun e he => h e (List.mem_cons_of_mem _ he)
    exact ⟨hinput'.trans hinput, hdata'.trans hdata⟩

theorem walk_append (pre post : List (Device σ)) :
    walk b i F mosiBits misoBits w (pre ++ post) =
      ((walk b i F mosiBits misoBits (walk b i F mosiBits misoBits w pre).1 post).1,
        (walk b i F mosiBits misoBits w pre).2 ++
          (walk b i F mosiBits misoBits (walk b i F mosiBits misoBits w pre).1 post).2) := by
  induction pre generalizing w with
  | nil => rfl
  | cons d pre ih =>
    simp only [List.cons_append, walk]
    rw [ih]

theorem length_walk : (walk b i F mosiBits misoBits w ds).2.length = ds.length := by
  induction ds generalizing w with
  | nil => rfl
  | cons d ds ih =>
    simp only [walk, List.length_cons]
    rw [ih]

/-- Before a device in the middle of the map and behind it. -/
theorem walk_middle (pre post : List (Device σ)) :
    ∃ before, (walk b i F mosiBits misoBits w pre).1 = before ∧
      (walk b i F mosiBits misoBits w (pre ++ d :: post)).1 =
        (walk b i F mosiBits misoBits (visit b i F mosiBits misoBits before d).1 post).1 ∧
      (walk b i F mosiBits misoBits w (pre ++ d :: post)).2 =
        (walk b i F mosiBits misoBits w pre).2 ++ (visit b i F mosiBits misoBits before d).2 ::
          (walk b i F mosiBits misoBits (visit b i F mosiBits misoBits before d).1 post).2 := by
  refine ⟨_, rfl, ?_, ?_⟩
  · rw [walk_append]
    rfl
  · rw [walk_append]
    rfl

/-- A device on the MOSI line with no driver of MISO before it receives the buffer as it was. -/
theorem visit_listens (h : d.Listens b i) (hfirst : w.inputDev = false) :
    (visit b i F mosiBits misoBits w d).2 = { d with
      state := (F.transfer d.state (firstBytes w.dataBuf (byteCount mosiBits)) mosiBits).2 } := by
  obtain ⟨hdevice, -, -⟩ := visit_clocked F mosiBits misoBits w h.1 rfl rfl
  rw [hdevice, hfirst, if_neg (fun hcontra => Bool.false_ne_true hcontra.2), lend, if_pos h.2,
    firstBytes_memcpy]

/-- The bytes that a device is lent where no device before it drives MISO. -/
def lent (b : Board) (i : Interface) (bits : ℕ) (dataBuf : Buffer) (d : Device σ) : List Byte :=
  if b.signalForPin d.mosi = i.mosiSignal then firstBytes dataBuf (byteCount bits)
  else firstBytes (fun _ => level b d.mosi) (byteCount bits)

theorem firstBytes_lend (buf dataBuf : Buffer) :
    firstBytes (lend b i mosiBits d buf dataBuf) (byteCount mosiBits) =
      lent b i mosiBits dataBuf d := by
  unfold lend lent
  split
  · exact firstBytes_memcpy _ _ _
  · exact firstBytes_congr fun j hj => if_pos hj

theorem visit_drives (h : d.Drives b i) (hfirst : w.inputDev = false) :
    (visit b i F mosiBits misoBits w d).1.inputDev = true ∧
    ∃ buf, (visit b i F mosiBits misoBits w d).1.dataBuf =
      memcpy w.dataBuf (overwrite buf
        (F.transfer d.state (lent b i mosiBits w.dataBuf d) mosiBits).1) (byteCount misoBits) := by
  obtain ⟨-, hinput, hdata⟩ := visit_clocked F mosiBits misoBits w h.1 rfl rfl
  simp only [hfirst, h, true_and, Bool.false_eq_true, if_false, if_true, firstBytes_lend] at hdata
  refine ⟨?_, _, hdata⟩
  rw [hinput, decide_eq_true h, Bool.or_true]

/-- Several devices drive MISO. -/
structure Conflict (misoBits : ℕ) (w : Walk) : Prop where
  inputDev : w.inputDev = true
  dataBuf : ∀ j : Fin 64, j.val < byteCount misoBits → w.dataBuf j = 0xFF

theorem visit_inputDev (h : w.inputDev = true) :
    (visit b i F mosiBits misoBits w d).1.inputDev = true := by
  by_cases hclocked : d.Clocked b i
  · obtain ⟨-, hinput, -⟩ := visit_clocked F mosiBits misoBits w hclocked rfl rfl
    rw [hinput, h, Bool.true_or]
  · rw [visit_apart F mosiBits misoBits w hclocked]
    exact h

theorem walk_inputDev (h : w.inputDev = true) :
    (walk b i F mosiBits misoBits w ds).1.inputDev = true := by
  induction ds generalizing w with
  | nil => exact h
  | cons d ds ih => exact ih _ (visit_inputDev F mosiBits misoBits w h)

/-- A second driver, or any device behind it. -/
theorem visit_conflict (h : w.inputDev = true) (hcase : d.Drives b i ∨ Conflict misoBits w) :
    Conflict misoBits (visit b i F mosiBits misoBits w d).1 := by
  by_cases hclocked : d.Clocked b i
  · obtain ⟨-, hinput, hdata⟩ := visit_clocked F mosiBits misoBits w hclocked rfl rfl
    refine ⟨visit_inputDev F mosiBits misoBits w h, ?_⟩
    intro j hj
    rw [hdata, h, if_neg (fun hcontra => Bool.noConfusion hcontra.2)]
    by_cases hdrives : d.Drives b i
    · rw [if_pos ⟨hdrives, rfl⟩]
      exact if_pos hj
    · rw [if_neg (fun hcontra => hdrives hcontra.1)]
      exact (hcase.resolve_left hdrives).dataBuf j hj
  · have hdrives : ¬ d.Drives b i := fun hcontra => hclocked hcontra.1
    rw [visit_apart F mosiBits misoBits w hclocked]
    exact hcase.resolve_left hdrives

theorem walk_conflict (h : Conflict misoBits w) :
    Conflict misoBits (walk b i F mosiBits misoBits w ds).1 := by
  induction ds generalizing w with
  | nil => exact h
  | cons d ds ih => exact ih _ (visit_conflict F mosiBits misoBits w h.inputDev (Or.inr h))

/-- Behind the bytes of the transfer the buffer is left alone. -/
theorem visit_rest {j : Fin 64} (hj : ¬ j.val < byteCount misoBits) :
    (visit b i F mosiBits misoBits w d).1.dataBuf j = w.dataBuf j := by
  by_cases hclocked : d.Clocked b i
  · obtain ⟨-, -, hdata⟩ := visit_clocked F mosiBits misoBits w hclocked rfl rfl
    rw [hdata]
    split
    · rw [memcpy, if_neg hj]
      split
      · exact if_neg hj
      · rfl
    · split
      · exact if_neg hj
      · rfl
  · rw [visit_apart F mosiBits misoBits w hclocked]

theorem walk_rest {j : Fin 64} (hj : ¬ j.val < byteCount misoBits) :
    (walk b i F mosiBits misoBits w ds).1.dataBuf j = w.dataBuf j := by
  induction ds generalizing w with
  | nil => rfl
  | cons d ds ih =>
    rw [walk]
    exact (ih _).trans (visit_rest F mosiBits misoBits w hj)

end Walks

/-- One bit more than a number of whole bytes needs a byte more. -/
theorem byteCount_pred {bits : ℕ} (hpos : 0 < bits) (h : bits % 8 ≠ 1) :
    byteCount (bits - 1) = byteCount bits := by
  unfold byteCount
  omega

section Wired

variable {σ : Type} {b : Board} {i : Interface} {F : Behaviour σ} {junk : Buffer} {dev : SpiDev}
  {ds : List (Device σ)}

theorem transfer_fields (junk : Buffer) (dev : SpiDev) (ds : List (Device σ)) :
    (transfer b i F junk dev ds).2.1 =
      (walk b i F (dev.usrMosiDbitlen + 1) dev.usrMisoDbitlen ⟨false, junk, dev.dataBuf⟩ ds).2 ∧
    (transfer b i F junk dev ds).1.dataBuf =
      if (walk b i F (dev.usrMosiDbitlen + 1) dev.usrMisoDbitlen
          ⟨false, junk, dev.dataBuf⟩ ds).1.inputDev = true then
        (walk b i F (dev.usrMosiDbitlen + 1) dev.usrMisoDbitlen ⟨false, junk, dev.dataBuf⟩ ds).1.dataBuf
      else memset (walk b i F (dev.usrMosiDbitlen + 1) dev.usrMisoDbitlen
          ⟨false, junk, dev.dataBuf⟩ ds).1.dataBuf (level b (b.pinForSignal i.misoSignal))
        (byteCount dev.usrMisoDbitlen) := ⟨rfl, rfl⟩

theorem transfer_listens {pre post : List (Device σ)} {d : Device σ} (hlistens : d.Listens b i)
    (hpre : ∀ e ∈ pre, ¬ e.Drives b i) :
    (transfer b i F junk dev (pre ++ d :: post)).2.1[pre.length]? = some { d with
      state := (F.transfer d.state
        (firstBytes dev.dataBuf (byteCount (dev.usrMosiDbitlen + 1))) (dev.usrMosiDbitlen + 1)).2 } := by
  obtain ⟨hinput, hdata⟩ := walk_quiet F (dev.usrMosiDbitlen + 1) dev.usrMisoDbitlen
    ⟨false, junk, dev.dataBuf⟩ hpre
  obtain ⟨before, hbefore, -, hdevices⟩ := walk_middle (b := b) (i := i) (d := d) F
    (dev.usrMosiDbitlen + 1) dev.usrMisoDbitlen ⟨false, junk, dev.dataBuf⟩ pre post
  rw [(transfer_fields junk dev _).1, hdevices, List.getElem?_append_right (length_walk F _ _ _).le]
  rw [hbefore] at hinput hdata
  rw [length_walk, Nat.sub_self, List.getElem?_cons_zero,
    visit_listens F _ _ before hlistens hinput, hdata]

/-- With one driver of MISO the buffer takes up its reply. -/
theorem transfer_driven (F : Behaviour σ) (junk : Buffer) (dev : SpiDev)
    {pre post : List (Device σ)} {d : Device σ} (hdrives : d.Drives b i)
    (hpre : ∀ e ∈ pre, ¬ e.Drives b i) (hpost : ∀ e ∈ post, ¬ e.Drives b i) :
    ∃ buf, (transfer b i F junk dev (pre ++ d :: post)).1.dataBuf =
      memcpy dev.dataBuf (overwrite buf (F.transfer d.state
        (lent b i (dev.usrMosiDbitlen + 1) dev.dataBuf d) (dev.usrMosiDbitlen + 1)).1)
        (byteCount dev.usrMisoDbitlen) := by
  obtain ⟨hinput, hdata⟩ := walk_quiet F (dev.usrMosiDbitlen + 1) dev.usrMisoDbitlen
    ⟨false, junk, dev.dataBuf⟩ hpre
  obtain ⟨before, hbefore, hwalk, -⟩ := walk_middle (b := b) (i := i) (d := d) F
    (dev.usrMosiDbitlen + 1) dev.usrMisoDbitlen ⟨false, junk, dev.dataBuf⟩ pre post
  rw [hbefore] at hinput hdata
  obtain ⟨hfound, buf, hbuf⟩ :=
    visit_drives F (dev.usrMosiDbitlen + 1) dev.usrMisoDbitlen before hdrives hinput
  obtain ⟨hinput', hdata'⟩ := walk_quiet F (dev.usrMosiDbitlen + 1) dev.usrMisoDbitlen
    (visit b i F (dev.usrMosiDbitlen + 1) dev.usrMisoDbitlen before d).1 hpost
  refine ⟨buf, ?_⟩
  rw [(transfer_fields junk dev _).2, hwalk, if_pos (hinput'.trans hfound), hdata', hbuf, hdata]

@[simp] theorem length_lent (bits : ℕ) (dataBuf : Buffer) (d : Device σ) :
    (lent b i bits dataBuf d).length = min (byteCount bits) 64 := by
  unfold lent
  split <;> exact length_firstBytes _ _

theorem transfer_single {pre post : List (Device σ)} {d : Device σ} (hdrives : d.Drives b i)
    (hpre : ∀ e ∈ pre, ¬ e.Drives b i) (hpost : ∀ e ∈ post, ¬ e.Drives b i)
    (hsame : byteCount dev.usrMisoDbitlen = byteCount (dev.usrMosiDbitlen + 1)) :
    firstBytes (transfer b i F junk dev (pre ++ d :: post)).1.dataBuf
        (byteCount (dev.usrMosiDbitlen + 1)) =
      (F.transfer d.state (lent b i (dev.usrMosiDbitlen + 1) dev.dataBuf d)
        (dev.usrMosiDbitlen + 1)).1 := by
  obtain ⟨buf, hbuf⟩ := transfer_driven F junk dev hdrives hpre hpost
  rw [hbuf, hsame, firstBytes_memcpy, firstBytes_overwrite]
  rw [F.length_eq, length_lent]

theorem transfer_none {j : Fin 64} (h : ∀ d ∈ ds, ¬ d.Drives b i)
    (hj : j.val < byteCount dev.usrMisoDbitlen) :
    (transfer b i F junk dev ds).1.dataBuf j = level b (b.pinForSignal i.misoSignal) := by
  obtain ⟨hinput, -⟩ := walk_quiet F (dev.usrMosiDbitlen + 1) dev.usrMisoDbitlen
    ⟨false, junk, dev.dataBuf⟩ h
  rw [(transfer_fields junk dev ds).2, hinput, if_neg Bool.false_ne_true]
  exact if_pos hj

theorem transfer_several {pre mid post : List (Device σ)} {d e : Device σ} {j : Fin 64}
    (hd : d.Drives b i) (he : e.Drives b i) (hj : j.val < byteCount dev.usrMisoDbitlen) :
    (transfer b i F junk dev (pre ++ d :: mid ++ e :: post)).1.dataBuf j = 0xFF := by
  obtain ⟨before, hbefore, hwalk, -⟩ := walk_middle (b := b) (i := i) (d := e) F
    (dev.usrMosiDbitlen + 1) dev.usrMisoDbitlen ⟨false, junk, dev.dataBuf⟩ (pre ++ d :: mid) post
  obtain ⟨first, -, hfirst, -⟩ := walk_middle (b := b) (i := i) (d := d) F
    (dev.usrMosiDbitlen + 1) dev.usrMisoDbitlen ⟨false, junk, dev.dataBuf⟩ pre mid
  have hdriven : (visit b i F (dev.usrMosiDbitlen + 1) dev.usrMisoDbitlen first d).1.inputDev =
      true := by
    obtain ⟨-, hinput, -⟩ :=
      visit_clocked F (dev.usrMosiDbitlen + 1) dev.usrMisoDbitlen first hd.1 rfl rfl
    rw [hinput, decide_eq_true hd, Bool.or_true]
  have hinput : before.inputDev = true := by
    rw [← hbefore, hfirst]
    exact walk_inputDev F _ _ _ hdriven
  have hconflict : Conflict dev.usrMisoDbitlen (walk b i F (dev.usrMosiDbitlen + 1)
      dev.usrMisoDbitlen
      (visit b i F (dev.usrMosiDbitlen + 1) dev.usrMisoDbitlen before e).1 post).1 :=
    walk_conflict F (dev.usrMosiDbitlen + 1) _ _
      (visit_conflict F (dev.usrMosiDbitlen + 1) dev.usrMisoDbitlen before hinput (Or.inl he))
  rw [(transfer_fields junk dev _).2, hwalk, if_pos hconflict.inputDev]
  exact hconflict.dataBuf j hj

theorem transfer_rest {j : Fin 64} (hj : ¬ j.val < byteCount dev.usrMisoDbitlen) :
    (transfer b i F junk dev ds).1.dataBuf j = dev.dataBuf j := by
  have hwalk : (walk b i F (dev.usrMosiDbitlen + 1) dev.usrMisoDbitlen
      ⟨false, junk, dev.dataBuf⟩ ds).1.dataBuf j = dev.dataBuf j :=
    walk_rest F (dev.usrMosiDbitlen + 1) dev.usrMisoDbitlen ⟨false, junk, dev.dataBuf⟩ hj
  rw [(transfer_fields junk dev ds).2]
  split
  · exact hwalk
  · rw [memset, if_neg hj]
    exact hwalk

end Wired

/-- Of a transfer of at most 512 bits: a device on the clock and MOSI lines with no driver of MISO
before it receives all the bits that were in the buffer; and where as many come in as go out (but
where one bit is more than whole bytes) the buffer ends up with the reply of the one driver, with
ones where there are several, and with the level of the pin where there is none. -/
theorem transfer_wired {σ : Type} (b : Board) (i : Interface) (F : Behaviour σ) (junk : Buffer)
    (dev : SpiDev) (bits : ℕ) (hmosi : dev.usrMosiDbitlen + 1 = bits) (hbits : bits ≤ 512) :
    (firstBytes dev.dataBuf (byteCount bits)).length = byteCount bits ∧
    (∀ (pre post : List (Device σ)) (d : Device σ), d.Listens b i →
      (∀ e ∈ pre, ¬ e.Drives b i) →
      (transfer b i F junk dev (pre ++ d :: post)).2.1[pre.length]? = some { d with
        state := (F.transfer d.state (firstBytes dev.dataBuf (byteCount bits)) bits).2 }) ∧
    (dev.usrMisoDbitlen + 1 = bits → bits % 8 ≠ 1 →
      (∀ (pre post : List (Device σ)) (d : Device σ), d.Drives b i →
        (∀ e ∈ pre, ¬ e.Drives b i) → (∀ e ∈ post, ¬ e.Drives b i) →
        firstBytes (transfer b i F junk dev (pre ++ d :: post)).1.dataBuf (byteCount bits) =
          (F.transfer d.state (lent b i bits dev.dataBuf d) bits).1) ∧
      (∀ (pre mid post : List (Device σ)) (d e : Device σ), d.Drives b i → e.Drives b i →
        ∀ j : Fin 64, j.val < byteCount bits →
          (transfer b i F junk dev (pre ++ d :: mid ++ e :: post)).1.dataBuf j = 0xFF) ∧
      ∀ ds : List (Device σ), (∀ d ∈ ds, ¬ d.Drives b i) →
        ∀ j : Fin 64, j.val < byteCount bits →
          (transfer b i F junk dev ds).1.dataBuf j = level b (b.pinForSignal i.misoSignal)) ∧
    ∀ (ds : List (Device σ)) (j : Fin 64), byteCount dev.usrMisoDbitlen ≤ j.val →
      (transfer b i F junk dev ds).1.dataBuf j = dev.dataBuf j := by
  subst hmosi
  refine ⟨?_, fun pre post d hlistens hpre => transfer_listens hlistens hpre, ?_, ?_⟩
  · rw [length_firstBytes]
    unfold byteCount
    omega
  · intro hmiso hwhole
    have hlength : dev.usrMisoDbitlen = dev.usrMosiDbitlen := by omega
    have hsame : byteCount dev.usrMisoDbitlen = byteCount (dev.usrMosiDbitlen + 1) := by
      rw [hlength]
      exact byteCount_pred (Nat.succ_pos _) hwhole
    refine ⟨?_, ?_, ?_⟩
    · intro pre post d hdrives hpre hpost
      exact transfer_single hdrives hpre hpost hsame
    · intro pre mid post d e hd he j hj
      exact transfer_several hd he (hsame ▸ hj)
    · intro ds hnone j hj
      exact transfer_none hnone (hsame ▸ hj)
  · intro ds j hj
    exact transfer_rest (by omega)

/-- Pin 18 is the clock, pin 19 MISO and pin 23 MOSI; all pins are low. -/
def smallBoard : Board where
  signalForPin := fun pin => if pin = 18 then 1 else if pin = 23 then 2 else 0
  pinForSignal := fun _ => 19
  isDigitalHigh := fun _ => false

def smallInterface : Interface := ⟨1, 3, 2⟩

/-- A device that keeps what it receives and replies with one byte over and over. -/
def recorder : Behaviour (List Byte) where
  transfer := fun _ bytes _ => (bytes.map fun _ => 0x3C, bytes)
  length_eq := by simp

def speaker : Device (List Byte) := ⟨18, 19, 23, true, []⟩

def listener : Device (List Byte) := ⟨18, 20, 23, true, []⟩

def outgoing (bits : ℕ) : SpiDev := ⟨fun j => if j.val = 0 then 0xA5 else 0x5A, bits - 1, bits - 1⟩

def run (ds : List (Device (List Byte))) (bits : ℕ) : SpiDev × List (Device (List Byte)) × ℕ :=
  transfer smallBoard smallInterface recorder (fun _ => 0) (outgoing bits) ds

theorem transfer_wired_small :
    firstBytes (run [listener, speaker] 8).1.dataBuf 1 = [0x3C] ∧
    ((run [listener, speaker] 8).2.1[0]?).map Device.state = some [0xA5] := by
  obtain ⟨-, hreceived, hreply, -⟩ := transfer_wired smallBoard smallInterface recorder
    (fun _ => 0) (outgoing 8) 8 rfl (by decide)
  constructor
  · have hdriver : speaker.Drives smallBoard smallInterface := by decide
    have hother : ∀ e ∈ [listener], ¬ e.Drives smallBoard smallInterface := by decide
    have hwhole := hreply rfl (by decide)
    exact (hwhole.1 [listener] [] speaker hdriver hother (by simp)).trans rfl
  · have hline : listener.Listens smallBoard smallInterface := ⟨by decide, rfl⟩
    have hdevice := hreceived [] [speaker] listener hline (by simp)
    rw [List.length_nil, List.nil_append] at hdevice
    unfold run
    rw [hdevice]
    rfl

/-- Without a driver the buffer takes the low level of MISO; behind a driver a device receives the
driver's reply; and of nine bits the last one is not stored. -/
theorem shared_buffer :
    firstBytes (run [] 8).1.dataBuf 1 = [0x00] ∧
    ((run [speaker, listener] 8).2.1[1]?).map Device.state = some [0x3C] ∧
    firstBytes (run [speaker] 9).1.dataBuf 2 = [0x3C, 0x5A] := by decide +kernel

end RooTesting.Esp32Spi
