import RooTesting.DisplayPanels

/-! # The operand buffers of the display controllers

A transfer is read as the items it hands to `handleCmd` and `handleData`. The items alone decide
whether a store is within the operand buffer. -/
namespace RooTesting.Displays

/-- The items of a word transfer without a half word, and the half word it leaves. -/
def wordItems (command : Bool) : List Byte → List Item × Option Byte
  | hi :: lo :: rest =>
    (item command (word hi lo) :: (wordItems command rest).1, (wordItems command rest).2)
  | [b] => ([], some b)
  | [] => ([], none)

def completedItems (command : Bool) (half : Byte) : List Byte → List Item × Option Byte
  | b :: rest => (completed command half b :: (wordItems command rest).1, (wordItems command rest).2)
  | [] => ([], some half)

def byteItems (command : Bool) (bytes : List Byte) : List Item :=
  bytes.map fun b => item command (b.setWidth 16)

/-- The items of a transfer, and the half word it leaves. -/
def Transfer.items (p : Panel) (half : Option Byte) (t : Transfer) : List Item × Option Byte :=
  if t.resetLow then ([], half)
  else if p.words then
    match half with
    | none => wordItems t.command t.bytes
    | some b => completedItems t.command b t.bytes
  else (byteItems t.command t.bytes, half)

def itemsOf (p : Panel) : Option Byte → List Transfer → List Item × Option Byte
  | half, [] => ([], half)
  | half, t :: ts =>
    ((t.items p half).1 ++ (itemsOf p (t.items p half).2 ts).1, (itemsOf p (t.items p half).2 ts).2)

def State.withHalf (half : Option Byte) (s : State) : State := { s with halfWord := half }

def handleAll (p : Panel) (s : State) (items : List Item) : Except Error State :=
  items.foldlM (State.handle p) s

/-- The commands whose operands stay in the buffer. -/
def keeps (cmd : Word) : Bool := cmd = 0x2A ∨ cmd = 0x2B ∨ cmd = 0x36 ∨ cmd = 0x3A

/-- At most sixteen units of data follow each of these commands; `n` have followed the last one. -/
def Kept : Word → ℕ → List Item → Prop
  | _, _, [] => True
  | _, _, .command cmd :: rest => Kept cmd 0 rest
  | last, n, .data _ :: rest => (keeps last = true → n < 16) ∧ Kept last (n + 1) rest

@[simp] theorem handleAll_nil (p : Panel) (s : State) : handleAll p s [] = .ok s := rfl

theorem handleAll_cons (p : Panel) (s : State) (i : Item) (items : List Item) :
    handleAll p s (i :: items) = (s.handle p i).bind fun s => handleAll p s items := rfl

theorem handleAll_append (p : Panel) (s : State) (items rest : List Item) :
    handleAll p s (items ++ rest) = (handleAll p s items).bind fun s => handleAll p s rest := by
  induction items generalizing s with
  | nil => rfl
  | cons i items ih =>
    rw [List.cons_append, handleAll_cons, handleAll_cons]
    cases s.handle p i with
    | error e => rfl
    | ok t => exact ih t

theorem byteLoop_eq (p : Panel) (command : Bool) (s : State) (bytes : List Byte) :
    byteLoop p command s (8 * bytes.length) bytes = handleAll p s (byteItems command bytes) := by
  induction bytes generalizing s with
  | nil => rfl
  | cons b bytes ih =>
    rw [List.length_cons, Nat.mul_succ, byteLoop]
    exact congrArg _ (funext ih)

/-- `reset` has nothing to do on a device that counts as reset, which it always does. -/
theorem reset_of_isReset (p : Panel) {s : State} (hr : s.isReset = true) : s.reset p = s :=
  if_pos hr

/-- What `handleCmd` does to a device that counts as reset. -/
theorem handleCmd_eq (p : Panel) {s : State} (hr : s.isReset = true) (cmd : Word) :
    s.handleCmd p cmd =
      let s := { s with cmdDone := false, bufSize := 0, lastCommand := cmd }
      if cmd = 0x01 then { s with cmdDone := true }
      else if cmd = 0x20 ∨ p.invon ∧ cmd = 0x21 then { s with isInverted := false, cmdDone := true }
      else if cmd = 0x2A ∨ cmd = 0x2B ∨ cmd = 0x36 ∨ cmd = 0x3A then s
      else if cmd = 0x2C then { s with xCursor := s.x0, yCursor := s.y0, cmdDone := true }
      else { s with cmdDone := true } := by
  have hreset := reset_of_isReset p
    (s := { s with cmdDone := false, bufSize := 0, lastCommand := cmd }) hr
  rw [State.handleCmd, hreset]

theorem handleCmd_withHalf (p : Panel) {s : State} (hr : s.isReset = true) (half : Option Byte)
    (cmd : Word) : (s.withHalf half).handleCmd p cmd = (s.handleCmd p cmd).withHalf half := by
  rw [handleCmd_eq p hr, handleCmd_eq p (s := s.withHalf half) hr]
  simp only [apply_ite (State.withHalf half)]
  rfl

theorem writeColor_withHalf (p : Panel) (s : State) (half : Option Byte) :
    (s.withHalf half).writeColor p = (s.writeColor p).withHalf half := by
  simp only [State.writeColor, apply_ite (State.withHalf half)]
  rfl

theorem handleData_withHalf (p : Panel) (s : State) (half : Option Byte) :
    (s.withHalf half).handleData p = (s.handleData p).withHalf half := by
  simp only [State.handleData, writeColor_withHalf, apply_ite (State.withHalf half)]
  rfl

theorem store_withHalf (s : State) (half : Option Byte) (unit : Word) :
    (s.withHalf half).store unit = (s.store unit).map (State.withHalf half) := by
  by_cases h : s.bufSize < 16
  · rw [State.store, State.store, dif_pos h, dif_pos (show (s.withHalf half).bufSize < 16 from h)]
    rfl
  · rw [State.store, State.store, dif_neg h, dif_neg (show ¬(s.withHalf half).bufSize < 16 from h)]
    rfl

theorem handle_withHalf (p : Panel) {s : State} (hr : s.isReset = true) (half : Option Byte)
    (i : Item) : (s.withHalf half).handle p i = (s.handle p i).map (State.withHalf half) := by
  cases i with
  | command cmd => exact congrArg _ (handleCmd_withHalf p hr half cmd)
  | data unit =>
    rw [State.handle, store_withHalf, State.handle]
    cases s.store unit with
    | error e => rfl
    | ok t => exact congrArg _ (handleData_withHalf p t half)

theorem handleCmd_isReset (p : Panel) {s : State} (hr : s.isReset = true) (cmd : Word) :
    (s.handleCmd p cmd).isReset = true := by
  rw [handleCmd_eq p hr]
  simp only [apply_ite State.isReset, ite_self]
  exact hr

theorem handleData_isReset (p : Panel) (s : State) : (s.handleData p).isReset = s.isReset := by
  simp only [State.handleData, State.writeColor, apply_ite State.isReset, ite_self]

theorem handle_isReset {p : Panel} {s s' : State} {i : Item} (hr : s.isReset = true)
    (h : s.handle p i = .ok s') : s'.isReset = true := by
  cases i with
  | command cmd =>
    cases h
    exact handleCmd_isReset p hr cmd
  | data unit =>
    simp only [State.handle, State.store] at h
    split at h
    · cases h
      exact (handleData_isReset p _).trans hr
    · cases h

theorem handleAll_isReset {p : Panel} {s s' : State} {items : List Item} (hr : s.isReset = true)
    (h : handleAll p s items = .ok s') : s'.isReset = true := by
  induction items generalizing s with
  | nil =>
    cases h
    exact hr
  | cons i items ih =>
    rw [handleAll_cons] at h
    cases hi : s.handle p i with
    | error e =>
      rw [hi] at h
      cases h
    | ok t =>
      rw [hi] at h
      exact ih (handle_isReset hr hi) h

theorem handleAll_withHalf (p : Panel) {s : State} (hr : s.isReset = true) (half : Option Byte)
    (items : List Item) :
    handleAll p (s.withHalf half) items = (handleAll p s items).map (State.withHalf half) := by
  induction items generalizing s with
  | nil => rfl
  | cons i items ih =>
    rw [handleAll_cons, handleAll_cons, handle_withHalf p hr]
    cases hi : s.handle p i with
    | error e => rfl
    | ok t => exact ih (handle_isReset hr hi)

theorem withHalf_self (s : State) : s.withHalf s.halfWord = s := rfl

@[simp] theorem withHalf_halfWord (s : State) (half : Option Byte) :
    (s.withHalf half).halfWord = half := rfl

@[simp] theorem withHalf_withHalf (s : State) (half half' : Option Byte) :
    (s.withHalf half).withHalf half' = s.withHalf half' := rfl

theorem handleAll_halfWord {p : Panel} {s s' : State} {items : List Item} (hr : s.isReset = true)
    (h : handleAll p s items = .ok s') : s'.halfWord = s.halfWord := by
  have heq := handleAll_withHalf p hr s.halfWord items
  rw [withHalf_self, h] at heq
  have hself : s' = s'.withHalf s.halfWord := Except.ok.inj heq
  rw [hself]
  rfl

theorem handle_halfWord {p : Panel} {s s' : State} {i : Item} (hr : s.isReset = true)
    (h : s.handle p i = .ok s') : s'.halfWord = s.halfWord := by
  have hall : handleAll p s [i] = .ok s' := by
    rw [handleAll_cons, h]
    rfl
  exact handleAll_halfWord hr hall

theorem wordLoop_eq (p : Panel) (command : Bool) {s : State} (bytes : List Byte)
    (hr : s.isReset = true) (hs : s.halfWord = none) :
    wordLoop p command s (8 * bytes.length) bytes =
      (handleAll p s (wordItems command bytes).1).map
        (State.withHalf (wordItems command bytes).2) := by
  induction bytes using wordItems.induct generalizing s with
  | case1 hi lo rest ih =>
    rw [List.length_cons, List.length_cons, wordItems, handleAll_cons,
      show 8 * (rest.length + 1 + 1) = 8 * rest.length + 16 by omega, wordLoop]
    cases hi' : s.handle p (item command (word hi lo)) with
    | error e => rfl
    | ok t => exact ih (handle_isReset hr hi') ((handle_halfWord hr hi').trans hs)
  | case2 b => rfl
  | case3 =>
    rw [wordItems]
    change Except.ok s = Except.ok (s.withHalf none)
    rw [← hs, withHalf_self]

/-- A transfer handles its items and leaves its half word. -/
theorem send_eq (p : Panel) {s : State} (hr : s.isReset = true) (t : Transfer) :
    t.send p s =
      (handleAll p s (t.items p s.halfWord).1).map (State.withHalf (t.items p s.halfWord).2) := by
  unfold Transfer.send transfer Transfer.items
  by_cases hreset : t.resetLow = true
  · rw [if_pos hreset, if_pos hreset, reset_of_isReset p hr]
    rfl
  · rw [if_neg hreset, if_neg hreset]
    by_cases hwords : p.words = true
    · rw [if_pos hwords, if_pos hwords]
      unfold transferWords
      cases hhalf : s.halfWord with
      | none => exact wordLoop_eq p t.command t.bytes hr hhalf
      | some half =>
        cases hbytes : t.bytes with
        | nil => exact absurd hbytes t.nonempty
        | cons b rest =>
          have hlen : 8 * (b :: rest).length = 8 * rest.length + 8 := by
            rw [List.length_cons, Nat.mul_succ]
          dsimp only
          rw [if_neg (by omega), hlen, Nat.add_sub_cancel, completedItems, handleAll_cons,
            show { s with halfWord := none } = s.withHalf none from rfl, handle_withHalf p hr]
          cases hi : s.handle p (completed t.command half b) with
          | error e => rfl
          | ok u =>
            have hu := handle_isReset hr hi
            change wordLoop p t.command (u.withHalf none) _ rest = _
            rw [wordLoop_eq p t.command (s := u.withHalf none) rest hu rfl, handleAll_withHalf p hu]
            change _ = Except.map _ (handleAll p u _)
            cases handleAll p u (wordItems t.command rest).1 with
            | error e => rfl
            | ok z => rfl
    · rw [if_neg hwords, if_neg hwords, byteLoop_eq]
      cases h : handleAll p s (byteItems t.command t.bytes) with
      | error e => rfl
      | ok z =>
        have hz := handleAll_halfWord hr h
        change _ = Except.ok (z.withHalf s.halfWord)
        rw [← hz, withHalf_self]

theorem sendAll_cons (p : Panel) (s : State) (t : Transfer) (ts : List Transfer) :
    sendAll p s (t :: ts) = (t.send p s).bind fun s => sendAll p s ts := rfl

/-- A sequence of transfers handles its items and leaves its half word. -/
theorem sendAll_eq (p : Panel) {s : State} (hr : s.isReset = true) (ts : List Transfer) :
    sendAll p s ts =
      (handleAll p s (itemsOf p s.halfWord ts).1).map
        (State.withHalf (itemsOf p s.halfWord ts).2) := by
  induction ts generalizing s with
  | nil => rfl
  | cons t ts ih =>
    rw [sendAll_cons, send_eq p hr, itemsOf, handleAll_append]
    cases h : handleAll p s (t.items p s.halfWord).1 with
    | error e => rfl
    | ok u =>
      have hu := handleAll_isReset hr h
      change sendAll p (u.withHalf _) ts = Except.map _ (handleAll p u _)
      rw [ih (s := u.withHalf (t.items p s.halfWord).2) hu, handleAll_withHalf p hu,
        withHalf_halfWord]
      cases handleAll p u (itemsOf p (t.items p s.halfWord).2 ts).1 with
      | error e => rfl
      | ok z => rfl

theorem handleCmd_lastCommand (p : Panel) {s : State} (hr : s.isReset = true) (cmd : Word) :
    (s.handleCmd p cmd).lastCommand = cmd := by
  rw [handleCmd_eq p hr]
  simp only [apply_ite State.lastCommand, ite_self]

theorem handleCmd_bufSize (p : Panel) {s : State} (hr : s.isReset = true) (cmd : Word) :
    (s.handleCmd p cmd).bufSize = 0 := by
  rw [handleCmd_eq p hr]
  simp only [apply_ite State.bufSize, ite_self]

theorem handleData_lastCommand (p : Panel) (s : State) :
    (s.handleData p).lastCommand = s.lastCommand := by
  simp only [State.handleData, State.writeColor, apply_ite State.lastCommand, ite_self]

/-- The operands of four commands stay in the buffer. A pixel leaves it once it is complete, and
whatever follows another command at once. -/
theorem handleData_bufSize (p : Panel) (s : State) :
    (s.handleData p).bufSize =
      if keeps s.lastCommand then s.bufSize
      else if s.lastCommand = 0x2C ∧ s.bufSize < p.pixelUnits then s.bufSize else 0 := by
  simp only [State.handleData, State.writeColor, apply_ite State.bufSize, keeps, decide_eq_true_eq]
  grind

/-- The operand buffer after `n` units of data since the command `last`. -/
structure Fits (p : Panel) (s : State) (last : Word) (n : ℕ) : Prop where
  isReset : s.isReset = true
  latest : s.lastCommand = last
  kept : keeps last = true → s.bufSize = n
  dropped : keeps last = false → s.bufSize < p.pixelUnits

theorem Fits.command {p : Panel} {s : State} {last : Word} {n : ℕ} (h : Fits p s last n)
    (cmd : Word) : Fits p (s.handleCmd p cmd) cmd 0 := by
  have hsize := handleCmd_bufSize p h.isReset cmd
  constructor
  · exact handleCmd_isReset p h.isReset cmd
  · exact handleCmd_lastCommand p h.isReset cmd
  · intro _
    exact hsize
  · intro _
    rw [hsize]
    exact p.pixelUnits_pos

theorem store_ok {s t : State} {unit : Word} (h : s.store unit = .ok t) :
    t.lastCommand = s.lastCommand ∧ t.bufSize = s.bufSize + 1 := by
  unfold State.store at h
  split at h
  · cases h
    exact ⟨rfl, rfl⟩
  · cases h

theorem handle_data_ok {p : Panel} {s s' : State} {unit : Word}
    (h : s.handle p (.data unit) = .ok s') : ∃ t, s.store unit = .ok t ∧ s' = t.handleData p := by
  rw [State.handle] at h
  cases ht : s.store unit with
  | error e =>
    rw [ht] at h
    cases h
  | ok t =>
    rw [ht] at h
    exact ⟨t, rfl, (Except.ok.inj h).symm⟩

theorem Fits.data {p : Panel} {s s' : State} {last unit : Word} {n : ℕ} (h : Fits p s last n)
    (hs : s.handle p (.data unit) = .ok s') : Fits p s' last (n + 1) := by
  have hr := handle_isReset h.isReset hs
  obtain ⟨t, ht, rfl⟩ := handle_data_ok hs
  obtain ⟨hlast, hfilled⟩ := store_ok ht
  have hsize := handleData_bufSize p t
  rw [hlast, h.latest] at hsize
  constructor
  · exact hr
  · exact (handleData_lastCommand p t).trans (hlast.trans h.latest)
  · intro hkeeps
    rw [hkeeps, if_pos rfl, hfilled, h.kept hkeeps] at hsize
    exact hsize
  · intro hkeeps
    rw [hkeeps, if_neg Bool.false_ne_true] at hsize
    rw [hsize]
    split
    · rename_i hlt
      exact hlt.2
    · exact p.pixelUnits_pos

/-- A unit of data is stored when the buffer has room for it. -/
theorem Fits.store {p : Panel} {s : State} {last : Word} {n : ℕ} (h : Fits p s last n)
    (unit : Word) :
    (∃ s', s.handle p (.data unit) = .ok s') ↔ (keeps last = true → n < 16) := by
  have hroom : s.bufSize < 16 ↔ (keeps last = true → n < 16) := by
    cases hkeeps : keeps last with
    | true => simp [h.kept hkeeps]
    | false =>
      have := h.dropped hkeeps
      have := p.pixelUnits_le
      simp only [Bool.false_eq_true, false_implies, iff_true]
      omega
  rw [← hroom]
  constructor
  · rintro ⟨s', hs⟩
    by_contra hno
    rw [State.handle, State.store, dif_neg hno] at hs
    cases hs
  · intro hlt
    rw [State.handle, State.store, dif_pos hlt]
    exact ⟨_, rfl⟩

theorem handleAll_ok_iff {p : Panel} {s : State} {last : Word} {n : ℕ} {items : List Item}
    (h : Fits p s last n) : (∃ s', handleAll p s items = .ok s') ↔ Kept last n items := by
  induction items generalizing s last n with
  | nil => exact iff_of_true ⟨s, rfl⟩ trivial
  | cons i items ih =>
    cases i with
    | command cmd => exact ih (h.command cmd)
    | data unit =>
      rw [Kept, ← h.store unit, handleAll_cons]
      cases hs : s.handle p (.data unit) with
      | error e => simp [Except.bind]
      | ok t => simpa [Except.bind] using ih (h.data hs)

/-- A store past the operand buffer is all that can go wrong. -/
theorem handleAll_error {p : Panel} {s : State} {items : List Item} {e : Error}
    (h : handleAll p s items = .error e) : e = .pastOperands := by
  induction items generalizing s with
  | nil => cases h
  | cons i items ih =>
    rw [handleAll_cons] at h
    cases hi : s.handle p i with
    | ok t =>
      rw [hi] at h
      exact ih h
    | error e' =>
      rw [hi] at h
      cases h
      cases i with
      | command cmd => cases hi
      | data unit =>
        simp only [State.handle, State.store] at hi
        split at hi
        · cases hi
        · cases hi
          rfl

theorem Constructed.fits {p : Panel} {s : State} (h : Constructed s) :
    Fits p s s.lastCommand 0 :=
  ⟨h.isReset, rfl, fun _ => h.bufSize, fun _ => h.bufSize ▸ p.pixelUnits_pos⟩

/-- Every store of every transfer is within the operand buffer, exactly when at most sixteen units
of data follow each CASET, PASET, MADCTL and PIXSET command, whatever resets come in between. -/
theorem operands_within (c : Controller) {s : State} (hs : Constructed s) (ts : List Transfer) :
    sendAll c.panel s ts ≠ .error .pastOperands ↔
      Kept s.lastCommand 0 (itemsOf c.panel none ts).1 := by
  rw [← handleAll_ok_iff (p := c.panel) hs.fits, sendAll_eq c.panel hs.isReset, hs.halfWord]
  cases h : handleAll c.panel s (itemsOf c.panel none ts).1 with
  | ok z => simp [Except.map]
  | error e =>
    rw [handleAll_error h]
    simp [Except.map]

def constructed : State where
  lastCommand := 0
  madCtl := 0
  x0 := 0
  y0 := 0
  x1 := 0
  y1 := 0
  xCursor := 0
  yCursor := 0
  isReset := true
  isInverted := false
  cmdDone := true
  buf := fun _ => 0
  bufSize := 0
  halfWord := none
  writes := []

def send (command : Bool) (b : Byte) (rest : List Byte) : Transfer :=
  ⟨false, command, b :: rest, List.cons_ne_nil b rest⟩

theorem operands_within_madctl :
    sendAll Controller.ili9341.panel constructed [send true 0x36 [], send false 0 []] ≠
      .error .pastOperands := by
  rw [operands_within .ili9341 ⟨rfl, rfl, rfl, rfl, rfl⟩]
  simp [itemsOf, Transfer.items, send, Controller.panel, fakeIli9341Spi, byteItems, item, Kept]

/-- Seventeen bytes after MADCTL. -/
theorem madctl_overflows :
    ¬∀ (c : Controller) (s : State), Constructed s → ∀ ts,
      sendAll c.panel s ts ≠ .error .pastOperands := by
  intro h
  have hall := h .ili9341 constructed ⟨rfl, rfl, rfl, rfl, rfl⟩
    [send true 0x36 [], send false 0 (List.replicate 16 0)]
  apply hall
  rfl

end RooTesting.Displays
