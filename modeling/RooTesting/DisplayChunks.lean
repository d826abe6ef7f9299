import RooTesting.DisplayResets
import Mathlib.Data.List.Infix

/-! # Display streams in chunks

A stream of bytes with their D/C levels is cut into transfers in any way. A controller that parses
byte by byte cannot tell; the ILI9486 takes commands as words, but only the low byte of a word that
two transfers share, and the SSD1327 reads its operands in the transfer of their command. -/
namespace RooTesting.Displays

abbrev Stream := List (Bool × Byte)

/-- Each byte of a sequence of transfers with its level of D/C. -/
def streamOf (ts : List Transfer) : Stream :=
  ts.flatMap fun t => t.bytes.map fun b => (t.command, b)

/-- The transfers cut the stream, with RST high. -/
def Cuts (stream : Stream) (ts : List Transfer) : Prop :=
  streamOf ts = stream ∧ ∀ t ∈ ts, t.resetLow = false

/-- Every way to cut the stream has the same outcome, and none reads past a transfer. -/
def Independent (p : Panel) (s : State) (stream : Stream) : Prop :=
  ∀ ts ts', Cuts stream ts → Cuts stream ts' →
    sendAll p s ts = sendAll p s ts' ∧ sendAll p s ts ≠ .error .pastEnd

def Reached (p : Panel) (s : State) : Prop :=
  ∃ g ts, Constructed g ∧ sendAll p g ts = .ok s

/-- The items of a stream that comes byte by byte, and the half word it leaves. -/
def feedItems : Option Byte → Stream → List Item × Option Byte
  | half, [] => ([], half)
  | none, (_, b) :: rest => feedItems (some b) rest
  | some half, (command, b) :: rest =>
    (completed command half b :: (feedItems none rest).1, (feedItems none rest).2)

/-- The high byte of each command word is zero, as far as the operand buffer is not overrun. -/
def PlainCommands (s : State) (stream : Stream) : Prop :=
  ∀ pre hi lo, pre ++ [(true, hi), (true, lo)] <+: stream →
    (feedItems s.halfWord pre).2 = none →
    Kept s.lastCommand s.bufSize (feedItems s.halfWord pre).1 → hi = 0

/-- The first command word whose high byte is not zero. -/
def Differs (half : Option Byte) (stream : Stream) (items : List Item) : Prop :=
  ∃ pre hi lo, pre ++ [(true, hi), (true, lo)] <+: stream ∧ (feedItems half pre).2 = none ∧
    hi ≠ 0 ∧ (feedItems half pre).1 <+: items

theorem feedItems_append (half : Option Byte) (pre rest : Stream) :
    feedItems half (pre ++ rest) =
      ((feedItems half pre).1 ++ (feedItems (feedItems half pre).2 rest).1,
        (feedItems (feedItems half pre).2 rest).2) := by
  induction pre generalizing half with
  | nil => cases half <;> rfl
  | cons x pre ih =>
    obtain ⟨command, b⟩ := x
    cases half with
    | none => exact ih (some b)
    | some half =>
      change (completed command half b :: (feedItems none (pre ++ rest)).1,
        (feedItems none (pre ++ rest)).2) = _
      rw [ih none]
      rfl

/-- A command that is less than a byte has no high byte to lose. -/
theorem item_word {command : Bool} {hi : Byte} (lo : Byte) (h : command = true → hi = 0) :
    item command (word hi lo) = completed command hi lo := by
  cases command with
  | false => rfl
  | true =>
    obtain rfl := h rfl
    refine congrArg Item.command ?_
    rw [word_zero]
    apply BitVec.eq_of_toNat_eq
    have hlt := lo.isLt
    rw [BitVec.toNat_and]
    change _ = _ &&& (2 ^ 8 - 1)
    rw [Nat.and_two_pow_sub_one_eq_mod]
    simp
    omega

theorem Differs.cons_pair {stream : Stream} {items : List Item} {command command' : Bool}
    {hi lo : Byte} (h : Differs none stream items) :
    Differs none ((command, hi) :: (command', lo) :: stream) (completed command' hi lo :: items) := by
  obtain ⟨pre, hi', lo', hpre, hnone, hne, hitems⟩ := h
  refine ⟨(command, hi) :: (command', lo) :: pre, hi', lo', ?_, hnone, hne, ?_⟩
  · exact List.prefix_cons_inj _ |>.mpr (List.prefix_cons_inj _ |>.mpr hpre)
  · exact List.prefix_cons_inj _ |>.mpr hitems

theorem wordItems_feed (command : Bool) (bytes : List Byte) :
    wordItems command bytes = feedItems none (bytes.map fun b => (command, b)) ∨
      Differs none (bytes.map fun b => (command, b)) (wordItems command bytes).1 := by
  induction bytes using wordItems.induct with
  | case1 hi lo rest ih =>
    by_cases hplain : command = true → hi = 0
    · rw [wordItems, item_word lo hplain]
      rcases ih with heq | hdiff
      · left
        rw [heq]
        rfl
      · exact Or.inr hdiff.cons_pair
    · right
      obtain ⟨rfl, hne⟩ := Classical.not_imp.mp hplain
      refine ⟨[], hi, lo, ?_, rfl, hne, List.nil_prefix⟩
      exact List.prefix_append _ _
  | case2 b => exact Or.inl rfl
  | case3 => exact Or.inl rfl

theorem Differs.append {half : Option Byte} {stream rest : Stream} {items rest' : List Item}
    (h : Differs half stream items) : Differs half (stream ++ rest) (items ++ rest') := by
  obtain ⟨pre, hi, lo, hpre, hnone, hne, hitems⟩ := h
  exact ⟨pre, hi, lo, hpre.trans (List.prefix_append _ _), hnone, hne,
    hitems.trans (List.prefix_append _ _)⟩

theorem Differs.prepend {half : Option Byte} {first stream : Stream} {items : List Item}
    (h : Differs (feedItems half first).2 stream items) :
    Differs half (first ++ stream) ((feedItems half first).1 ++ items) := by
  obtain ⟨pre, hi, lo, hpre, hnone, hne, hitems⟩ := h
  refine ⟨first ++ pre, hi, lo, ?_, ?_, hne, ?_⟩
  · rw [List.append_assoc]
    exact (List.prefix_append_right_inj first).mpr hpre
  · rw [feedItems_append]
    exact hnone
  · rw [feedItems_append]
    exact (List.prefix_append_right_inj _).mpr hitems

theorem transfer_feed {p : Panel} (hp : p.words = true) {t : Transfer} (ht : t.resetLow = false)
    (half : Option Byte) :
    t.items p half = feedItems half (t.bytes.map fun b => (t.command, b)) ∨
      Differs half (t.bytes.map fun b => (t.command, b)) (t.items p half).1 := by
  unfold Transfer.items
  rw [ht, hp, if_neg Bool.false_ne_true, if_pos rfl]
  cases half with
  | none => exact wordItems_feed t.command t.bytes
  | some half =>
    cases t.bytes with
    | nil => exact Or.inl rfl
    | cons b rest =>
      refine (wordItems_feed t.command rest).imp (fun heq => ?_) fun hdiff => ?_
      · change (_ :: (wordItems t.command rest).1, (wordItems t.command rest).2) = _
        rw [heq]
        rfl
      · have hfirst : Differs (feedItems (some half) [(t.command, b)]).2
            (rest.map fun b => (t.command, b)) (wordItems t.command rest).1 := hdiff
        exact hfirst.prepend

/-- The transfers hand over the items of the stream, up to the first command word that differs. -/
theorem items_feed {p : Panel} (hp : p.words = true) {ts : List Transfer}
    (hts : ∀ t ∈ ts, t.resetLow = false) (half : Option Byte) :
    itemsOf p half ts = feedItems half (streamOf ts) ∨
      Differs half (streamOf ts) (itemsOf p half ts).1 := by
  induction ts generalizing half with
  | nil => exact Or.inl (by cases half <;> rfl)
  | cons t ts ih =>
    have hrest := fun half => ih (fun u hu => hts u (List.mem_cons_of_mem _ hu)) half
    change itemsOf p half (t :: ts) = feedItems half (_ ++ streamOf ts) ∨ Differs half (_ ++ streamOf ts) _
    rw [itemsOf, feedItems_append]
    rcases transfer_feed hp (hts t List.mem_cons_self) half with heq | hdiff
    · rw [heq]
      refine (hrest _).imp (fun heq' => ?_) fun hdiff' => hdiff'.prepend
      rw [heq']
    · exact Or.inr hdiff.append

/-- The half word and the operand buffer of a device, whatever its traffic. -/
theorem Fits.handleAll {p : Panel} {s s' : State} {last : Word} {n : ℕ} {items : List Item}
    (h : Fits p s last n) (hs : handleAll p s items = .ok s') :
    ∃ last' n', Fits p s' last' n' := by
  induction items generalizing s last n with
  | nil =>
    cases hs
    exact ⟨last, n, h⟩
  | cons i items ih =>
    rw [handleAll_cons] at hs
    cases hi : s.handle p i with
    | error e =>
      rw [hi] at hs
      cases hs
    | ok t =>
      rw [hi] at hs
      cases i with
      | command cmd =>
        cases hi
        exact ih (h.command cmd) hs
      | data unit => exact ih (h.data hi) hs

theorem Reached.fits {p : Panel} {s : State} (h : Reached p s) :
    Fits p s s.lastCommand s.bufSize := by
  obtain ⟨g, ts, hg, hs⟩ := h
  rw [sendAll_eq p hg.isReset] at hs
  cases hall : handleAll p g (itemsOf p g.halfWord ts).1 with
  | error e =>
    rw [hall] at hs
    cases hs
  | ok z =>
    rw [hall] at hs
    cases hs
    obtain ⟨last, n, hfits⟩ := (hg.fits (p := p)).handleAll hall
    refine ⟨hfits.isReset, rfl, fun _ => rfl, fun hkeeps => hfits.dropped ?_⟩
    rw [← hfits.latest]
    exact hkeeps

theorem handleAll_prefix_error {p : Panel} {s : State} {items rest : List Item} {e : Error}
    (h : handleAll p s items = .error e) (hpre : items <+: rest) :
    handleAll p s rest = .error e := by
  obtain ⟨more, rfl⟩ := hpre
  rw [handleAll_append, h]
  rfl

/-- Every cut of a stream of plain commands has the outcome of the stream byte by byte. -/
theorem PlainCommands.sendAll {s : State} {stream : Stream} {ts : List Transfer}
    (h : PlainCommands s stream) (hs : Reached fakeIli9486Spi s) (hts : Cuts stream ts) :
    sendAll fakeIli9486Spi s ts =
      (handleAll fakeIli9486Spi s (feedItems s.halfWord stream).1).map
        (State.withHalf (feedItems s.halfWord stream).2) := by
  have hfits := hs.fits
  obtain ⟨rfl, hhigh⟩ := hts
  rw [sendAll_eq fakeIli9486Spi hfits.isReset]
  rcases items_feed (p := fakeIli9486Spi) rfl hhigh s.halfWord with heq | hdiff
  · rw [heq]
  · obtain ⟨pre, hi, lo, hpre, hnone, hne, hitems⟩ := hdiff
    have hover : ¬Kept s.lastCommand s.bufSize (feedItems s.halfWord pre).1 :=
      fun hkept => hne (h pre hi lo hpre hnone hkept)
    rw [← handleAll_ok_iff hfits] at hover
    have hfeed : (feedItems s.halfWord pre).1 <+: (feedItems s.halfWord (streamOf ts)).1 := by
      obtain ⟨rest, hrest⟩ := (List.prefix_append _ _).trans hpre
      rw [← hrest, feedItems_append]
      exact List.prefix_append _ _
    cases hall : handleAll fakeIli9486Spi s (feedItems s.halfWord pre).1 with
    | ok z => exact absurd ⟨z, hall⟩ hover
    | error e =>
      rw [handleAll_prefix_error hall hitems, handleAll_prefix_error hall hfeed]
      rfl

theorem sendAll_not_pastEnd {p : Panel} {s : State} (hr : s.isReset = true) (ts : List Transfer) :
    sendAll p s ts ≠ .error .pastEnd := by
  rw [sendAll_eq p hr]
  cases hall : handleAll p s (itemsOf p s.halfWord ts).1 with
  | ok z => simp [Except.map]
  | error e =>
    rw [handleAll_error hall]
    simp [Except.map]

theorem PlainCommands.independent {s : State} {stream : Stream} (h : PlainCommands s stream)
    (hs : Reached fakeIli9486Spi s) : Independent fakeIli9486Spi s stream := by
  intro ts ts' hts hts'
  refine ⟨?_, sendAll_not_pastEnd hs.fits.isReset ts⟩
  rw [h.sendAll hs hts, h.sendAll hs hts']

/-- A transfer for each byte. -/
def singles (stream : Stream) : List Transfer :=
  stream.map fun x => ⟨false, x.1, [x.2], List.cons_ne_nil _ _⟩

theorem cuts_singles (stream : Stream) : Cuts stream (singles stream) := by
  constructor
  · induction stream with
    | nil => rfl
    | cons x stream ih => exact congrArg (x :: ·) ih
  · intro t ht
    obtain ⟨x, -, rfl⟩ := List.mem_map.mp ht
    rfl

theorem Cuts.append {stream rest : Stream} {ts us : List Transfer} (h : Cuts stream ts)
    (h' : Cuts rest us) : Cuts (stream ++ rest) (ts ++ us) := by
  constructor
  · rw [streamOf, List.flatMap_append]
    exact congrArg₂ (· ++ ·) h.1 h'.1
  · intro t ht
    rcases List.mem_append.mp ht with ht | ht
    · exact h.2 t ht
    · exact h'.2 t ht

theorem itemsOf_append (p : Panel) (half : Option Byte) (ts us : List Transfer) :
    itemsOf p half (ts ++ us) =
      ((itemsOf p half ts).1 ++ (itemsOf p (itemsOf p half ts).2 us).1,
        (itemsOf p (itemsOf p half ts).2 us).2) := by
  induction ts generalizing half with
  | nil => rfl
  | cons t ts ih => rw [List.cons_append, itemsOf, ih, itemsOf, List.append_assoc]

theorem itemsOf_singles {p : Panel} (hp : p.words = true) (half : Option Byte) (stream : Stream) :
    itemsOf p half (singles stream) = feedItems half stream := by
  induction stream generalizing half with
  | nil => cases half <;> rfl
  | cons x stream ih =>
    obtain ⟨command, b⟩ := x
    change itemsOf p half (⟨false, command, [b], _⟩ :: singles stream) = _
    unfold itemsOf Transfer.items
    rw [hp, if_neg Bool.false_ne_true, if_pos rfl]
    cases half with
    | none => exact ih (some b)
    | some half =>
      change ([completed command half b] ++ (itemsOf p none (singles stream)).1,
        (itemsOf p none (singles stream)).2) = _
      rw [ih none]
      rfl

theorem high_of_masked {hi lo : Byte} (h : word hi lo &&& 0xFF = word hi lo) : hi = 0 := by
  have hnat := congrArg BitVec.toNat h
  rw [BitVec.toNat_and] at hnat
  change _ &&& (2 ^ 8 - 1) = _ at hnat
  rw [Nat.and_two_pow_sub_one_eq_mod] at hnat
  have hhi := hi.isLt
  have hlo := lo.isLt
  apply BitVec.eq_of_toNat_eq
  simp [word, Nat.shiftLeft_eq] at hnat ⊢
  omega

/-- A word whose two bytes come in two transfers loses its high byte. -/
theorem plain_of_independent {s : State} {stream : Stream} (hs : Reached fakeIli9486Spi s)
    (h : ∀ pre, pre <+: stream → Independent fakeIli9486Spi s pre) : PlainCommands s stream := by
  intro pre hi lo hpre hnone hkept
  have hr := hs.fits.isReset
  obtain ⟨u, hu⟩ := (handleAll_ok_iff hs.fits).mpr hkept
  have hur := handleAll_isReset hr hu
  have hwhole : Cuts [(true, hi), (true, lo)] [send true hi [lo]] := by
    refine ⟨rfl, fun t ht => ?_⟩
    obtain rfl := List.mem_singleton.mp ht
    rfl
  obtain ⟨hsame, -⟩ := h _ hpre _ _ ((cuts_singles pre).append (cuts_singles _))
    ((cuts_singles pre).append hwhole)
  rw [sendAll_eq _ hr, sendAll_eq _ hr, itemsOf_append, itemsOf_append, itemsOf_singles rfl,
    itemsOf_singles rfl, hnone, handleAll_append, handleAll_append, hu] at hsame
  have hlast := congrArg State.lastCommand (Except.ok.inj hsame)
  change (State.handleCmd _ u (word hi lo &&& 0xFF)).lastCommand =
    (State.handleCmd _ u (word hi lo)).lastCommand at hlast
  rw [handleCmd_lastCommand _ hur, handleCmd_lastCommand _ hur] at hlast
  exact high_of_masked hlast

def streamItem (x : Bool × Byte) : Item := item x.1 (x.2.setWidth 16)

theorem itemsOf_bytes {p : Panel} (hp : p.words = false) (half : Option Byte) {ts : List Transfer}
    (hts : ∀ t ∈ ts, t.resetLow = false) :
    itemsOf p half ts = ((streamOf ts).map streamItem, half) := by
  induction ts with
  | nil => rfl
  | cons t ts ih =>
    unfold itemsOf Transfer.items
    rw [hts t List.mem_cons_self, hp, if_neg Bool.false_ne_true, if_neg Bool.false_ne_true,
      ih fun u hu => hts u (List.mem_cons_of_mem _ hu)]
    change (byteItems t.command t.bytes ++ _, half) = (List.map _ (_ ++ streamOf ts), half)
    rw [List.map_append, List.map_map]
    rfl

/-- Bytes are handled one at a time. -/
theorem sendAll_bytes {p : Panel} (hp : p.words = false) {s : State} (hr : s.isReset = true)
    {stream : Stream} {ts : List Transfer} (h : Cuts stream ts) :
    sendAll p s ts = handleAll p s (stream.map streamItem) := by
  obtain ⟨rfl, hhigh⟩ := h
  rw [sendAll_eq p hr, itemsOf_bytes hp _ hhigh]
  cases hall : handleAll p s ((streamOf ts).map streamItem) with
  | error e => rfl
  | ok t =>
    change Except.ok (t.withHalf s.halfWord) = Except.ok t
    rw [← handleAll_halfWord hr hall, withHalf_self]

theorem bytes_independent {p : Panel} (hp : p.words = false) {s : State} (hs : Reached p s)
    (stream : Stream) : Independent p s stream := by
  intro ts ts' hcuts hcuts'
  have hr := hs.fits.isReset
  refine ⟨?_, sendAll_not_pastEnd hr ts⟩
  rw [sendAll_bytes hp hr hcuts, sendAll_bytes hp hr hcuts']

namespace Ssd1327

structure State where
  x0 : Word
  y0 : Word
  x1 : Word
  y1 : Word
  xCursor : Word
  yCursor : Word
  writes : List Write

def writeColor (s : State) (color : BitVec 32) : State :=
  let write : Write :=
    ⟨s.xCursor, s.yCursor, s.xCursor, s.yCursor, 0xFF000000 ||| color * 0x00111111⟩
  let s' := { s with writes := s.writes ++ [write] }
  if s.xCursor.slt s.x1 then { s' with xCursor := s.xCursor + 1 }
  else { s' with xCursor := s.x0, yCursor := s.yCursor + 1 }

/-- The commands whose operand is skipped, which moves past it without a read. -/
def skips : List Byte :=
  [0x81, 0xA0, 0xA1, 0xA2, 0xA8, 0xB1, 0xB3, 0xAB, 0xB6, 0xBE, 0xBC, 0xD5, 0xFD]

/-- The loop over the bytes of a command transfer. CASET and RASET read their operands where the
transfer goes on, or where it does not. -/
def commandLoop : State → List Byte → Except Error State
  | s, [] => .ok s
  | s, c :: data =>
    if c ∈ skips then
      match data with
      | [] => .ok s
      | _ :: data => commandLoop s data
    else if c = 0x15 then
      match data with
      | a :: b :: data =>
        commandLoop { s with
          x0 := 2 * a.setWidth 16
          x1 := 2 * b.setWidth 16 + 1
          xCursor := 2 * a.setWidth 16
          yCursor := s.y0 } data
      | _ => .error .pastEnd
    else if c = 0x75 then
      match data with
      | a :: b :: data =>
        commandLoop { s with
          y0 := a.setWidth 16
          y1 := b.setWidth 16
          xCursor := s.x0
          yCursor := a.setWidth 16 } data
      | _ => .error .pastEnd
    else commandLoop s data

/-- A data byte is two pixels. -/
def writeByte (s : State) (d : Byte) : State :=
  writeColor (writeColor s ((d >>> 4).setWidth 32)) ((d &&& 0x0F).setWidth 32)

def send (s : State) (t : Transfer) : Except Error State :=
  if t.resetLow then .ok s
  else if t.command then commandLoop s t.bytes
  else .ok (t.bytes.foldl writeByte s)

def sendAll (s : State) (ts : List Transfer) : Except Error State := ts.foldlM send s

def Independent (s : State) (stream : Stream) : Prop :=
  ∀ ts ts', Cuts stream ts → Cuts stream ts' →
    sendAll s ts = sendAll s ts' ∧ sendAll s ts ≠ .error .pastEnd

/-- The command bytes are none of CASET and RASET. -/
def NoWindow (stream : Stream) : Prop := ∀ b, (true, b) ∈ stream → b ≠ 0x15 ∧ b ≠ 0x75

/-- What is drawn when no command changes the window. -/
def drawStream (s : State) (stream : Stream) : State :=
  stream.foldl (fun s x => if x.1 then s else writeByte s x.2) s

theorem commandLoop_plain {bytes : List Byte} (h : ∀ b ∈ bytes, b ≠ 0x15 ∧ b ≠ 0x75) (s : State) :
    commandLoop s bytes = .ok s := by
  induction hn : bytes.length using Nat.strong_induction_on generalizing bytes with
  | _ n ih =>
    cases bytes with
    | nil => rfl
    | cons c data =>
      have hrest := fun b hb => h b (List.mem_cons_of_mem _ hb)
      obtain ⟨hcaset, hraset⟩ := h c List.mem_cons_self
      rw [List.length_cons] at hn
      unfold commandLoop
      split
      · cases data with
        | nil => rfl
        | cons a data =>
          rw [List.length_cons] at hn
          exact ih data.length (by omega) (fun b hb => hrest b (List.mem_cons_of_mem _ hb)) rfl
      · exact ih data.length (by omega) hrest rfl

theorem sendAll_plain {stream : Stream} {ts : List Transfer} (hts : Cuts stream ts)
    (h : NoWindow stream) (s : State) : sendAll s ts = .ok (drawStream s stream) := by
  obtain ⟨rfl, hhigh⟩ := hts
  induction ts generalizing s with
  | nil => rfl
  | cons t ts ih =>
    have hrest : NoWindow (streamOf ts) := fun b hb => h b (List.mem_append_right _ hb)
    have hhere : ∀ b ∈ t.bytes, t.command = true → b ≠ 0x15 ∧ b ≠ 0x75 := by
      intro b hb hcommand
      apply h b
      apply List.mem_append_left
      exact List.mem_map.mpr ⟨b, hb, by rw [hcommand]⟩
    have hfirst : send s t = .ok (drawStream s (t.bytes.map fun b => (t.command, b))) := by
      rw [send, hhigh t List.mem_cons_self, if_neg Bool.false_ne_true, drawStream, List.foldl_map]
      cases hcommand : t.command with
      | true =>
        rw [if_pos rfl, commandLoop_plain fun b hb => hhere b hb hcommand]
        refine congrArg Except.ok ?_
        induction t.bytes with
        | nil => rfl
        | cons b bytes ih => exact ih
      | false => simp only [Bool.false_eq_true, if_false]
    change (send s t).bind (fun s => sendAll s ts) = _
    rw [hfirst]
    change sendAll _ ts = .ok (drawStream s (_ ++ streamOf ts))
    rw [ih _ (fun u hu => hhigh u (List.mem_cons_of_mem _ hu)) hrest, drawStream, drawStream,
      drawStream, List.foldl_append]

/-- A window command that comes alone reads past its transfer. -/
theorem singles_window {stream : Stream} (h : ¬NoWindow stream) (s : State) :
    sendAll s (singles stream) = .error .pastEnd := by
  induction stream generalizing s with
  | nil => exact absurd (fun b hb => by cases hb) h
  | cons x stream ih =>
    obtain ⟨command, b⟩ := x
    change (send s ⟨false, command, [b], List.cons_ne_nil b []⟩).bind
      (fun s => sendAll s (singles stream)) = _
    by_cases hwindow : command = true ∧ (b = 0x15 ∨ b = 0x75)
    · obtain ⟨rfl, rfl | rfl⟩ := hwindow
      · rfl
      · rfl
    · have hrest : ¬NoWindow stream := by
        intro hno
        apply h
        intro b' hb'
        rcases List.mem_cons.mp hb' with heq | hb'
        · cases heq
          exact not_or.mp fun hor => hwindow ⟨rfl, hor⟩
        · exact hno b' hb'
      have hone : Cuts [(command, b)] [⟨false, command, [b], List.cons_ne_nil _ _⟩] := by
        refine ⟨rfl, fun t ht => ?_⟩
        obtain rfl := List.mem_singleton.mp ht
        rfl
      have hplain : NoWindow [(command, b)] := by
        intro b' hb'
        cases List.mem_singleton.mp hb'
        exact not_or.mp fun hor => hwindow ⟨rfl, hor⟩
      have hsend : send s ⟨false, command, [b], List.cons_ne_nil b []⟩ =
          .ok (drawStream s [(command, b)]) := by
        have hall := sendAll_plain hone hplain s
        change (send s _).bind Except.ok = _ at hall
        cases hone : send s ⟨false, command, [b], List.cons_ne_nil b []⟩ with
        | error e =>
          rw [hone] at hall
          cases hall
        | ok z =>
          rw [hone] at hall
          exact hall
      rw [hsend]
      exact ih hrest _

theorem independent_iff (s : State) (stream : Stream) :
    Independent s stream ↔ NoWindow stream := by
  constructor
  · intro h
    by_contra hwindow
    have hcuts := cuts_singles stream
    exact (h _ _ hcuts hcuts).2 (singles_window hwindow s)
  · intro h ts ts' hts hts'
    rw [sendAll_plain hts h, sendAll_plain hts' h]
    exact ⟨rfl, nofun⟩

end Ssd1327

/-- The controllers that take single bytes cannot tell how a stream is cut. On the ILI9486 no
beginning of a stream can be told apart by its cuts exactly when each command word has a zero high
byte, as long as the operand buffer is not overrun. On the SSD1327 a stream cannot exactly when none
of its command bytes is CASET or RASET. -/
theorem chunks_independent (stream : Stream) :
    (∀ c : Controller, c.panel.words = false → ∀ s, Reached c.panel s →
      Independent c.panel s stream) ∧
    (∀ s, Reached fakeIli9486Spi s →
      ((∀ pre, pre <+: stream → Independent fakeIli9486Spi s pre) ↔ PlainCommands s stream)) ∧
    ∀ s, Ssd1327.Independent s stream ↔ Ssd1327.NoWindow stream := by
  refine ⟨fun c hc s hs => bytes_independent hc hs stream, fun s hs => ?_,
    fun s => Ssd1327.independent_iff s stream⟩
  constructor
  · exact plain_of_independent hs
  · intro hplain pre hpre
    apply PlainCommands.independent _ hs
    intro first hi lo hfirst
    exact hplain first hi lo (hfirst.trans hpre)

theorem constructed_reached (p : Panel) : Reached p constructed :=
  ⟨constructed, [], ⟨rfl, rfl, rfl, rfl, rfl⟩, rfl⟩

theorem chunks_independent_madctl :
    Independent fakeIli9341Spi constructed [(true, 0x36), (false, 0x08), (true, 0x2C)] :=
  (chunks_independent _).1 .ili9341 rfl _ (constructed_reached fakeIli9341Spi)

/-- The word 0x0136 is MADCTL when its bytes come in two transfers, and nothing when they come in
one. A CASET without its operands in the transfer reads past it. -/
theorem chunks_differ :
    (¬∀ s stream, Reached fakeIli9486Spi s → Independent fakeIli9486Spi s stream) ∧
      ¬∀ s stream, Ssd1327.Independent s stream := by
  constructor
  · intro h
    have hwhole : Cuts [(true, 0x01), (true, 0x36)] [send true 0x01 [0x36]] := by
      refine ⟨rfl, fun t ht => ?_⟩
      obtain rfl := List.mem_singleton.mp ht
      rfl
    obtain ⟨hsame, -⟩ := h constructed _ (constructed_reached fakeIli9486Spi) _ _
      (cuts_singles [(true, 0x01), (true, 0x36)]) hwhole
    have hsplit : sendAll fakeIli9486Spi constructed (singles [(true, 0x01), (true, 0x36)]) =
        .ok (constructed.handleCmd fakeIli9486Spi 0x36) := rfl
    have hone : sendAll fakeIli9486Spi constructed [send true 0x01 [0x36]] =
        .ok (constructed.handleCmd fakeIli9486Spi 0x0136) := rfl
    rw [hsplit, hone] at hsame
    have hlast := congrArg State.lastCommand (Except.ok.inj hsame)
    rw [handleCmd_lastCommand _ rfl, handleCmd_lastCommand _ rfl] at hlast
    exact absurd hlast (by decide)
  · intro h
    have hcuts := cuts_singles [(true, 0x15)]
    exact (h ⟨0, 0, 0, 0, 0, 0, []⟩ _ _ _ hcuts hcuts).2 rfl

end RooTesting.Displays
