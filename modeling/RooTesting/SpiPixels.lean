import RooTesting.ArduinoSpi

/-! # Pixels on the wire

The fast path takes two pixels at a time as a word of memory and puts their bytes into the order of
the bus. -/
namespace RooTesting.SpiPixels
open Esp32Spi ArduinoSpi

/-- The bytes of a list of transfers one after the other, and the number of their bits. -/
def stream (wire : List (List Byte × ℕ)) : List Byte × ℕ :=
  (wire.flatMap Prod.fst, (wire.map Prod.snd).sum)

/-- An array of pixels in memory, with any bytes behind it. -/
def pixelMemory (pixels : List (BitVec 16)) (beyond : ℕ → Byte) (j : ℕ) : Byte :=
  match pixels[j / 2]? with
  | some pixel => byteOf pixel (j % 2)
  | none => beyond j

def writeShorts {σ : Type} (h : Host σ) (spi : Spi) (w : World σ) (pixels : List (BitVec 16)) :
    World σ :=
  pixels.foldl (spiWriteShortNL h spi) w

/-- The byte of memory that goes out at a place. -/
def source (order : BitOrder) (j : ℕ) : ℕ :=
  if order = .msbFirst then 2 * (j / 2) + (1 - j % 2) else j

def sent (order : BitOrder) (input : ℕ → Byte) (length : ℕ) : List Byte :=
  (List.range length).map fun j => input (source order j)

theorem stream_append (wire wire' : List (List Byte × ℕ)) :
    stream (wire ++ wire') =
      ((stream wire).1 ++ (stream wire').1, (stream wire).2 + (stream wire').2) := by
  unfold stream
  rw [List.flatMap_append, List.map_append, List.sum_append]

theorem stream_single (bytes : List Byte) (bits : ℕ) : stream [(bytes, bits)] = (bytes, bits) := by
  simp [stream]

section Words

variable {m : ℕ}

theorem byteOf_wordAt (input : ℕ → Byte) (k : ℕ) (hm : m < 4) :
    byteOf (wordAt input k) m = input (4 * k + m) := by
  unfold wordAt
  rw [byteOf_assemble _ _ _ _ hm]
  interval_cases m <;> rfl

theorem byteOf_swapPixels (value : BitVec 32) (hm : m < 4) :
    byteOf (swapPixels value) m = byteOf value (source .msbFirst m) := by
  unfold swapPixels
  rw [or_bytes, byteOf_assemble _ _ _ _ hm]
  interval_cases m <;> rfl

end Words

theorem setWords_apply (buf : Buffer) (f : ℕ → BitVec 32) (words : ℕ) (j : Fin 64) :
    (List.range words).foldl (fun buf k => setWord buf k (f k)) buf j =
      if j.val / 4 < words then byteOf (f (j.val / 4)) (j.val % 4) else buf j := by
  induction words with
  | zero => rfl
  | succ words ih =>
    rw [List.range_succ, List.foldl_append, List.foldl_cons, List.foldl_nil, setWord, ih]
    by_cases hlast : j.val / 4 = words
    · rw [if_pos hlast, if_pos (by omega), hlast]
    · rw [if_neg hlast]
      by_cases hlt : j.val / 4 < words
      · rw [if_pos hlt, if_pos (by omega)]
      · rw [if_neg hlt, if_neg (by omega)]

/-- A byte of a word of a chunk, but for those behind the last pixel. -/
theorem byteOf_pixelWord (spi : Spi) {words tail k m : ℕ} (value : BitVec 32) (hm : m < 4)
    (heven : tail = 0 ∨ tail = 2) (hlast : tail = 2 → k + 1 = words → m < 2) :
    byteOf (pixelWord spi words tail k value) m = byteOf value (source spi.bitOrder m) := by
  unfold pixelWord
  by_cases horder : spi.bitOrder = .msbFirst
  · rw [if_pos horder, horder]
    by_cases hend : tail ≠ 0 ∧ k + 1 = words
    · have htail : tail = 2 := heven.resolve_left hend.1
      have hlow : m < 2 := hlast htail hend.2
      have hsource : source .msbFirst m = 1 - m := by
        rw [source, if_pos rfl]
        omega
      rw [if_pos hend, if_pos htail, byteOf_setWidth _ (by omega), byteOf_swap16 _ hlow,
        byteOf_setWidth _ (by omega), hsource]
    · rw [if_neg hend]
      exact byteOf_swapPixels value hm
  · rw [if_neg horder, source, if_neg horder]

theorem source_lt {order : BitOrder} {m : ℕ} (hm : m < 4) : source order m < 4 := by
  unfold source
  split <;> omega

/-- Words keep their place, and so do pairs of bytes. -/
theorem source_add (order : BitOrder) (k j : ℕ) : source order (2 * k + j) = 2 * k + source order j := by
  unfold source
  split <;> omega

/-- The first bytes of the buffer once a chunk has been put there. -/
theorem firstBytes_chunk (spi : Spi) (buf : Buffer) (input : ℕ → Byte) (data : ℕ) {length : ℕ}
    (heven : length % 2 = 0) :
    firstBytes ((List.range (min 16 ((length + 3) / 4))).foldl
        (fun buf k => setWord buf k (pixelWord spi (min 16 ((length + 3) / 4)) (min 64 length % 4) k
          (wordAt input (data + k)))) buf) (min 64 length) =
      sent spi.bitOrder (fun j => input (4 * data + j)) (min 64 length) := by
  apply List.ext_getElem?
  intro j
  rw [firstBytes_getElem?, sent, List.getElem?_map]
  split
  · rename_i hj
    obtain ⟨hchunk, h64⟩ := hj
    have hword : j / 4 < min 16 ((length + 3) / 4) := by omega
    have hlast : min 64 length % 4 = 2 → j / 4 + 1 = min 16 ((length + 3) / 4) → j % 4 < 2 := by
      omega
    have hplace : source spi.bitOrder j = 4 * (j / 4) + source spi.bitOrder (j % 4) := by
      have hpair := source_add spi.bitOrder (2 * (j / 4)) (j % 4)
      rw [show 2 * (2 * (j / 4)) + j % 4 = j by omega] at hpair
      omega
    rw [setWords_apply, if_pos hword,
      byteOf_pixelWord spi _ (Nat.mod_lt _ (by decide)) (by omega) hlast,
      byteOf_wordAt _ _ (source_lt (Nat.mod_lt _ (by decide))), List.getElem?_range hchunk,
      Option.map_some, hplace]
    congr 2
    dsimp only
    omega
  · rename_i hj
    rw [List.getElem?_eq_none (by rw [List.length_range]; omega), Option.map_none]

theorem sent_append (order : BitOrder) (input : ℕ → Byte) {a : ℕ} (heven : a % 2 = 0) (b : ℕ) :
    sent order input a ++ sent order (fun j => input (a + j)) b = sent order input (a + b) := by
  have hshift : ∀ j, a + source order j = source order (a + j) := by
    intro j
    rw [show a = 2 * (a / 2) by omega, source_add]
  unfold sent
  rw [List.range_add, List.map_append, List.map_map]
  congr 1
  apply List.map_congr_left
  intro j _
  exact congrArg input (hshift j)

section Loop

variable {σ : Type} (h : Host σ) (spi : Spi)

/-- The chunks send the bytes of an array of some pixels, the two of each in the order of the
bus. -/
theorem pixelLoop_stream (input : ℕ → Byte) {rounds : ℕ} (w : World σ) (data : ℕ) {length : ℕ}
    (hrounds : length ≤ rounds) (heven : length % 2 = 0) :
    stream (pixelLoop h spi input rounds w data ((length + 3) / 4) length).wire =
      ((stream w.wire).1 ++ sent spi.bitOrder (fun j => input (4 * data + j)) length,
        (stream w.wire).2 + 8 * length) := by
  induction rounds generalizing w data length with
  | zero =>
    have hlength : length = 0 := by omega
    subst hlength
    simp [pixelLoop, sent]
  | succ rounds ih =>
    unfold pixelLoop
    by_cases hlength : length = 0
    · subst hlength
      simp [sent]
    · have hleft : (length + 3) / 4 - min 16 ((length + 3) / 4) =
          (length - min 64 length + 3) / 4 := by omega
      have hbits : min 64 length * 8 - 1 + 1 = 8 * min 64 length := by omega
      have hbytes : byteCount (8 * min 64 length) = min 64 length := by
        unfold byteCount
        omega
      rw [if_neg hlength]
      simp only []
      rw [hleft, ih _ _ (by omega) (by omega)]
      simp only [transferOnDevice, hbits, hbytes, stream_append, stream_single]
      rw [firstBytes_chunk spi _ input data heven, List.append_assoc]
      by_cases hfull : length ≤ 64
      · rw [Nat.min_eq_right hfull, Nat.sub_self]
        simp [sent]
      · rw [Nat.min_eq_left (by omega)]
        have hdata : ∀ j, 4 * (data + min 16 ((length + 3) / 4)) + j = 4 * data + (64 + j) := by
          omega
        have hsplit := sent_append spi.bitOrder (fun j => input (4 * data + j))
          (show 64 % 2 = 0 by decide) (length - 64)
        rw [show 64 + (length - 64) = length by omega] at hsplit
        simp only [hdata]
        rw [hsplit]
        congr 1
        omega

def pixelBytes (order : BitOrder) (pixel : BitVec 16) : List Byte :=
  if order = .msbFirst then [byteOf pixel 1, byteOf pixel 0] else [byteOf pixel 0, byteOf pixel 1]

theorem spiWriteShortNL_wire (w : World σ) (pixel : BitVec 16) (hstarted : spi.started = true) :
    (spiWriteShortNL h spi w pixel).wire = w.wire ++ [(pixelBytes spi.bitOrder pixel, 16)] := by
  have hwrite : ∀ data : BitVec 16, (spiWriteNL h spi w [byteOf data 0, byteOf data 1] 2).wire =
      w.wire ++ [([byteOf data 0, byteOf data 1], 16)] := by
    intro data
    rw [spiWriteNL, transferBytes, if_pos hstarted,
      transferLoop_once h false w _ (by decide) (by decide)]
    exact transferChunk_wire h w [byteOf data 0, byteOf data 1] false (by simp) (by simp)
  unfold spiWriteShortNL pixelBytes
  rw [hwrite]
  by_cases horder : spi.bitOrder = .msbFirst
  · rw [if_pos horder, if_pos horder, byteOf_swap16 _ (by decide), byteOf_swap16 _ (by decide)]
  · rw [if_neg horder, if_neg horder]

theorem writeShorts_stream (w : World σ) (pixels : List (BitVec 16))
    (hstarted : spi.started = true) :
    stream (writeShorts h spi w pixels).wire =
      ((stream w.wire).1 ++ pixels.flatMap (pixelBytes spi.bitOrder),
        (stream w.wire).2 + 16 * pixels.length) := by
  induction pixels generalizing w with
  | nil => simp [writeShorts]
  | cons pixel pixels ih =>
    have hstep := ih (spiWriteShortNL h spi w pixel)
    rw [spiWriteShortNL_wire h spi w pixel hstarted, stream_append, stream_single] at hstep
    rw [writeShorts, List.foldl_cons]
    refine hstep.trans ?_
    rw [List.flatMap_cons, List.append_assoc, List.length_cons]
    congr 1
    omega

/-- A bus that has not been started sends no single pixel. -/
theorem writeShorts_stopped (w : World σ) (pixels : List (BitVec 16))
    (hstopped : ¬ spi.started = true) : writeShorts h spi w pixels = w := by
  induction pixels generalizing w with
  | nil => rfl
  | cons pixel pixels ih =>
    have hnone : spiWriteShortNL h spi w pixel = w := by
      simp only [spiWriteShortNL, spiWriteNL, transferBytes, if_neg hstopped]
    rw [writeShorts, List.foldl_cons, hnone]
    exact ih w

end Loop

/-- The bytes of an array, taken pairwise in the order of the bus. -/
theorem sent_pixelMemory (order : BitOrder) (pixels : List (BitVec 16)) (beyond : ℕ → Byte) :
    sent order (pixelMemory pixels beyond) (2 * pixels.length) =
      pixels.flatMap (pixelBytes order) := by
  induction pixels generalizing beyond with
  | nil => rfl
  | cons pixel pixels ih =>
    have hfirst : sent order (pixelMemory (pixel :: pixels) beyond) 2 = pixelBytes order pixel := by
      cases order with
      | lsbFirst => rfl
      | msbFirst => rfl
    have hrest : (fun j => pixelMemory (pixel :: pixels) beyond (2 + j)) =
        pixelMemory pixels (fun j => beyond (2 + j)) := by
      funext j
      unfold pixelMemory
      rw [show (2 + j) / 2 = j / 2 + 1 by omega, show (2 + j) % 2 = j % 2 by omega,
        List.getElem?_cons_succ]
    rw [List.length_cons, show 2 * (pixels.length + 1) = 2 + 2 * pixels.length by omega,
      ← sent_append order _ (by decide), hfirst, hrest, ih, List.flatMap_cons]

theorem spiWritePixelsNL_stream {σ : Type} (h : Host σ) (spi : Spi) (w : World σ)
    (pixels : List (BitVec 16)) (beyond : ℕ → Byte) (hlength : 2 * pixels.length + 3 < 2 ^ 32) :
    stream (spiWritePixelsNL h spi w (pixelMemory pixels beyond) (2 * pixels.length)).wire =
      ((stream w.wire).1 ++ pixels.flatMap (pixelBytes spi.bitOrder),
        (stream w.wire).2 + 16 * pixels.length) := by
  have hloop := pixelLoop_stream h spi (pixelMemory pixels beyond) w 0 le_rfl
    (show 2 * pixels.length % 2 = 0 by omega)
  simp only [Nat.mul_zero, Nat.zero_add, sent_pixelMemory] at hloop
  rw [spiWritePixelsNL, Nat.mod_eq_of_lt hlength, hloop]
  congr 1
  omega

/-- The fast path puts the bytes and the number of bits of the single pixels on the wire exactly
where the bus is started, or where there is no pixel, as long as the length rounded up to words
does not wrap. -/
theorem spiWritePixelsNL_shorts {σ : Type} (h : Host σ) (spi : Spi) (w : World σ)
    (pixels : List (BitVec 16)) (beyond : ℕ → Byte) (hlength : 2 * pixels.length + 3 < 2 ^ 32) :
    stream (spiWritePixelsNL h spi w (pixelMemory pixels beyond) (2 * pixels.length)).wire =
        stream (writeShorts h spi w pixels).wire ↔
      spi.started = true ∨ pixels = [] := by
  rw [spiWritePixelsNL_stream h spi w pixels beyond hlength]
  by_cases hstarted : spi.started = true
  · rw [writeShorts_stream h spi w pixels hstarted]
    exact ⟨fun _ => Or.inl hstarted, fun _ => rfl⟩
  · rw [writeShorts_stopped h spi w pixels hstarted]
    constructor
    · intro heq
      have hbits : (stream w.wire).2 + 16 * pixels.length = (stream w.wire).2 :=
        congrArg Prod.snd heq
      exact Or.inr (List.length_eq_zero_iff.mp (by omega))
    · intro hcase
      rw [hcase.resolve_left hstarted]
      simp

/-- A bus with a device that replies with what it receives, and nothing on the wire yet. -/
def echoHost : Host Unit where
  board := ⟨fun _ => 0, fun _ => 0, fun _ => false⟩
  interface := ⟨0, 0, 0⟩
  behaviour := ⟨fun s bytes _ => (bytes, s), fun _ _ _ => rfl⟩
  junk := fun _ => 0

def quietWorld : World Unit := ⟨⟨fun _ => 0, 0, 0⟩, [], []⟩

/-- Of three pixels the last one is the tail. -/
theorem spiWritePixelsNL_shorts_started :
    stream (spiWritePixelsNL echoHost ⟨.msbFirst, true⟩ quietWorld
        (pixelMemory [0x1234, 0x5678, 0x9ABC] fun _ => 0) 6).wire =
      stream (writeShorts echoHost ⟨.msbFirst, true⟩ quietWorld [0x1234, 0x5678, 0x9ABC]).wire :=
  (spiWritePixelsNL_shorts echoHost ⟨.msbFirst, true⟩ quietWorld [0x1234, 0x5678, 0x9ABC]
    (fun _ => 0) (by decide)).mpr (Or.inl rfl)

/-- A bus that was stopped sends a pixel on the fast path only. -/
theorem stopped_pixel :
    stream (spiWritePixelsNL echoHost ⟨.msbFirst, false⟩ quietWorld
        (pixelMemory [0x1234] fun _ => 0) 2).wire = ([0x12, 0x34], 16) ∧
      stream (writeShorts echoHost ⟨.msbFirst, false⟩ quietWorld [0x1234]).wire = ([], 0) := by
  decide +kernel

end RooTesting.SpiPixels
