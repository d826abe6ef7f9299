import RooTesting.ArduinoSpi

/-! # Transfers of some bits

On the wire the bytes of the buffer follow one another, each in the order of the bus. Of the last
one only as many bits go out as are left. -/
namespace RooTesting.SpiBits
open Esp32Spi ArduinoSpi

/-- The bit of some bytes that is on the wire at a place. -/
def wireBit (order : BitOrder) (bytes : List Byte) (j : ℕ) : Bool :=
  (bytes.getD (j / 8) 0).getLsbD (if order = .msbFirst then 7 - j % 8 else j % 8)

/-- The bit of a word of some bits that belongs there. -/
def wordBit (order : BitOrder) (bits : ℕ) (v : BitVec 32) (j : ℕ) : Bool :=
  v.getLsbD (if order = .msbFirst then bits - 1 - j else j)

def Carries (order : BitOrder) (bits : ℕ) (bytes : List Byte) (v : BitVec 32) : Prop :=
  ∀ j < bits, wireBit order bytes j = wordBit order bits v j

section Statement

variable {σ : Type} (h : Host σ) (spi : Spi) (w : World σ) (data : BitVec 32) (bits : ℕ)

/-- A device that takes part in the transfers of a controller, and no other one answers. -/
structure Alone (pre : List (Device σ)) (d : Device σ) (post : List (Device σ)) : Prop where
  devices : w.devices = pre ++ d :: post
  listens : d.Listens h.board h.interface
  drives : d.Drives h.board h.interface
  before : ∀ e ∈ pre, ¬ e.Drives h.board h.interface
  behind : ∀ e ∈ post, ¬ e.Drives h.board h.interface

/-- The low bits of the data go out to the device, and the result is its reply. -/
structure Exchange (place : ℕ) (d : Device σ) (bytes reply : List Byte) (state : σ) : Prop where
  answer : h.behaviour.transfer d.state bytes bits = (reply, state)
  wire : (spiTransferBitsNL h spi w data bits).1.wire = w.wire ++ [(bytes, bits)]
  device : (spiTransferBitsNL h spi w data bits).1.devices[place]? = some { d with state := state }
  sent : Carries spi.bitOrder bits bytes data
  received : Carries spi.bitOrder bits reply (spiTransferBitsNL h spi w data bits).2
  fits : ∀ i, bits ≤ i → (spiTransferBitsNL h spi w data bits).2.getLsbD i = false

/-- The calls for one, two and four bytes do the same. -/
structure Agrees : Prop where
  byte : bits = 8 → spiTransferByteNL h spi w (data.setWidth 8) =
    ((spiTransferBitsNL h spi w data bits).1, (spiTransferBitsNL h spi w data bits).2.setWidth 8)
  short : bits = 16 → spiTransferShortNL h spi w (data.setWidth 16) =
    ((spiTransferBitsNL h spi w data bits).1, (spiTransferBitsNL h spi w data bits).2.setWidth 16)
  long : bits = 32 → spiTransferLongNL h spi w data = spiTransferBitsNL h spi w data bits

end Statement

/-- With any device of any board, in any state of the controller. -/
def Exchanges (spi : Spi) (data : BitVec 32) (bits : ℕ) : Prop :=
  ∀ (σ : Type) (h : Host σ) (w : World σ) (pre post : List (Device σ)) (d : Device σ),
    Alone h w pre d post →
      (∃ bytes reply state, Exchange h spi w data bits pre.length d bytes reply state) ∧
        Agrees h spi w data bits

/-- The numbers of bits for which the bytes of the word and those of the bus lie alike. -/
def Aligned (order : BitOrder) (bits : ℕ) : Prop :=
  match order with
  | .lsbFirst => bits % 8 ≠ 1
  | .msbFirst => bits = 16 ∨ bits = 24 ∨ bits = 32

/-- The place of the byte that is exchanged with the first one. -/
def top (bytes : ℕ) : ℕ := if bytes = 2 then 1 else if bytes = 3 then 2 else 3

def ordered (order : BitOrder) (bytes : ℕ) (v : BitVec 32) : BitVec 32 :=
  if order = .msbFirst then reorder bytes v else v

def partner (order : BitOrder) (bytes k : ℕ) : ℕ := if order = .msbFirst then top bytes - k else k

theorem top_le (bytes : ℕ) : top bytes ≤ 3 := by
  unfold top
  split
  · omega
  · split <;> omega

theorem byteOf_swap24 (v : BitVec 32) {k : ℕ} (hk : k ≤ 2) :
    byteOf (swap24 v) k = byteOf v (2 - k) := by
  have hswap : swap24 v = assemble (byteOf v 2) (byteOf v 1) (byteOf v 0) 0 := by
    rw [← or_bytes]
    simp [swap24]
  rw [hswap, byteOf_assemble _ _ _ _ (by omega)]
  interval_cases k <;> rfl

theorem byteOf_swap32 (v : BitVec 32) {k : ℕ} (hk : k ≤ 3) :
    byteOf (swap32 v) k = byteOf v (3 - k) := by
  unfold swap32
  rw [byteOf_assemble _ _ _ _ (by omega)]
  interval_cases k <;> rfl

theorem byteOf_ordered (order : BitOrder) (bytes : ℕ) (v : BitVec 32) {k : ℕ}
    (hk : k ≤ top bytes) :
    byteOf (ordered order bytes v) k = byteOf v (partner order bytes k) := by
  unfold ordered partner
  by_cases horder : order = .msbFirst
  · rw [if_pos horder, if_pos horder]
    unfold reorder
    unfold top at hk ⊢
    by_cases htwo : bytes = 2
    · rw [if_pos htwo] at hk ⊢
      rw [if_pos htwo, byteOf_setWidth _ (by omega), byteOf_swap16 _ (by omega),
        byteOf_setWidth _ (by omega)]
    · rw [if_neg htwo] at hk ⊢
      rw [if_neg htwo]
      by_cases hthree : bytes = 3
      · rw [if_pos hthree] at hk ⊢
        rw [if_pos hthree]
        exact byteOf_swap24 v hk
      · rw [if_neg hthree] at hk ⊢
        rw [if_neg hthree]
        exact byteOf_swap32 v hk
  · rw [if_neg horder, if_neg horder]

theorem partner_le {order : BitOrder} {bytes k : ℕ} (hk : k ≤ top bytes) :
    partner order bytes k ≤ top bytes := by
  unfold partner
  split <;> omega

theorem partner_partner {order : BitOrder} {bytes k : ℕ} (hk : k ≤ top bytes) :
    partner order bytes (partner order bytes k) = k := by
  unfold partner
  split <;> omega

theorem getLsbD_bitMask {bits : ℕ} (hbits : bits ≤ 32) (i : ℕ) :
    (bitMask bits).getLsbD i = decide (i < bits) := by
  have hvalue : (bitMask bits).toNat = 2 ^ bits - 1 := by
    interval_cases bits <;> rfl
  rw [BitVec.getLsbD, hvalue, Nat.testBit_two_pow_sub_one]

section Bits

variable {order : BitOrder} {bits : ℕ} {bytes : List Byte} {v : BitVec 32}

theorem wordBit_mask (hbits : bits ≤ 32) {j : ℕ} (hj : j < bits) :
    wordBit order bits (v &&& bitMask bits) j = wordBit order bits v j := by
  have hplace : (if order = .msbFirst then bits - 1 - j else j) < bits := by
    split <;> omega
  rw [wordBit, BitVec.getLsbD_and, getLsbD_bitMask hbits, decide_eq_true hplace, Bool.and_true,
    wordBit]

theorem Carries.mask (hbits : bits ≤ 32) :
    Carries order bits bytes (v &&& bitMask bits) ↔ Carries order bits bytes v := by
  constructor
  · intro h j hj
    rw [h j hj, wordBit_mask hbits hj]
  · intro h j hj
    rw [h j hj, wordBit_mask hbits hj]

theorem le_top (hbits : bits ≤ 32) {k : ℕ} (hk : k < byteCount bits) : k ≤ top (byteCount bits) := by
  unfold top
  unfold byteCount at *
  split
  · omega
  · split <;> omega

theorem Aligned.top_eq (h : Aligned .msbFirst bits) : bits = 8 * (top (byteCount bits) + 1) := by
  rcases h with rfl | rfl | rfl <;> rfl

/-- The bytes of an ordered word carry the bits of the word. -/
theorem carries_ordered (hbits : bits ≤ 32) (haligned : Aligned order bits)
    (hbytes : ∀ k < byteCount bits,
      bytes.getD k 0 = byteOf (ordered order (byteCount bits) v) k) :
    Carries order bits bytes v := by
  intro j hj
  have hk : j / 8 < byteCount bits := by
    unfold byteCount
    omega
  rw [wireBit, hbytes _ hk, byteOf_ordered order _ v (le_top hbits hk), getLsbD_byteOf, wordBit]
  cases order with
  | lsbFirst =>
    have hsplit : 8 * (j / 8) + j % 8 = j := by omega
    rw [if_neg (by decide), if_neg (by decide), partner, if_neg (by decide), hsplit,
      decide_eq_true (by omega), Bool.true_and]
  | msbFirst =>
    have hwhole := haligned.top_eq
    have hsplit : 8 * (top (byteCount bits) - j / 8) + (7 - j % 8) = bits - 1 - j := by omega
    rw [if_pos rfl, if_pos rfl, partner, if_pos rfl, hsplit, decide_eq_true (by omega),
      Bool.true_and]

/-- Ordering once more, back to the bytes of the bus. -/
theorem carries_reply (hbits : bits ≤ 32) (haligned : Aligned order bits)
    (hbytes : ∀ k < byteCount bits, bytes.getD k 0 = byteOf v k) :
    Carries order bits bytes (ordered order (byteCount bits) v) := by
  apply carries_ordered hbits haligned
  intro k hk
  have htop := le_top hbits hk
  rw [byteOf_ordered order _ _ htop, byteOf_ordered order _ _ (partner_le htop),
    partner_partner htop]
  exact hbytes k hk

end Bits

section Call

variable {σ : Type} (h : Host σ) (spi : Spi) (w : World σ) (data : BitVec 32) {bits : ℕ}

/-- The registers when the transfer starts. -/
def armed (bits : ℕ) : World σ :=
  { w with
    dev :=
      { dataBuf := setWord w.dev.dataBuf 0
          (ordered spi.bitOrder (byteCount bits) (data &&& bitMask bits))
        usrMosiDbitlen := bits - 1
        usrMisoDbitlen := bits - 1 } }

theorem spiTransferBitsNL_eq (hpos : 0 < bits) (hbits : bits ≤ 32) :
    spiTransferBitsNL h spi w data bits =
      (transferOnDevice h (armed spi w data bits),
        ordered spi.bitOrder (byteCount bits)
          (firstWord (transferOnDevice h (armed spi w data bits)).dev.dataBuf) &&& bitMask bits) := by
  unfold spiTransferBitsNL
  rw [if_neg (by omega), Nat.min_eq_left hbits]
  rfl

theorem byteOf_firstWord (buf : Buffer) {k : ℕ} (hk : k < 4) :
    byteOf (firstWord buf) k = buf ⟨k, by omega⟩ := by
  unfold firstWord
  rw [byteOf_assemble _ _ _ _ hk]
  interval_cases k <;> rfl

theorem getD_firstBytes (buf : Buffer) {n k : ℕ} (hk : k < n) (h64 : k < 64) :
    (firstBytes buf n).getD k 0 = buf ⟨k, h64⟩ := by
  rw [List.getD_eq_getElem?_getD, firstBytes_getElem?, dif_pos ⟨hk, h64⟩, Option.getD_some]

theorem setWord_first (buf : Buffer) (v : BitVec 32) {k : ℕ} (hk : k < 4) :
    setWord buf 0 v ⟨k, by omega⟩ = byteOf v k := by
  rw [setWord, if_pos (by dsimp only; omega), Nat.mod_eq_of_lt hk]

theorem byteCount_le (hbits : bits ≤ 32) : byteCount bits ≤ 4 := by
  unfold byteCount
  omega

/-- The bytes that go out. -/
def outgoing (bits : ℕ) : List Byte :=
  firstBytes (armed spi w data bits).dev.dataBuf (byteCount bits)

theorem getD_outgoing (hbits : bits ≤ 32) {k : ℕ} (hk : k < byteCount bits) :
    (outgoing spi w data bits).getD k 0 =
      byteOf (ordered spi.bitOrder (byteCount bits) (data &&& bitMask bits)) k := by
  have h4 : k < 4 := lt_of_lt_of_le hk (byteCount_le hbits)
  unfold outgoing
  rw [getD_firstBytes _ hk (by omega)]
  exact setWord_first _ _ h4

theorem transferOnDevice_wire (hpos : 0 < bits) :
    (transferOnDevice h (armed spi w data bits)).wire =
      w.wire ++ [(outgoing spi w data bits, bits)] := by
  have hsent : (armed spi w data bits).dev.usrMosiDbitlen + 1 = bits := Nat.sub_add_cancel hpos
  unfold transferOnDevice
  rw [hsent]
  rfl

variable {w} {pre post : List (Device σ)} {d : Device σ}

theorem Alone.device (halone : Alone h w pre d post) (hpos : 0 < bits) :
    (transferOnDevice h (armed spi w data bits)).devices[pre.length]? = some { d with
      state := (h.behaviour.transfer d.state (outgoing spi w data bits) bits).2 } := by
  have hsent : (armed spi w data bits).dev.usrMosiDbitlen + 1 = bits := Nat.sub_add_cancel hpos
  have hlistens : (transfer h.board h.interface h.behaviour h.junk (armed spi w data bits).dev
      (pre ++ d :: post)).2.1[pre.length]? = some { d with
        state := (h.behaviour.transfer d.state (firstBytes (armed spi w data bits).dev.dataBuf
          (byteCount ((armed spi w data bits).dev.usrMosiDbitlen + 1)))
          ((armed spi w data bits).dev.usrMosiDbitlen + 1)).2 } :=
    transfer_listens halone.listens halone.before
  rw [hsent, ← halone.devices] at hlistens
  exact hlistens

/-- What the buffer holds behind a transfer: the reply, as far as the register of the bits to
receive has it, then what was sent. -/
theorem Alone.dataBuf (halone : Alone h w pre d post) (hpos : 0 < bits) (hbits : bits ≤ 32)
    {k : ℕ} (hk : k < 4) :
    (transferOnDevice h (armed spi w data bits)).dev.dataBuf ⟨k, by omega⟩ =
      if k < byteCount (bits - 1) then
        (h.behaviour.transfer d.state (outgoing spi w data bits) bits).1.getD k 0
      else byteOf (ordered spi.bitOrder (byteCount bits) (data &&& bitMask bits)) k := by
  have hsent : (armed spi w data bits).dev.usrMosiDbitlen + 1 = bits := Nat.sub_add_cancel hpos
  obtain ⟨buf, hbuf⟩ := transfer_driven h.behaviour h.junk (armed spi w data bits).dev
    halone.drives halone.before halone.behind
  have hlent : lent h.board h.interface bits (armed spi w data bits).dev.dataBuf d =
      outgoing spi w data bits := if_pos halone.listens.2
  rw [hsent, hlent, ← halone.devices] at hbuf
  have hlength : (h.behaviour.transfer d.state (outgoing spi w data bits) bits).1.length =
      byteCount bits := by
    rw [h.behaviour.length_eq, outgoing, length_firstBytes, Nat.min_eq_left]
    exact (byteCount_le hbits).trans (by decide)
  have hstep : (transferOnDevice h (armed spi w data bits)).dev.dataBuf =
      memcpy (armed spi w data bits).dev.dataBuf (overwrite buf
        (h.behaviour.transfer d.state (outgoing spi w data bits) bits).1)
        (byteCount (bits - 1)) := hbuf
  rw [hstep, memcpy]
  by_cases hreceived : k < byteCount (bits - 1)
  · have hcount : byteCount (bits - 1) ≤ byteCount bits := by
      unfold byteCount
      omega
    have hplace : k < (h.behaviour.transfer d.state (outgoing spi w data bits) bits).1.length := by
      rw [hlength]
      exact lt_of_lt_of_le hreceived hcount
    rw [if_pos hreceived, if_pos hreceived]
    unfold overwrite
    rw [List.getD_eq_getElem?_getD, List.getD_eq_getElem?_getD, List.getElem?_eq_getElem hplace,
      Option.getD_some, Option.getD_some]
  · rw [if_neg hreceived, if_neg hreceived]
    exact setWord_first _ _ hk

/-- Where the bytes lie alike the bits are exchanged. -/
theorem Alone.exchange (halone : Alone h w pre d post) (hpos : 0 < bits) (hbits : bits ≤ 32)
    (haligned : Aligned spi.bitOrder bits) :
    Exchange h spi w data bits pre.length d (outgoing spi w data bits)
      (h.behaviour.transfer d.state (outgoing spi w data bits) bits).1
      (h.behaviour.transfer d.state (outgoing spi w data bits) bits).2 := by
  have hcall := spiTransferBitsNL_eq h spi w data hpos hbits
  have hwhole : byteCount (bits - 1) = byteCount bits := by
    apply byteCount_pred hpos
    cases horder : spi.bitOrder with
    | lsbFirst =>
      rw [horder] at haligned
      exact haligned
    | msbFirst =>
      rw [horder] at haligned
      have := haligned.top_eq
      omega
  refine ⟨rfl, ?_, ?_, ?_, ?_, ?_⟩
  · rw [hcall]
    exact transferOnDevice_wire h spi w data hpos
  · rw [hcall]
    exact halone.device h spi data hpos
  · apply (Carries.mask hbits).mp
    exact carries_ordered hbits haligned fun k hk => getD_outgoing spi w data hbits hk
  · rw [hcall]
    apply (Carries.mask hbits).mpr
    apply carries_reply hbits haligned
    intro k hk
    have h4 : k < 4 := lt_of_lt_of_le hk (byteCount_le hbits)
    rw [byteOf_firstWord _ h4, halone.dataBuf h spi data hpos hbits h4, hwhole, if_pos hk]
  · intro i hi
    rw [hcall, BitVec.getLsbD_and, getLsbD_bitMask hbits, decide_eq_false (by omega),
      Bool.and_false]

/-- A few bytes that make up a word. -/
theorem transferBytes_word (w : World σ) (hstarted : spi.started = true) {bytes : List Byte}
    (hpos : 0 < bytes.length) (hlength : bytes.length ≤ 4) {v : BitVec 32}
    (hword : ∀ k < 4, byteOf v k = bytes.getD k 0) {dev : SpiDev}
    (hdev : dev = ⟨setWord w.dev.dataBuf 0 v, bytes.length * 8 - 1, bytes.length * 8 - 1⟩) :
    transferBytes h spi w (some bytes) bytes.length true =
      (transferOnDevice h { w with dev := dev },
        firstBytes (transferOnDevice h { w with dev := dev }).dev.dataBuf bytes.length) := by
  have hcount : 4 * ((bytes.length + 3) / 4) = 4 := by omega
  have hbuffer : memcpy w.dev.dataBuf (overwrite (fun _ => 0) bytes) 4 =
      setWord w.dev.dataBuf 0 v := by
    funext j
    unfold memcpy
    by_cases hj : j.val < 4
    · rw [if_pos hj]
      exact ((setWord_first w.dev.dataBuf v hj).trans (hword j.val hj)).symm
    · rw [if_neg hj, setWord, if_neg (by omega)]
  have hcopied : ∀ buf buf' : Buffer,
      firstBytes (memcpy buf buf' 4) bytes.length = firstBytes buf' bytes.length :=
    fun _ _ => firstBytes_congr fun j hj => if_pos (by omega)
  rw [transferBytes, if_pos hstarted, transferLoop_once h true w _ hpos (by omega)]
  simp only [transferChunk, List.take_length, hcount, hbuffer, hcopied, if_true, ← hdev]

theorem byteOf_behind {n k : ℕ} (v : BitVec n) (hk : n ≤ 8 * k) : byteOf v k = 0 := by
  apply BitVec.eq_of_getLsbD_eq
  intro i hi
  rw [getLsbD_byteOf, BitVec.getLsbD_of_ge v _ (by omega), Bool.and_false]
  simp

theorem and_bitMask (hbits : bits ≤ 32) (v : BitVec 32) :
    v &&& bitMask bits = (v.setWidth bits).setWidth 32 := by
  apply BitVec.eq_of_getLsbD_eq
  intro i hi
  rw [BitVec.getLsbD_and, getLsbD_bitMask hbits, BitVec.getLsbD_setWidth, BitVec.getLsbD_setWidth,
    decide_eq_true hi, Bool.true_and, Bool.and_comm]

theorem setWidth_bitMask (hbits : bits ≤ 32) (v : BitVec 32) :
    (v &&& bitMask bits).setWidth bits = v.setWidth bits := by
  rw [and_bitMask hbits, BitVec.setWidth_setWidth_of_le _ hbits, BitVec.setWidth_eq]

theorem agrees_byte (w : World σ) (hstarted : spi.started = true)
    (horder : spi.bitOrder = .lsbFirst) :
    spiTransferByteNL h spi w (data.setWidth 8) = ((spiTransferBitsNL h spi w data 8).1,
      (spiTransferBitsNL h spi w data 8).2.setWidth 8) := by
  have hword : ∀ k < 4, byteOf (data &&& bitMask 8) k = [data.setWidth 8].getD k 0 := by
    intro k hk
    rw [and_bitMask (by decide), byteOf_setWidth _ (by omega)]
    interval_cases k
    · rfl
    · exact byteOf_behind _ (by omega)
    · exact byteOf_behind _ (by omega)
    · exact byteOf_behind _ (by omega)
  have hdev : (armed spi w data 8).dev = ⟨setWord w.dev.dataBuf 0 (data &&& bitMask 8), 7, 7⟩ := by
    rw [armed, horder]
    rfl
  have hcall : transferBytes h spi w (some [data.setWidth 8]) 1 true =
      (transferOnDevice h (armed spi w data 8),
        firstBytes (transferOnDevice h (armed spi w data 8)).dev.dataBuf 1) :=
    transferBytes_word h spi w hstarted (by simp) (by simp) hword hdev
  rw [spiTransferByteNL, spiTransferBitsNL_eq h spi w data (by decide) (by decide),
    setWidth_bitMask (by decide), hcall, ordered, if_neg (by rw [horder]; decide)]
  dsimp only
  congr 1
  exact (byteOf_firstWord _ (show 0 < 4 by decide)).symm

/-- The low half of a word in the order of a bus. -/
def half (order : BitOrder) (v : BitVec 16) : BitVec 16 :=
  if order = .msbFirst then swap16 v else v

theorem ordered_two (order : BitOrder) (v : BitVec 32) :
    (ordered order 2 v).setWidth 16 = half order (v.setWidth 16) := by
  unfold ordered half reorder
  by_cases horder : order = .msbFirst
  · rw [if_pos horder, if_pos horder, if_pos rfl, BitVec.setWidth_setWidth_of_le _ (by decide),
      BitVec.setWidth_eq]
  · rw [if_neg horder, if_neg horder]

theorem ordered_two_mask (order : BitOrder) (v : BitVec 32) :
    ordered order 2 (v &&& bitMask 16) = (half order (v.setWidth 16)).setWidth 32 := by
  unfold ordered half reorder
  by_cases horder : order = .msbFirst
  · rw [if_pos horder, if_pos horder, if_pos rfl, setWidth_bitMask (by decide)]
  · rw [if_neg horder, if_neg horder, and_bitMask (by decide)]

theorem spiTransferShortNL_eq (w : World σ) (v : BitVec 16) {r : World σ × List Byte}
    (hcall : transferBytes h spi w (some [byteOf (half spi.bitOrder v) 0,
      byteOf (half spi.bitOrder v) 1]) 2 true = r) :
    spiTransferShortNL h spi w v = (r.1, half spi.bitOrder (r.2.getD 1 0 ++ r.2.getD 0 0)) := by
  subst hcall
  rfl

theorem agrees_short (w : World σ) (hstarted : spi.started = true) :
    spiTransferShortNL h spi w (data.setWidth 16) = ((spiTransferBitsNL h spi w data 16).1,
      (spiTransferBitsNL h spi w data 16).2.setWidth 16) := by
  have hword : ∀ k < 4, byteOf ((half spi.bitOrder (data.setWidth 16)).setWidth 32) k =
      [byteOf (half spi.bitOrder (data.setWidth 16)) 0,
        byteOf (half spi.bitOrder (data.setWidth 16)) 1].getD k 0 := by
    intro k hk
    rw [byteOf_setWidth _ (by omega)]
    interval_cases k
    · rfl
    · rfl
    · exact byteOf_behind _ (by omega)
    · exact byteOf_behind _ (by omega)
  have hdev : (armed spi w data 16).dev = ⟨setWord w.dev.dataBuf 0
      ((half spi.bitOrder (data.setWidth 16)).setWidth 32), 15, 15⟩ := by
    rw [← ordered_two_mask]
    rfl
  have hcall : transferBytes h spi w (some [byteOf (half spi.bitOrder (data.setWidth 16)) 0,
        byteOf (half spi.bitOrder (data.setWidth 16)) 1]) 2 true =
      (transferOnDevice h (armed spi w data 16),
        firstBytes (transferOnDevice h (armed spi w data 16)).dev.dataBuf 2) :=
    transferBytes_word h spi w hstarted (by simp) (by simp) hword hdev
  have hlow : ∀ buf : Buffer, (firstWord buf).setWidth 16 = buf 1 ++ buf 0 := by
    intro buf
    apply BitVec.eq_of_getLsbD_eq
    intro i hi
    simp only [firstWord, assemble, BitVec.getLsbD_setWidth, BitVec.getLsbD_append, hi,
      decide_true, Bool.true_and]
    by_cases hlow : i < 8
    · rw [if_pos hlow, if_pos hlow]
    · rw [if_neg hlow, if_neg hlow, if_pos (show i - 8 < 8 by omega)]
  rw [spiTransferBitsNL_eq h spi w data (by decide) (by decide), setWidth_bitMask (by decide)]
  dsimp only
  rw [show byteCount 16 = 2 from rfl, ordered_two, hlow]
  exact spiTransferShortNL_eq h spi w (data.setWidth 16) hcall

theorem spiTransferLongNL_eq (w : World σ) {r : World σ × List Byte}
    (hcall : transferBytes h spi w (some [byteOf (ordered spi.bitOrder 4 data) 0,
      byteOf (ordered spi.bitOrder 4 data) 1, byteOf (ordered spi.bitOrder 4 data) 2,
      byteOf (ordered spi.bitOrder 4 data) 3]) 4 true = r) :
    spiTransferLongNL h spi w data = (r.1, ordered spi.bitOrder 4
      (assemble (r.2.getD 0 0) (r.2.getD 1 0) (r.2.getD 2 0) (r.2.getD 3 0))) := by
  subst hcall
  rfl

theorem agrees_long (w : World σ) (hstarted : spi.started = true) :
    spiTransferLongNL h spi w data = spiTransferBitsNL h spi w data 32 := by
  have hall : ∀ v : BitVec 32, v &&& bitMask 32 = v := by
    intro v
    rw [and_bitMask le_rfl, BitVec.setWidth_eq, BitVec.setWidth_eq]
  have hword : ∀ k < 4, byteOf (ordered spi.bitOrder 4 data) k =
      [byteOf (ordered spi.bitOrder 4 data) 0, byteOf (ordered spi.bitOrder 4 data) 1,
        byteOf (ordered spi.bitOrder 4 data) 2, byteOf (ordered spi.bitOrder 4 data) 3].getD k 0 := by
    intro k hk
    interval_cases k <;> rfl
  have hdev : (armed spi w data 32).dev =
      ⟨setWord w.dev.dataBuf 0 (ordered spi.bitOrder 4 data), 31, 31⟩ := by
    rw [armed, hall]
    rfl
  have hcall : transferBytes h spi w (some [byteOf (ordered spi.bitOrder 4 data) 0,
        byteOf (ordered spi.bitOrder 4 data) 1, byteOf (ordered spi.bitOrder 4 data) 2,
        byteOf (ordered spi.bitOrder 4 data) 3]) 4 true =
      (transferOnDevice h (armed spi w data 32),
        firstBytes (transferOnDevice h (armed spi w data 32)).dev.dataBuf 4) :=
    transferBytes_word h spi w hstarted (by simp) (by simp) hword hdev
  rw [spiTransferBitsNL_eq h spi w data (by decide) (by decide), hall]
  exact spiTransferLongNL_eq h spi data w hcall

theorem Aligned.agrees (w : World σ) (haligned : Aligned spi.bitOrder bits)
    (hstarted : bits = 8 ∨ bits = 16 ∨ bits = 32 → spi.started = true) :
    Agrees h spi w data bits := by
  refine ⟨?_, ?_, ?_⟩
  · intro hbits
    subst hbits
    have horder : spi.bitOrder = .lsbFirst := by
      cases horder : spi.bitOrder with
      | lsbFirst => rfl
      | msbFirst =>
        rw [horder] at haligned
        rcases haligned with hcontra | hcontra | hcontra <;> omega
    exact agrees_byte h spi data w (hstarted (by decide)) horder
  · intro hbits
    subst hbits
    exact agrees_short h spi data w (hstarted (by decide))
  · intro hbits
    subst hbits
    exact agrees_long h spi data w (hstarted (by decide))

end Call

def answering (b : Byte) : Host Unit where
  board := smallBoard
  interface := smallInterface
  behaviour := ⟨fun s bytes _ => (bytes.map fun _ => b, s), by simp⟩
  junk := fun _ => 0

def answerer : Device Unit := ⟨18, 19, 23, true, ()⟩

def quiet : World Unit := ⟨⟨fun _ => 0, 0, 0⟩, [answerer], []⟩

theorem alone_answerer (b : Byte) : Alone (answering b) quiet [] answerer [] := by
  refine ⟨rfl, ⟨⟨?_, rfl⟩, ?_⟩, ⟨⟨?_, rfl⟩, rfl⟩, by simp, by simp⟩
  · rfl
  · rfl
  · rfl

/-- The places of the last bit on the wire in its byte, and in the word of the buffer that becomes
the result. -/
def lastBit (order : BitOrder) (bits : ℕ) : ℕ :=
  if order = .msbFirst then 7 - (bits - 1) % 8 else (bits - 1) % 8

def lastByte (order : BitOrder) (bits : ℕ) : ℕ :=
  if order = .msbFirst then top (byteCount bits) else (bits - 1) / 8

def lastPlace (order : BitOrder) (bits : ℕ) : ℕ :=
  if order = .msbFirst then 0 else (bits - 1) % 8

section Answers

variable {spi : Spi} {data : BitVec 32} {bits : ℕ}

theorem lastByte_lt (order : BitOrder) (hbits : bits ≤ 32) : lastByte order bits < 4 := by
  have htop := top_le (byteCount bits)
  unfold lastByte
  split <;> omega

/-- The last bit of the result as a bit of the buffer. -/
theorem wordBit_last (order : BitOrder) (hpos : 0 < bits) (hbits : bits ≤ 32) (v : BitVec 32) :
    wordBit order bits (ordered order (byteCount bits) v &&& bitMask bits) (bits - 1) =
      (byteOf v (lastByte order bits)).getLsbD (lastPlace order bits) := by
  rw [wordBit_mask hbits (by omega)]
  unfold wordBit lastByte lastPlace
  by_cases horder : order = .msbFirst
  · have hfirst := byteOf_ordered order (byteCount bits) v (Nat.zero_le _)
    rw [partner, if_pos horder, Nat.sub_zero] at hfirst
    rw [if_pos horder, if_pos horder, if_pos horder, Nat.sub_self, ← hfirst, getLsbD_byteOf,
      decide_eq_true (by decide), Bool.true_and]
  · rw [if_neg horder, if_neg horder, if_neg horder, ordered, if_neg horder, getLsbD_byteOf,
      decide_eq_true (by omega), Bool.true_and]
    congr 1
    omega

/-- What the last byte of the buffer holds behind the transfer. -/
def answered (spi : Spi) (data : BitVec 32) (bits : ℕ) (b : Byte) : Byte :=
  if lastByte spi.bitOrder bits < byteCount (bits - 1) then b
  else byteOf (ordered spi.bitOrder (byteCount bits) (data &&& bitMask bits))
    (lastByte spi.bitOrder bits)

theorem result_last (hpos : 0 < bits) (hbits : bits ≤ 32) (b : Byte) :
    wordBit spi.bitOrder bits (spiTransferBitsNL (answering b) spi quiet data bits).2 (bits - 1) =
      (answered spi data bits b).getLsbD (lastPlace spi.bitOrder bits) := by
  have hlast := lastByte_lt spi.bitOrder hbits
  have hlength : (outgoing spi quiet data bits).length = byteCount bits := by
    rw [outgoing, length_firstBytes, Nat.min_eq_left]
    exact (byteCount_le hbits).trans (by decide)
  rw [spiTransferBitsNL_eq _ _ _ _ hpos hbits]
  dsimp only
  rw [wordBit_last _ hpos hbits, byteOf_firstWord _ hlast,
    (alone_answerer b).dataBuf _ spi data hpos hbits hlast]
  unfold answered
  by_cases hreceived : lastByte spi.bitOrder bits < byteCount (bits - 1)
  · have hplace : lastByte spi.bitOrder bits < (outgoing spi quiet data bits).length := by
      rw [hlength]
      unfold byteCount at *
      omega
    rw [if_pos hreceived, if_pos hreceived, List.getD_eq_getElem?_getD]
    simp [answering, hplace]
  · rw [if_neg hreceived, if_neg hreceived]

/-- If the bits are exchanged, then the last one of them is that of the answer. -/
theorem Exchanges.last (h : Exchanges spi data bits) (hpos : 0 < bits) (hbits : bits ≤ 32)
    (b : Byte) :
    b.getLsbD (lastBit spi.bitOrder bits) =
      (answered spi data bits b).getLsbD (lastPlace spi.bitOrder bits) := by
  obtain ⟨⟨bytes, reply, state, hexchange⟩, -⟩ := h Unit (answering b) quiet [] [] answerer
    (alone_answerer b)
  have hwire := hexchange.wire
  rw [spiTransferBitsNL_eq _ _ _ _ hpos hbits] at hwire
  have hbytes : bytes = outgoing spi quiet data bits := by
    have hlist := hwire.symm.trans (transferOnDevice_wire (answering b) spi quiet data hpos)
    simpa using hlist
  have hplace : (bits - 1) / 8 < bytes.length := by
    have hcount := byteCount_le hbits
    rw [hbytes, outgoing, length_firstBytes]
    unfold byteCount at *
    omega
  have hreply : reply = bytes.map fun _ => b := (congrArg Prod.fst hexchange.answer).symm
  have hbit := hexchange.received (bits - 1) (by omega)
  rw [result_last hpos hbits, wireBit, hreply, List.getD_eq_getElem?_getD, List.getElem?_map,
    List.getElem?_eq_getElem hplace] at hbit
  exact hbit

theorem Exchanges.aligned (h : Exchanges spi data bits) (hpos : 0 < bits) (hbits : bits ≤ 32) :
    Aligned spi.bitOrder bits := by
  have hlast := h.last hpos hbits
  by_cases hreceived : lastByte spi.bitOrder bits < byteCount (bits - 1)
  · -- the answer is in the buffer; its lowest bit is the last one of whole bytes only
    have hlow := hlast 1#8
    rw [answered, if_pos hreceived] at hlow
    cases horder : spi.bitOrder with
    | lsbFirst =>
      rw [horder, lastByte, if_neg (by decide)] at hreceived
      change bits % 8 ≠ 1
      unfold byteCount at hreceived
      omega
    | msbFirst =>
      rw [horder, lastByte, if_pos rfl] at hreceived
      rw [horder, lastBit, if_pos rfl, lastPlace, if_pos rfl, BitVec.getLsbD_one,
        BitVec.getLsbD_one] at hlow
      have hplace : 7 - (bits - 1) % 8 = 0 := by simpa using hlow
      change bits = 16 ∨ bits = 24 ∨ bits = 32
      unfold top byteCount at hreceived
      split at hreceived
      · omega
      · split at hreceived <;> omega
  · -- the answer does not reach the last byte
    have hsame : (0x00 : Byte).getLsbD (lastBit spi.bitOrder bits) =
        (0xFF : Byte).getLsbD (lastBit spi.bitOrder bits) := by
      rw [hlast, hlast, answered, answered, if_neg hreceived, if_neg hreceived]
    have hplace : lastBit spi.bitOrder bits < 8 := by
      unfold lastBit
      split <;> omega
    generalize lastBit spi.bitOrder bits = place at hsame hplace
    interval_cases place <;> simp at hsame

theorem transferBytes_stopped {σ : Type} (h : Host σ) (w : World σ) (hstopped : ¬ spi.started = true)
    (input : Option (List Byte)) (length : ℕ) (read : Bool) :
    transferBytes h spi w input length read = (w, []) := if_neg hstopped

theorem Exchanges.started (h : Exchanges spi data bits)
    (hwhole : bits = 8 ∨ bits = 16 ∨ bits = 32) : spi.started = true := by
  by_contra hstopped
  obtain ⟨⟨bytes, reply, state, hexchange⟩, hagrees⟩ := h Unit (answering 0) quiet [] [] answerer
    (alone_answerer 0)
  have hquiet : (spiTransferBitsNL (answering 0) spi quiet data bits).1 = quiet := by
    rcases hwhole with hbits | hbits | hbits
    · have hbyte := congrArg Prod.fst (hagrees.byte hbits)
      rw [spiTransferByteNL, transferBytes_stopped _ _ hstopped] at hbyte
      exact hbyte.symm
    · have hshort := congrArg Prod.fst (hagrees.short hbits)
      simp only [spiTransferShortNL, transferBytes_stopped _ _ hstopped] at hshort
      exact hshort.symm
    · have hlong := congrArg Prod.fst (hagrees.long hbits)
      simp only [spiTransferLongNL, transferBytes_stopped _ _ hstopped] at hlong
      exact hlong.symm
  have hwire := hexchange.wire
  rw [hquiet] at hwire
  exact List.cons_ne_nil _ _ hwire.symm

end Answers

/-- The low bits of the data are exchanged for the device's, as by the calls for whole bytes,
exactly where the bytes lie alike, and for whole bytes the bus is started. -/
theorem spiTransferBitsNL_exchanges (spi : Spi) (data : BitVec 32) {bits : ℕ} (hpos : 0 < bits)
    (hbits : bits ≤ 32) :
    Exchanges spi data bits ↔ Aligned spi.bitOrder bits ∧
      (bits = 8 ∨ bits = 16 ∨ bits = 32 → spi.started = true) := by
  constructor
  · intro h
    exact ⟨h.aligned hpos hbits, h.started⟩
  · rintro ⟨haligned, hstarted⟩ σ h w pre post d halone
    exact ⟨⟨_, _, _, halone.exchange h spi data hpos hbits haligned⟩,
      haligned.agrees h spi data w hstarted⟩

theorem spiTransferBitsNL_exchanges_short : Exchanges ⟨.msbFirst, true⟩ 0xA5C3 16 :=
  (spiTransferBitsNL_exchanges ⟨.msbFirst, true⟩ 0xA5C3 (by decide) (by decide)).mpr
    ⟨Or.inl rfl, fun _ => rfl⟩

/-- Of eight bits on an MSB-first bus none is sent, and the data themselves come back. -/
theorem lost_byte :
    let host : Host (List Byte) := ⟨smallBoard, smallInterface, recorder, fun _ => 0⟩
    let w : World (List Byte) := ⟨⟨fun _ => 0, 0, 0⟩, [speaker], []⟩
    let bits := spiTransferBitsNL host ⟨.msbFirst, true⟩ w 0xA5 8
    let byte := spiTransferByteNL host ⟨.msbFirst, true⟩ w 0xA5
    ¬ Exchanges ⟨.msbFirst, true⟩ 0xA5 8 ∧
      (bits.1.wire, bits.2) = ([([0x00], 8)], 0xA5) ∧
      (byte.1.wire, byte.2) = ([([0xA5], 8)], 0x3C) := by
  refine ⟨?_, by decide +kernel, by decide +kernel⟩
  intro h
  rcases h.aligned (by decide) (by decide) with hcontra | hcontra | hcontra
  · cases hcontra
  · cases hcontra
  · cases hcontra

end RooTesting.SpiBits
