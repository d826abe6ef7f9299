import RooTesting.OneWireCommands
import RooTesting.DiscrepancySearch
import Mathlib.Tactic.IntervalCases

/-! # The search finds every device once

The address bits of the devices form a set of words. A search is a walk through this set,
held by the devices that have not yet been deselected. -/
namespace RooTesting.OneWire

open DiscrepancySearch

def addressBit (a : Address) (i : ℕ) : Bool := (a.toList.getD (i / 8) 0).getLsbD (i % 8)

def word (a : Address) : Word 64 := fun i => addressBit a i

@[simp] theorem word_apply (a : Address) (i : Fin 64) : word a i = addressBit a i := rfl

theorem Rom.getBit_eq (rom : Rom) (i : ℕ) : rom.getBit i = addressBit rom.raw i := by
  have hmod : i &&& 7 = i % 8 := Nat.and_two_pow_sub_one_eq_mod i 3
  simp [Rom.getBit, addressBit, Nat.shiftRight_eq_div_pow, hmod]

theorem word_injective : Function.Injective word := by
  intro a b h
  apply Vector.ext
  intro i hi
  apply BitVec.eq_of_getLsbD_eq
  intro j hj
  have hbit := congrFun h (⟨8 * i + j, by omega⟩ : Fin 64)
  simp only [word_apply, addressBit] at hbit
  rw [show (8 * i + j) / 8 = i by omega, show (8 * i + j) % 8 = j by omega] at hbit
  simpa [hi] using hbit

theorem maskBit {j : ℕ} (b : Byte) (hj : j < 8) :
    decide (0 < b &&& BitVec.twoPow 8 j) = b.getLsbD j := by
  rw [BitVec.and_twoPow]
  cases hbit : b.getLsbD j with
  | false => simp
  | true =>
    interval_cases j <;> decide

/-- The walk stands at address bit `k`. -/
structure At (walk : Walk) (k : ℕ) : Prop where
  number : walk.idBitNumber = k + 1
  byte : walk.romByteNumber = k / 8
  mask : walk.romByteMask = BitVec.twoPow 8 (k % 8)

theorem At.start : At Walk.start 0 := ⟨rfl, rfl, rfl⟩

theorem At.next {walk : Walk} {k : ℕ} (h : At walk k) : At walk.next (k + 1) := by
  have hj : k % 8 < 8 := Nat.mod_lt k (by omega)
  have hnumber : walk.next.idBitNumber = k + 1 + 1 := by rw [← h.number]; rfl
  by_cases hlast : k % 8 = 7
  · have hzero : walk.romByteMask <<< 1 = 0 := by
      rw [h.mask, hlast]
      decide
    constructor
    · exact hnumber
    · simp only [Walk.next, if_pos hzero, h.byte]
      omega
    · rw [show (k + 1) % 8 = 0 by omega]
      simp only [Walk.next, if_pos hzero]
      decide
  · have hmask : walk.romByteMask <<< 1 = BitVec.twoPow 8 (k % 8 + 1) := by
      rw [h.mask]
      generalize k % 8 = j at hj hlast
      interval_cases j <;> decide
    have hne : walk.romByteMask <<< 1 ≠ 0 := by
      rw [hmask]
      generalize k % 8 = j at hj hlast
      interval_cases j <;> first | decide | exact absurd rfl hlast
    constructor
    · exact hnumber
    · simp only [Walk.next, if_neg hne, h.byte]
      omega
    · rw [show (k + 1) % 8 = k % 8 + 1 by omega]
      simp only [Walk.next, if_neg hne]
      exact hmask

theorem At.romByte {walk : Walk} {k : Fin 64} (h : At walk k) (m : Master) :
    decide (0 < m.romByte walk &&& walk.romByteMask) = word m.romNo k := by
  rw [h.mask, maskBit _ (Nat.mod_lt _ (by omega)), Master.romByte, h.byte]
  rfl

theorem At.choose {walk : Walk} {k : Fin 64} (h : At walk k) (m : Master) :
    m.choose walk = direction (word m.romNo) m.lastDiscrepancy k := by
  unfold Master.choose direction
  rw [h.romByte m, h.number]

/-- Setting a bit of the address changes that bit of the word. -/
theorem At.setBit {walk : Walk} {k : Fin 64} (h : At walk k) (m : Master) (b : Bool) :
    Chooses (word m.romNo) k b (word (m.setBit walk b).romNo) := by
  intro i
  have hbyte : k.val / 8 < 8 := by omega
  have hmod : i.val % 8 < 8 := Nat.mod_lt _ (by omega)
  simp only [word_apply, addressBit, Master.setBit, Master.romByte, h.byte, h.mask]
  by_cases hsame : i.val / 8 = k.val / 8
  · by_cases heq : i = k
    · subst heq
      cases b <;> simp [hbyte, hmod]
    · have hne : k.val % 8 ≠ i.val % 8 := by
        intro hmod
        exact heq (Fin.ext (by omega))
      rw [if_neg heq]
      cases b <;> simp [hsame, hbyte, hmod, hne.symm]
  · have heq : i ≠ k := fun heq => hsame (by rw [heq])
    rw [if_neg heq]
    simp [Ne.symm hsame]

namespace Device
variable {σ : Type} (F : Functions σ) (d : Device σ)

def bits : Word 64 := word d.rom.raw

/-- The device takes part in a search, or is out of it. -/
def Listens : Prop :=
  d.state = .inactive ∨ d.state = .romCommandDataExchange ∧ d.romCommand = 0xF0

def answer : Bool × Device σ := if d.state = .inactive then (true, d) else d.sendSearchBit

def answerTo (bit : Bool) : Device σ := if d.state = .inactive then d else d.matchBit bit

variable {d}

theorem Listens.readBit (h : d.Listens) : d.readBit F = some d.answer := by
  rcases h with h | ⟨h, hcommand⟩
  · simp [Device.readBit, answer, h]
  · simp [Device.readBit, answer, h, hcommand]

theorem Listens.writeBit (h : d.Listens) (bit : Bool) :
    d.writeBit F bit = some (d.answerTo bit) := by
  rcases h with h | ⟨h, hcommand⟩
  · simp [Device.writeBit, answerTo, h]
  · simp [Device.writeBit, answerTo, h, hcommand]

theorem Listens.answer (h : d.Listens) : d.answer.2.Listens := by
  rcases h with h | ⟨h, hcommand⟩
  · left
    simp [Device.answer, h]
  · by_cases hlast : d.bitsSent + 1 ≥ 128
    · left
      simp [Device.answer, h, sendSearchBit, hlast]
    · right
      simp [Device.answer, h, sendSearchBit, hlast, hcommand]

@[simp] theorem answer_rom : d.answer.2.rom = d.rom := by
  unfold Device.answer sendSearchBit
  split <;> rfl

@[simp] theorem answerTo_rom (bit : Bool) : (d.answerTo bit).rom = d.rom := by
  unfold answerTo matchBit
  split
  · rfl
  · dsimp only
    split
    · rfl
    · split <;> rfl

/-- After `k` bits of `c`, the device still takes part exactly if its address begins so. -/
def Follows (k : ℕ) (c : Word 64) (d : Device σ) : Prop :=
  (Agree k d.bits c ∧ d.state = .romCommandDataExchange ∧ d.romCommand = 0xF0 ∧
    d.bitsReceived = k ∧ d.bitsSent = 2 * k) ∨ (¬ Agree k d.bits c ∧ d.state = .inactive)

variable {k : Fin 64} {c c' : Word 64}

theorem Follows.listens {k : ℕ} (h : d.Follows k c) : d.Listens := by
  rcases h with ⟨_, hstate, hcommand, _⟩ | ⟨_, hstate⟩
  · exact Or.inr ⟨hstate, hcommand⟩
  · exact Or.inl hstate

/-- The first answer of a device that takes part is its address bit. -/
theorem Follows.answer_first (h : d.Follows k c) :
    d.answer.1 = true ↔ (Agree k d.bits c → d.bits k = true) := by
  rcases h with ⟨hagree, hstate, _, hreceived, hsent⟩ | ⟨hagree, hstate⟩
  · have hbit : d.answer.1 = d.bits k := by
      simp [Device.answer, hstate, sendSearchBit, hreceived, hsent, Rom.getBit_eq, bits]
    rw [hbit]
    exact ⟨fun hone _ => hone, fun hone => hone hagree⟩
  · simp [Device.answer, hstate, hagree]

/-- The second answer is the inverse of the address bit. -/
theorem Follows.answer_second (h : d.Follows k c) :
    d.answer.2.answer.1 = true ↔ (Agree k d.bits c → d.bits k = false) := by
  rcases h with ⟨hagree, hstate, _, hreceived, hsent⟩ | ⟨hagree, hstate⟩
  · have hbit : d.answer.2.answer.1 = !d.bits k := by
      have hlast : ¬ 2 * k.val + 1 ≥ 128 := by omega
      simp [Device.answer, hstate, sendSearchBit, hreceived, hsent, Rom.getBit_eq, bits, hlast]
    rw [hbit, Bool.not_eq_true']
    exact ⟨fun hzero _ => hzero, fun hzero => hzero hagree⟩
  · simp [Device.answer, hstate, hagree]

/-- Between two address bits a device is deselected or goes on. -/
theorem Follows.next {b : Bool} (h : d.Follows k c) (hc : Chooses c k b c')
    (hk : k.val + 1 < 64) : (d.answer.2.answer.2.answerTo b).Follows (k + 1) c' := by
  have hbits : (d.answer.2.answer.2.answerTo b).bits = d.bits := by simp [bits]
  unfold Follows
  rw [hbits, agree_succ, hc.at]
  rcases h with ⟨hagree, hstate, hcommand, hreceived, hsent⟩ | ⟨hagree, hstate⟩
  · have hone : ¬ 2 * k.val + 1 ≥ 128 := by omega
    have htwo : ¬ 2 * k.val + 1 + 1 ≥ 128 := by omega
    have hmore : ¬ k.val + 1 ≥ 64 := by omega
    have hagree' : Agree k d.bits c' := hagree.trans hc.agree
    by_cases hbit : d.bits k = b
    · left
      have haddress : d.rom.getBit k = b := (Rom.getBit_eq d.rom k).trans hbit
      refine ⟨⟨hagree', hbit⟩, ?_⟩
      simp [Device.answer, answerTo, matchBit, hstate, sendSearchBit, hreceived, hsent, hone, htwo,
        haddress, hmore, hcommand]
      omega
    · right
      have haddress : d.rom.getBit k ≠ b := by
        rw [Rom.getBit_eq]
        exact hbit
      refine ⟨fun hboth => hbit hboth.2, ?_⟩
      simp [Device.answer, answerTo, matchBit, hstate, sendSearchBit, hreceived, hsent, hone, htwo,
        haddress]
  · right
    refine ⟨fun hboth => hagree (hboth.1.trans hc.agree.symm), ?_⟩
    simp [Device.answer, answerTo, hstate]

end Device

variable {σ : Type} {F : Functions σ}

theorem readDevices_listens {ds : List (Device σ)} (h : ∀ d ∈ ds, d.Listens) :
    Bus.readDevices F ds = some (ds.all fun d => d.answer.1, ds.map fun d => d.answer.2) := by
  induction ds with
  | nil => rfl
  | cons d ds ih =>
    simp [Bus.readDevices, (h d List.mem_cons_self).readBit F,
      ih fun e he => h e (List.mem_cons_of_mem _ he)]

theorem writeDevices_listens {ds : List (Device σ)} (bit : Bool) (h : ∀ d ∈ ds, d.Listens) :
    Bus.writeDevices F bit ds = some (ds.map fun d => d.answerTo bit) := by
  induction ds with
  | nil => rfl
  | cons d ds ih =>
    simp [Bus.writeDevices, (h d List.mem_cons_self).writeBit F bit,
      ih fun e he => h e (List.mem_cons_of_mem _ he)]

/-- The address words on a bus. -/
def Bus.words (bus : Bus σ) : Finset (Word 64) := (bus.devices.map Device.bits).toFinset

theorem Bus.mem_words {bus : Bus σ} {v : Word 64} :
    v ∈ bus.words ↔ ∃ d ∈ bus.devices, d.bits = v := by
  simp [Bus.words]

theorem Bus.words_congr {bus bus' : Bus σ}
    (h : bus'.devices.map Device.rom = bus.devices.map Device.rom) : bus'.words = bus.words := by
  have hbits : ∀ b : Bus σ, b.devices.map Device.bits =
      (b.devices.map Device.rom).map fun rom => word rom.raw := by
    intro b
    simp [Device.bits, Function.comp_def]
  rw [Bus.words, Bus.words, hbits, hbits, h]

/-- A search in which `k` bits are chosen. -/
structure Searching (A : Finset (Word 64)) (w : Word 64) (mark k : ℕ) (m : Master) (walk : Walk)
    (bus : Bus σ) : Prop where
  place : At walk k
  words : bus.words = A
  mark_eq : m.lastDiscrepancy = mark
  walked : Walked A w mark (word m.romNo) k walk.lastZero
  follows : k < 64 → ∀ d ∈ bus.devices, d.Follows k (word m.romNo)

variable {A : Finset (Word 64)} {w : Word 64} {mark : ℕ} {m : Master} {walk : Walk} {bus : Bus σ}

theorem Searching.direction {k : Fin 64} (h : Searching A w mark k m walk bus) :
    m.choose walk = direction w mark k := by
  rw [h.place.choose m, h.mark_eq, DiscrepancySearch.direction, DiscrepancySearch.direction,
    h.walked.rest k le_rfl]

/-- The notes of a decision leave the address and the marks alone. -/
theorem Master.decideDirection_keeps (m : Master) (walk : Walk) (idBit cmpIdBit : Bool) :
    (m.decideDirection walk idBit cmpIdBit).2.1.romNo = m.romNo ∧
    (m.decideDirection walk idBit cmpIdBit).2.1.lastDiscrepancy = m.lastDiscrepancy ∧
    (m.decideDirection walk idBit cmpIdBit).2.1.lastDeviceFlag = m.lastDeviceFlag := by
  unfold Master.decideDirection Master.recordZero
  split
  · exact ⟨rfl, rfl, rfl⟩
  · split
    · exact ⟨rfl, rfl, rfl⟩
    · exact ⟨rfl, rfl, rfl⟩

theorem At.decideDirection {k : ℕ} (h : At walk k) (m : Master) (idBit cmpIdBit : Bool) :
    At (m.decideDirection walk idBit cmpIdBit).2.2 k := by
  unfold Master.decideDirection Master.recordZero
  split
  · exact h
  · split
    · exact h
    · exact ⟨h.number, h.byte, h.mask⟩

/-- The decision taken from the two bits is a step of the walk. -/
theorem Searching.decide {k : Fin 64} (h : Searching A w mark k m walk bus) {idBit cmpIdBit : Bool}
    (hid : idBit = true ↔ ∀ v ∈ A, Agree k v (word m.romNo) → v k = true)
    (hcmp : cmpIdBit = true ↔ ∀ v ∈ A, Agree k v (word m.romNo) → v k = false)
    {d : Word 64}
    (hc : Chooses (word m.romNo) k (m.decideDirection walk idBit cmpIdBit).1 d) :
    Walked A w mark d (k + 1) (m.decideDirection walk idBit cmpIdBit).2.2.lastZero := by
  obtain ⟨v, hv, hagree⟩ := h.walked.inhabited
  unfold Master.decideDirection at hc ⊢
  by_cases hcommon : idBit ≠ cmpIdBit
  · rw [if_pos hcommon] at hc ⊢
    apply h.walked.common _ hc
    cases hbit : idBit with
    | true => exact hid.mp hbit
    | false =>
      apply hcmp.mp
      rw [hbit] at hcommon
      simpa using hcommon.symm
  · rw [if_neg hcommon] at hc ⊢
    have hsame : idBit = cmpIdBit := not_not.mp hcommon
    have hlow : idBit = false := by
      cases hbit : idBit with
      | false => rfl
      | true =>
        have hone := hid.mp hbit v hv hagree
        have hzero := hcmp.mp (hsame.symm.trans hbit) v hv hagree
        rw [hone] at hzero
        cases hzero
    have hzero : ∃ v ∈ A, Agree k v (word m.romNo) ∧ v k = false := by
      have := mt hid.mpr (by rw [hlow]; decide)
      simpa using this
    have hone : ∃ v ∈ A, Agree k v (word m.romNo) ∧ v k = true := by
      have := mt hcmp.mpr (by rw [← hsame, hlow]; decide)
      simpa using this
    cases hchoose : m.choose walk with
    | true =>
      simp only [hchoose, if_true] at hc ⊢
      exact h.walked.discrepancy hzero hone (hchoose.symm.trans h.direction) hc
    | false =>
      simp only [hchoose, Bool.false_eq_true, if_false] at hc ⊢
      have := h.walked.discrepancy hzero hone (hchoose.symm.trans h.direction) hc
      rw [Master.recordZero, h.place.number]
      exact this

/-- The two bits read say whether all words that share the chosen bits go on with a one, and
whether all go on with a zero. -/
theorem Searching.read {k : Fin 64} (F : Functions σ) (h : Searching A w mark k m walk bus) :
    ∃ idBit cmpIdBit bus₁ bus₂, bus.readBit F = some (idBit, bus₁) ∧
      bus₁.readBit F = some (cmpIdBit, bus₂) ∧
      (idBit = true ↔ ∀ v ∈ A, Agree k v (word m.romNo) → v k = true) ∧
      (cmpIdBit = true ↔ ∀ v ∈ A, Agree k v (word m.romNo) → v k = false) ∧
      bus₂.devices = bus.devices.map fun d => d.answer.2.answer.2 := by
  have hfollows := h.follows k.isLt
  have hlisten : ∀ d ∈ bus.devices, d.Listens := fun d hd => (hfollows d hd).listens
  obtain ⟨bus₁, hread₁, hdevices₁⟩ := Bus.readBit_eq (readDevices_listens (F := F) hlisten)
  have hlisten₁ : ∀ d ∈ bus₁.devices, d.Listens := by
    rw [hdevices₁]
    intro d hd
    obtain ⟨e, he, rfl⟩ := List.mem_map.mp hd
    exact (hlisten e he).answer
  obtain ⟨bus₂, hread₂, hdevices₂⟩ := Bus.readBit_eq (readDevices_listens (F := F) hlisten₁)
  refine ⟨_, _, bus₁, bus₂, hread₁, hread₂, ?_, ?_, ?_⟩
  · rw [List.all_eq_true, ← h.words]
    constructor
    · intro hall v hv
      obtain ⟨d, hd, rfl⟩ := Bus.mem_words.mp hv
      exact (hfollows d hd).answer_first.mp (hall d hd)
    · intro hall d hd
      exact (hfollows d hd).answer_first.mpr (hall _ (Bus.mem_words.mpr ⟨d, hd, rfl⟩))
  · rw [hdevices₁, List.all_map, List.all_eq_true, ← h.words]
    constructor
    · intro hall v hv
      obtain ⟨d, hd, rfl⟩ := Bus.mem_words.mp hv
      exact (hfollows d hd).answer_second.mp (hall d hd)
    · intro hall d hd
      exact (hfollows d hd).answer_second.mpr (hall _ (Bus.mem_words.mpr ⟨d, hd, rfl⟩))
  · rw [hdevices₂, hdevices₁, List.map_map]
    rfl

/-- One turn of the loop chooses one bit more. -/
theorem Searching.round {k : Fin 64} (F : Functions σ) (h : Searching A w mark k m walk bus) :
    ∃ m' walk' bus', m.searchRound F walk bus = some (true, m', walk', bus') ∧
      Searching A w mark (k + 1) m' walk' bus' ∧ m'.lastDeviceFlag = m.lastDeviceFlag ∧
      bus'.devices.map Device.rom = bus.devices.map Device.rom := by
  have hfollows := h.follows k.isLt
  obtain ⟨idBit, cmpIdBit, bus₁, bus₂, hread₁, hread₂, hid, hcmp, hdevices₂⟩ := h.read F
  have hanswered : (idBit && cmpIdBit) = false := by
    obtain ⟨v, hv, hagree⟩ := h.walked.inhabited
    rw [Bool.and_eq_false_iff]
    by_contra hboth
    rw [not_or, Bool.not_eq_false, Bool.not_eq_false] at hboth
    have hone := hid.mp hboth.1 v hv hagree
    rw [hcmp.mp hboth.2 v hv hagree] at hone
    cases hone
  have hplace := h.place.decideDirection m idBit cmpIdBit
  have hkeeps := m.decideDirection_keeps walk idBit cmpIdBit
  have hdecide := fun c' => h.decide hid hcmp (d := c')
  generalize hdecision : m.decideDirection walk idBit cmpIdBit = decision at *
  obtain ⟨direction, m₁, walk₁⟩ := decision
  obtain ⟨hrom, hmark, hflag⟩ := hkeeps
  dsimp only at hplace hrom hmark hflag hdecide
  have hchooses := hplace.setBit m₁ direction
  rw [hrom] at hchooses
  have hlisten₂ : ∀ d ∈ bus₂.devices, d.Listens := by
    rw [hdevices₂]
    intro d hd
    obtain ⟨e, he, rfl⟩ := List.mem_map.mp hd
    exact (hfollows e he).listens.answer.answer
  obtain ⟨bus₃, hwrite, hdevices₃⟩ :=
    Bus.writeBit_eq (writeDevices_listens (F := F) direction hlisten₂)
  rw [hdevices₂, List.map_map] at hdevices₃
  have hroms : bus₃.devices.map Device.rom = bus.devices.map Device.rom := by
    rw [hdevices₃]
    simp [Function.comp_def]
  refine ⟨m₁.setBit walk₁ direction, walk₁.next, bus₃, ?_, ?_, hflag, hroms⟩
  · simp only [Master.searchRound, hread₁, Option.bind_eq_bind, Option.bind_some, hread₂,
      hanswered, Bool.false_eq_true, if_false, hdecision, hwrite]
  · constructor
    · exact hplace.next
    · rw [Bus.words_congr hroms]
      exact h.words
    · exact hmark.trans h.mark_eq
    · exact hdecide _ hchooses
    · intro hk d hd
      rw [hdevices₃] at hd
      obtain ⟨e, he, rfl⟩ := List.mem_map.mp hd
      exact (hfollows e he).next hchooses hk

/-- The loop, by induction on the bits that are left. -/
theorem Searching.loop (F : Functions σ) {fuel k : ℕ} (hfuel : fuel ≠ 0)
    (hk : k + fuel = 64) (h : Searching A w mark k m walk bus) :
    ∃ m' walk' bus', Master.searchLoop F fuel m walk bus = some (m', walk', bus') ∧
      Searching A w mark 64 m' walk' bus' ∧ m'.lastDeviceFlag = m.lastDeviceFlag ∧
      bus'.devices.map Device.rom = bus.devices.map Device.rom := by
  induction fuel generalizing k m walk bus with
  | zero => exact absurd rfl hfuel
  | succ fuel ih =>
    obtain ⟨m₁, walk₁, bus₁, hround, hsearch, hflag, hroms⟩ :=
      Searching.round (k := ⟨k, by omega⟩) F h
    dsimp only at hsearch
    simp only [Master.searchLoop, hround, Option.bind_eq_bind, Option.bind_some, true_and]
    by_cases hlast : fuel = 0
    · subst hlast
      obtain rfl : k = 63 := by omega
      rw [if_neg (by rw [hsearch.place.byte]; decide)]
      exact ⟨m₁, walk₁, bus₁, rfl, hsearch, hflag, hroms⟩
    · rw [if_pos (by rw [hsearch.place.byte]; omega)]
      obtain ⟨m₂, walk₂, bus₂, hloop, hsearch₂, hflag₂, hroms₂⟩ :=
        ih hlast (by omega) hsearch
      exact ⟨m₂, walk₂, bus₂, hloop, hsearch₂, hflag₂.trans hflag, hroms₂.trans hroms⟩

/-- A device that has received `i` bits of the search command after a reset. -/
def Device.Heard (i : ℕ) (d : Device σ) : Prop :=
  d.bitsSent = 0 ∧ d.romCommand = (0xF0 : Byte) <<< (8 - i) ∧
    (i < 8 ∧ d.state = .romCommand ∧ d.bitsReceived = i ∨
      i = 8 ∧ d.state = .romCommandDataExchange ∧ d.bitsReceived = 0)

theorem Device.Receives.heard {d : Device σ} (h : d.Receives 0xF0 8) : d.Heard 8 := h

/-- What one search finds: a word of the bus, reached along the rule from the address and the
mark of the search before it. -/
structure Found (m : Master) (bus : Bus σ) (m' : Master) (bus' : Bus σ) : Prop where
  roms : bus'.devices.map Device.rom = bus.devices.map Device.rom
  word_mem : word m'.romNo ∈ bus.words
  answers : Answers bus.words (word m.romNo) m.lastDiscrepancy (word m'.romNo)
  lastZero : LastZero bus.words (word m'.romNo) 64 m'.lastDiscrepancy
  flag : m'.lastDeviceFlag = decide (m'.lastDiscrepancy = 0)

theorem Found.devices_ne_nil {m' : Master} {bus' : Bus σ} (h : Found m bus m' bus')
    (hne : bus.devices ≠ []) : bus'.devices ≠ [] := by
  intro hnil
  have hroms := h.roms
  rw [hnil] at hroms
  exact hne (List.map_eq_nil_iff.mp hroms.symm)

theorem Found.family {m' : Master} {bus' : Bus σ} (h : Found m bus m' bus')
    (hfamily : ∀ d ∈ bus.devices, d.rom.model ≠ 0) : ∀ d ∈ bus'.devices, d.rom.model ≠ 0 := by
  intro d hd
  have hrom : d.rom ∈ bus.devices.map Device.rom := h.roms ▸ List.mem_map_of_mem hd
  obtain ⟨e, he, heq⟩ := List.mem_map.mp hrom
  rw [← heq]
  exact hfamily e he

theorem Searching.start {bus₁ : Bus σ} (m : Master) (hne : bus₁.devices ≠ [])
    (hheard : ∀ d ∈ bus₁.devices, d.Heard 8) :
    Searching bus₁.words (word m.romNo) m.lastDiscrepancy 0 m Walk.start bus₁ := by
  constructor
  · exact At.start
  · rfl
  · rfl
  · apply Walked.start
    obtain ⟨d, hd⟩ := List.exists_mem_of_ne_nil _ hne
    exact ⟨d.bits, Bus.mem_words.mpr ⟨d, hd, rfl⟩⟩
  · intro _ d hd
    obtain ⟨hsent, hcommand, ⟨hlt, _⟩ | ⟨_, hstate, hreceived⟩⟩ := hheard d hd
    · omega
    · exact Or.inl ⟨fun i hi => absurd hi (Nat.not_lt_zero _), hstate, hcommand, hreceived, hsent⟩

/-- A search finds an address as long as the last one has not been found. -/
theorem search_found (F : Functions σ) (hne : bus.devices ≠ [])
    (hfamily : ∀ d ∈ bus.devices, d.rom.model ≠ 0) (hflag : m.lastDeviceFlag = false) :
    ∃ m' bus', m.search F true bus = some (some m'.romNo, m', bus') ∧ Found m bus m' bus' := by
  have hpresent : (!bus.reset.1) = false := by simp [Bus.reset, hne]
  obtain ⟨bus₁, hwrite, hroms, hreceives⟩ := writeByte_receives F 0xF0 bus
  have hheard : ∀ d ∈ bus₁.devices, d.Heard 8 := fun d hd => (hreceives d hd).heard
  have hne₁ : bus₁.devices ≠ [] := by
    intro hnil
    rw [hnil] at hroms
    exact hne (List.map_eq_nil_iff.mp hroms.symm)
  obtain ⟨m₁, walk₁, bus₂, hloop, hsearch, hflag₁, hroms₂⟩ :=
    (Searching.start m hne₁ hheard).loop F (Nat.succ_ne_zero 63) rfl
  obtain ⟨hmem, hanswers, hzero⟩ := hsearch.walked.found
  rw [Bus.words_congr hroms] at hmem hanswers hzero
  have hfamily₁ : (m₁.recordLast walk₁).romNo[0] ≠ 0 := by
    obtain ⟨d, hd, hbits⟩ := Bus.mem_words.mp hmem
    change m₁.romNo[0] ≠ 0
    rw [← word_injective hbits]
    exact hfamily d hd
  refine ⟨m₁.recordLast walk₁, bus₂, ?_, hroms₂.trans hroms, hmem, hanswers, hzero, ?_⟩
  · have hnumber : ¬ walk₁.idBitNumber < 65 := by
      rw [hsearch.place.number]
      omega
    have hfinish : (m₁.recordLast walk₁).finish true =
        (some (m₁.recordLast walk₁).romNo, m₁.recordLast walk₁) := by
      rw [Master.finish, if_neg (by simpa using hfamily₁)]
    change Master.searchLoop F 64 m Walk.start bus₁ = _ at hloop
    simp only [Master.search, hflag, hpresent, Bool.false_eq_true, if_false, if_true,
      Option.bind_eq_bind, hwrite, hloop, Option.bind_some, if_pos hnumber, hfinish]
  · by_cases hlast : walk₁.lastZero = 0
    · simp [Master.recordLast, hlast]
    · simp [Master.recordLast, hlast, hflag₁, hflag]

/-- After the last address a search reports the end. -/
theorem search_finished (F : Functions σ) (bus : Bus σ) (hflag : m.lastDeviceFlag = true) :
    m.search F true bus = some (none, m.resetCounters, bus) := by
  simp [Master.search, hflag, Master.finish]

/-- From an address found, the searches find the words behind it, and then report the end. -/
theorem searches_rest (F : Functions σ) (hne : bus.devices ≠ [])
    (hfamily : ∀ d ∈ bus.devices, d.rom.model ≠ 0) (hmem : word m.romNo ∈ bus.words)
    (hzero : LastZero bus.words (word m.romNo) 64 m.lastDiscrepancy)
    (hflag : m.lastDeviceFlag = decide (m.lastDiscrepancy = 0)) {l r : List (Lex (Word 64))}
    (hsplit : inOrder bus.words = l ++ toLex (word m.romNo) :: r) :
    ∃ (found : List Address) (m' : Master) (bus' : Bus σ),
      Master.searches F (r.length + 1) m bus = some (found.map some ++ [none], m', bus') ∧
      found.map (fun a => toLex (word a)) = r := by
  induction r generalizing m bus l with
  | nil =>
    have hmark : m.lastDiscrepancy = 0 := (hzero.eq_zero_iff hsplit).mpr rfl
    refine ⟨[], m.resetCounters, bus, ?_, rfl⟩
    have hdone := search_finished F bus (hflag.trans (by simp [hmark]))
    simp [Master.searches, hdone]
  | cons v r ih =>
    have hmark : m.lastDiscrepancy ≠ 0 := mt (hzero.eq_zero_iff hsplit).mp (by simp)
    obtain ⟨m₁, bus₁, hsearch, hfound⟩ :=
      search_found F hne hfamily (hflag.trans (by simp [hmark]))
    have hnext := hfound.answers.next_inOrder hmem hzero hmark hfound.word_mem hsplit
    have hwords := Bus.words_congr hfound.roms
    obtain ⟨found, m₂, bus₂, hrest, hmap⟩ := ih (m := m₁)
      (l := l ++ [toLex (word m.romNo)]) (hfound.devices_ne_nil hne) (hfound.family hfamily)
      (hwords ▸ hfound.word_mem) (hwords ▸ hfound.lastZero) hfound.flag
      (by rw [hwords, hsplit, hnext, List.append_assoc, List.singleton_append])
    refine ⟨m₁.romNo :: found, m₂, bus₂, ?_, ?_⟩
    · rw [List.length_cons, Master.searches, hsearch]
      simp [hrest]
    · rw [List.map_cons, hnext, hmap]

/-- From a reset of the search state, the searches find all words of the bus in their order. -/
theorem searches_all (F : Functions σ) (m : Master) (hne : bus.devices ≠ [])
    (hfamily : ∀ d ∈ bus.devices, d.rom.model ≠ 0) :
    ∃ (found : List Address) (m' : Master) (bus' : Bus σ),
      Master.searches F ((inOrder bus.words).length + 1) m.resetSearch bus =
        some (found.map some ++ [none], m', bus') ∧
      found.map (fun a => toLex (word a)) = inOrder bus.words := by
  obtain ⟨m₁, bus₁, hsearch, hfound⟩ := search_found F hne hfamily (m := m.resetSearch) rfl
  obtain ⟨r, hsplit⟩ := Answers.least_inOrder hfound.answers hfound.word_mem
  have hwords := Bus.words_congr hfound.roms
  obtain ⟨found, m₂, bus₂, hrest, hmap⟩ := searches_rest F (m := m₁) (l := [])
    (hfound.devices_ne_nil hne) (hfound.family hfamily) (hwords ▸ hfound.word_mem)
    (hwords ▸ hfound.lastZero) hfound.flag (by rw [hwords, hsplit, List.nil_append])
  refine ⟨m₁.romNo :: found, m₂, bus₂, ?_, ?_⟩
  · rw [hsplit, List.length_cons, Master.searches, hsearch]
    simp [hrest]
  · rw [List.map_cons, hmap, hsplit]

/-- The addresses of a bus differ, as the serial numbers do. -/
theorem Bus.raw_nodup (bus : Bus σ) : (bus.devices.map fun d => d.rom.raw).Nodup := by
  have hserial := bus.ordered
  rw [List.pairwise_map] at hserial
  rw [List.Nodup, List.pairwise_map]
  apply hserial.imp
  intro d e hlt heq
  have hsame : d.rom.serial = e.rom.serial := by simp only [Rom.serial, heq]
  rw [hsame] at hlt
  exact absurd hlt (by simp)

theorem Bus.inOrder_words (bus : Bus σ) :
    (inOrder bus.words).Perm (bus.devices.map fun d => toLex (word d.rom.raw)) := by
  have hinjective : Function.Injective fun a : Address => toLex (word a) :=
    fun a b h => word_injective (toLex.injective h)
  have hnodup : (bus.devices.map fun d => toLex (word d.rom.raw)).Nodup := by
    have := bus.raw_nodup.map hinjective
    rwa [List.map_map] at this
  apply (List.perm_ext_iff_of_nodup (inOrder_nodup _) hnodup).mpr
  intro v
  rw [← toLex_ofLex v, mem_inOrder, Bus.mem_words, List.mem_map]
  exact Iff.rfl

/-- **Whatever the state of the master and of the devices, after a reset of the search state
repeated searches return every attached address once and then report the end.** -/
theorem search_complete (F : Functions σ) (m : Master) (bus : Bus σ) (hne : bus.devices ≠ [])
    (hfamily : ∀ d ∈ bus.devices, d.rom.model ≠ 0) :
    ∃ (found : List Address) (m' : Master) (bus' : Bus σ),
      Master.searches F (bus.devices.length + 1) m.resetSearch bus =
        some (found.map some ++ [none], m', bus') ∧
      found.Perm (bus.devices.map fun d => d.rom.raw) ∧
      ∀ a ∈ found, a[7] = crc8 (a.toList.take 7) := by
  obtain ⟨found, m', bus', hsearches, hmap⟩ := searches_all F m hne hfamily
  have hwords := bus.inOrder_words
  have hlength : (inOrder bus.words).length = bus.devices.length := by
    rw [hwords.length_eq, List.length_map]
  have hperm : found.Perm (bus.devices.map fun d => d.rom.raw) := by
    have hinjective : Function.Injective fun a : Address => toLex (word a) :=
      fun a b h => word_injective (toLex.injective h)
    apply (List.map_perm_map_iff hinjective).mp
    rw [hmap, List.map_map]
    exact hwords
  refine ⟨found, m', bus', hlength ▸ hsearches, hperm, ?_⟩
  intro a ha
  obtain ⟨d, _, rfl⟩ := List.mem_map.mp (hperm.mem_iff.mp ha)
  exact d.rom.checked

def noFunctions : Functions Unit where
  startFunctionCommand := fun _ _ _ own => some own
  writeFunctionBit := fun _ _ _ _ own => some own
  readFunctionBit := fun _ _ _ own => some (true, own)

/-- A device as it is built: its bus state is not set before the first reset. -/
def builtDevice (model : Byte) (serial : BitVec 64) : Device Unit where
  rom := Rom.ofSerial model serial
  state := .functionCommand
  bitsReceived := 5
  bitsSent := 200
  romCommand := 0x12
  functionCommand := 0x34
  own := ()

theorem search_complete_three :
    ∃ (found : List Address) (m' : Master) (bus' : Bus Unit),
      Master.searches noFunctions 4
        (Master.resetSearch ⟨Vector.replicate 8 0xA5, 17, 3, true⟩)
        (Bus.interface [builtDevice 0x28 5, builtDevice 0x10 1, builtDevice 0x28 4]) =
          some (found.map some ++ [none], m', bus') ∧
      found.Perm ((Bus.interface [builtDevice 0x28 5, builtDevice 0x10 1,
        builtDevice 0x28 4]).devices.map fun d => d.rom.raw) ∧
      ∀ a ∈ found, a[7] = crc8 (a.toList.take 7) :=
  search_complete noFunctions ⟨Vector.replicate 8 0xA5, 17, 3, true⟩
    (Bus.interface [builtDevice 0x28 5, builtDevice 0x10 1, builtDevice 0x28 4])
    (by decide) (by decide)

end RooTesting.OneWire
