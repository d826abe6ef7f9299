import RooTesting.Transition
import Mathlib.Algebra.Group.Nat.Defs
import Mathlib.Data.Int.Notation
import Mathlib.Tactic.Cases

/-! # The buffer of the Pico Wire

One buffer and two indices serve what is sent and what is received. What a caller may still read is
kept beside them: the bytes of a request, or those of a transmission that ended in a timeout. -/
namespace RooTesting.WireBuffer
open Transition

/-- How a transfer ends below Wire. -/
inductive Status
  | ok
  | timeout
  | failed
  deriving DecidableEq

inductive Reception
  | received (bytes : List UInt8)
  | timeout
  | failed
  deriving DecidableEq

def Reception.bytes : Reception → List UInt8
  | .received bytes => bytes
  | _ => []

/-- A byte returned as an `int`. -/
def byteInt (byte : UInt8) : ℤ := byte.toNat

structure Wire where
  running : Bool := false
  txBegun : Bool := false
  timeoutFlag : Bool := false
  resetWithTimeout : Bool := false
  buff : List UInt8
  buffLen : ℕ := 0
  buffOff : ℕ := 0
  deriving DecidableEq

namespace Wire

variable (w : Wire)

/-- `begin`: the indices are reset, unless Wire is running. -/
def wireBegin : Wire :=
  if w.running then w
  else { w with running := true, txBegun := false, buffLen := 0, buffOff := 0 }

def wireEnd : Wire :=
  if w.running then { w with running := false, txBegun := false, buffLen := 0, buffOff := 0 } else w

/-- `WIRE_BUFFER_SIZE_MIN` and a size cut to `int`. -/
def requestedSize (size : ℕ) : ℕ := (max 32 (Int.bmod size (2 ^ 32))).toNat

/-- `realloc` may fail; what it adds is not told. -/
def setBufferSize (size : ℕ) (allocated : Bool) : Wire × ℕ :=
  if w.running ∨ size = w.buff.length ∨ allocated = false then (w, w.buff.length)
  else
    let requested := requestedSize size
    let buffer := w.buff.take requested ++ List.replicate (requested - w.buff.length) 0
    ({ w with buff := buffer }, buffer.length)

def setTimeout (reset : Bool) : Wire := { w with resetWithTimeout := reset }

def beginTransmission : Wire :=
  if w.running = false ∨ w.txBegun then w
  else { w with txBegun := true, buffLen := 0, buffOff := 0 }

def write (bytes : List UInt8) : Wire × ℕ :=
  if w.running = false ∨ w.txBegun = false then (w, 0)
  else
    let written := min bytes.length (w.buff.length - w.buffLen)
    ({ w with
        buff := w.buff.take w.buffLen ++ bytes.take written ++ w.buff.drop (w.buffLen + written)
        buffLen := w.buffLen + written }, written)

/-- The restart of `_reset_with_timeout`. -/
def timedOut : Wire :=
  let w := { w with timeoutFlag := true }
  if w.resetWithTimeout then w.wireEnd.wireBegin else w

/-- An empty transmission is a probe, whose timeout is not Wire's. -/
def endTransmission (status : Status) : Wire × ℕ :=
  if w.running = false ∨ w.txBegun = false then (w, 4)
  else
    let w := { w with txBegun := false }
    if w.buffLen = 0 then (w, if status = .ok then 0 else 2)
    else
      match status with
      | .timeout => (w.timedOut, 5)
      | .ok => ({ w with buffLen := 0 }, 0)
      | .failed => ({ w with buffLen := 0 }, 4)

def acceptsRequest (size : ℕ) : Bool :=
  w.running && !w.txBegun && size ≠ 0 && decide (size ≤ w.buff.length)

def requestFrom (size : ℕ) (reception : Reception) : Wire × ℕ :=
  if w.acceptsRequest size = false then (w, 0)
  else
    let w := { w with buffLen := 0, buffOff := 0 }
    match reception with
    | .received bytes =>
        ({ w with buff := bytes ++ w.buff.drop bytes.length, buffLen := bytes.length },
          bytes.length)
    | .timeout => (w.timedOut, w.timedOut.buffLen)
    | .failed => (w, w.buffLen)

def available : ℤ := if w.running then (w.buffLen : ℤ) - w.buffOff else 0

/-- The byte at the offset, or -1. -/
def peek : ℤ :=
  if w.running ∧ w.buffOff < w.buffLen then byteInt (w.buff.getD w.buffOff 0) else -1

def read : Wire × ℤ :=
  (if w.running ∧ w.buffOff < w.buffLen then { w with buffOff := w.buffOff + 1 } else w, w.peek)

end Wire

/-- A call, with what the transfers below it come to. -/
inductive Call
  | wireBegin
  | wireEnd
  | setBufferSize (size : ℕ) (allocated : Bool)
  | setTimeout (reset : Bool)
  | beginTransmission
  | write (bytes : List UInt8)
  | endTransmission (status : Status)
  | requestFrom (size : ℕ) (reception : Reception)
  | read
  | peek
  | available
  deriving DecidableEq

/-- Wire, and the bytes that were requested or written and are neither read nor superseded. -/
structure State where
  wire : Wire
  unread : List UInt8
  deriving DecidableEq

def Wire.call (w : Wire) : Call → Wire
  | .wireBegin => w.wireBegin
  | .wireEnd => w.wireEnd
  | .setBufferSize size allocated => (w.setBufferSize size allocated).1
  | .setTimeout reset => w.setTimeout reset
  | .beginTransmission => w.beginTransmission
  | .write bytes => (w.write bytes).1
  | .endTransmission status => (w.endTransmission status).1
  | .requestFrom size reception => (w.requestFrom size reception).1
  | .read => w.read.1
  | .peek => w
  | .available => w

/-- What a caller may expect to read: calls that Wire turns away supersede nothing, and a timeout
without a restart leaves what was written. -/
def unreadAfter (w : Wire) (unread : List UInt8) : Call → List UInt8
  | .wireBegin => if w.running then unread else []
  | .wireEnd => if w.running then [] else unread
  | .beginTransmission => if w.running ∧ w.txBegun = false then [] else unread
  | .write bytes => unread ++ bytes.take (w.write bytes).2
  | .endTransmission status =>
      if w.running ∧ w.txBegun ∧ ¬(status = .timeout ∧ w.resetWithTimeout = false) then []
      else unread
  | .requestFrom size reception => if w.acceptsRequest size then reception.bytes else unread
  | .read => if w.running then unread.tail else unread
  | _ => unread

/-- A transfer that succeeds has received what was asked for. -/
def Call.possible : Call → Bool
  | .requestFrom size (.received bytes) => bytes.length = size
  | _ => true

def step (s : State) (call : Call) : Option State :=
  if call.possible then some ⟨s.wire.call call, unreadAfter s.wire s.unread call⟩ else none

/-- `WIRE_BUFFER_SIZE`, as the constructor leaves it. -/
def start (buff : List UInt8) : State := ⟨{ buff := buff }, []⟩

/-- The bytes between the indices. -/
def Wire.remaining (w : Wire) : List UInt8 := (w.buff.take w.buffLen).drop w.buffOff

/-- What a number of reads in a row return. -/
def Wire.reads : ℕ → Wire → List ℤ
  | 0, _ => []
  | n + 1, w => w.read.2 :: reads n w.read.1

/-- The indices are in order, and what is left to read is between them. -/
structure Sound (s : State) : Prop where
  offset : s.wire.buffOff ≤ s.wire.buffLen
  length : s.wire.buffLen ≤ s.wire.buff.length
  contents : s.wire.remaining = s.unread

/-- What every call keeps. -/
structure Inv (s : State) : Prop where
  length : s.wire.buffLen ≤ s.wire.buff.length
  stopped : s.wire.running = false →
    s.wire.buffLen = 0 ∧ s.wire.buffOff = 0 ∧ s.unread = []

/-- A transmission that does not time out may end with no byte of it read back. -/
def Clean (s : State) : Call → Prop
  | .endTransmission status =>
      s.wire.running = true → s.wire.txBegun = true → s.wire.buffLen ≠ 0 → status ≠ .timeout →
        s.wire.buffOff = 0
  | _ => True

section Calls
variable {w : Wire} {unread : List UInt8}

theorem remaining_nil (h : w.buffLen ≤ w.buffOff) : w.remaining = [] := by
  rw [Wire.remaining, List.drop_eq_nil_iff, List.length_take]
  omega

theorem length_remaining (hlength : w.buffLen ≤ w.buff.length) :
    w.remaining.length = w.buffLen - w.buffOff := by
  rw [Wire.remaining, List.length_drop, List.length_take, Nat.min_eq_left hlength]

theorem remaining_cons (hlength : w.buffLen ≤ w.buff.length) (hoff : w.buffOff < w.buffLen) :
    w.remaining = w.buff.getD w.buffOff 0 ::
      ({ w with buffOff := w.buffOff + 1 } : Wire).remaining := by
  have hlt : w.buffOff < (w.buff.take w.buffLen).length := by
    rw [List.length_take]
    omega
  have hget : w.buff.getD w.buffOff 0 = (w.buff.take w.buffLen)[w.buffOff] := by
    rw [List.getElem_take, List.getD_eq_getElem?_getD, List.getElem?_eq_getElem (by omega),
      Option.getD_some]
  rw [Wire.remaining, List.drop_eq_getElem_cons hlt, hget]
  rfl

theorem reset_sound (hlen : w.buffLen = 0) (hoff : w.buffOff = 0) : Sound ⟨w, []⟩ := by
  refine ⟨by simp [hlen, hoff], by simp [hlen], ?_⟩
  exact remaining_nil (by rw [hlen]; exact Nat.zero_le w.buffOff)

theorem length_write (hlength : w.buffLen ≤ w.buff.length) (bytes : List UInt8) (n : ℕ)
    (hn : n ≤ bytes.length) (hfits : n ≤ w.buff.length - w.buffLen) :
    (w.buff.take w.buffLen ++ bytes.take n ++ w.buff.drop (w.buffLen + n)).length =
      w.buff.length := by
  rw [List.length_append, List.length_append, List.length_take, List.length_take,
    List.length_drop]
  omega

theorem timedOut_of_reset (hrunning : w.running = true) (hreset : w.resetWithTimeout = true) :
    w.timedOut = { w with timeoutFlag := true, txBegun := false, buffLen := 0, buffOff := 0 } := by
  simp [Wire.timedOut, Wire.wireEnd, Wire.wireBegin, hrunning, hreset]

theorem timedOut_of_keep (hreset : w.resetWithTimeout = false) :
    w.timedOut = { w with timeoutFlag := true } := by
  simp [Wire.timedOut, hreset]

/-- After a timeout Wire may be started afresh. -/
theorem timedOut_sound (hrunning : w.running = true) (h : Sound ⟨w, unread⟩) :
    Sound ⟨w.timedOut, if w.resetWithTimeout then [] else unread⟩ := by
  by_cases hreset : w.resetWithTimeout = true
  · rw [timedOut_of_reset hrunning hreset, if_pos hreset]
    exact reset_sound rfl rfl
  · rw [timedOut_of_keep (Bool.eq_false_iff.2 hreset), if_neg hreset]
    exact ⟨h.offset, h.length, h.contents⟩

end Calls

section Steps
variable {w : Wire} {unread : List UInt8}

theorem wireBegin_sound (h : Sound ⟨w, unread⟩) :
    Sound ⟨w.wireBegin, unreadAfter w unread .wireBegin⟩ := by
  rw [Wire.wireBegin, unreadAfter]
  split
  · exact h
  · exact reset_sound rfl rfl

theorem wireEnd_sound (h : Sound ⟨w, unread⟩) :
    Sound ⟨w.wireEnd, unreadAfter w unread .wireEnd⟩ := by
  rw [Wire.wireEnd, unreadAfter]
  split
  · exact reset_sound rfl rfl
  · exact h

/-- Only a stopped Wire changes its buffer. -/
theorem setBufferSize_cases (w : Wire) (size : ℕ) (allocated : Bool) :
    (w.setBufferSize size allocated).1 = w ∨
      (w.running = false ∧ ∃ buffer, (w.setBufferSize size allocated).1 = { w with buff := buffer }) := by
  rw [Wire.setBufferSize]
  split
  · exact .inl rfl
  · rename_i hcond
    simp only
    generalize Wire.requestedSize size = requested
    exact .inr ⟨Bool.eq_false_iff.2 fun hrunning => hcond (.inl hrunning), _, rfl⟩

theorem setBufferSize_sound (hinv : Inv ⟨w, unread⟩) (h : Sound ⟨w, unread⟩) (size : ℕ)
    (allocated : Bool) : Sound ⟨(w.setBufferSize size allocated).1, unread⟩ := by
  obtain heq | ⟨hstopped, buffer, heq⟩ := setBufferSize_cases w size allocated
  · rw [heq]
    exact h
  · obtain ⟨hlen, hoff, hunread⟩ := hinv.stopped hstopped
    change unread = [] at hunread
    rw [heq, hunread]
    exact reset_sound hlen hoff

theorem beginTransmission_sound (h : Sound ⟨w, unread⟩) :
    Sound ⟨w.beginTransmission, unreadAfter w unread .beginTransmission⟩ := by
  rw [Wire.beginTransmission, unreadAfter]
  by_cases hopen : w.running = true ∧ w.txBegun = false
  · rw [if_neg (by simp [hopen.1, hopen.2]), if_pos hopen]
    exact reset_sound rfl rfl
  · rw [if_pos, if_neg hopen]
    · exact h
    · rcases hrunning : w.running
      · exact .inl rfl
      · exact .inr (by_contra fun hbegun => hopen ⟨hrunning, Bool.eq_false_iff.2 hbegun⟩)

/-- What was written before, and the bytes taken after it. -/
theorem take_write (hlength : w.buffLen ≤ w.buff.length) {bytes : List UInt8} {n : ℕ}
    (hn : n ≤ bytes.length) :
    (w.buff.take w.buffLen ++ bytes.take n ++ w.buff.drop (w.buffLen + n)).take (w.buffLen + n) =
      w.buff.take w.buffLen ++ bytes.take n := by
  rw [List.take_append_of_le_length]
  · apply List.take_of_length_le
    simp only [List.length_append, List.length_take]
    omega
  · simp only [List.length_append, List.length_take]
    omega

theorem write_sound (h : Sound ⟨w, unread⟩) (bytes : List UInt8) :
    Sound ⟨(w.write bytes).1, unreadAfter w unread (.write bytes)⟩ := by
  have hoffset : w.buffOff ≤ w.buffLen := h.offset
  have hlength : w.buffLen ≤ w.buff.length := h.length
  have hcontents : w.remaining = unread := h.contents
  rw [unreadAfter, Wire.write]
  split
  · rw [List.take_zero, List.append_nil]
    exact h
  · have hwritten := length_write hlength bytes (min bytes.length (w.buff.length - w.buffLen))
      (Nat.min_le_left _ _) (Nat.min_le_right _ _)
    refine ⟨Nat.le_trans hoffset (Nat.le_add_right _ _), ?_, ?_⟩
    · change w.buffLen + min bytes.length (w.buff.length - w.buffLen) ≤ List.length _
      rw [hwritten]
      omega
    · simp only [Wire.remaining]
      rw [take_write hlength (Nat.min_le_left _ _), List.drop_append_of_le_length, ← hcontents]
      · rfl
      · rw [List.length_take]
        omega

theorem requestFrom_sound (h : Sound ⟨w, unread⟩) {size : ℕ} {reception : Reception}
    (hpossible : Call.possible (.requestFrom size reception) = true) :
    Sound ⟨(w.requestFrom size reception).1,
      unreadAfter w unread (.requestFrom size reception)⟩ := by
  rw [Wire.requestFrom, unreadAfter]
  by_cases haccepts : w.acceptsRequest size = true
  · rw [if_neg (by simp [haccepts]), if_pos haccepts]
    simp only [Wire.acceptsRequest, Bool.and_eq_true, decide_eq_true_eq] at haccepts
    obtain ⟨⟨⟨hrunning, -⟩, -⟩, hsize⟩ := haccepts
    cases reception with
    | received bytes =>
      have hbytes : bytes.length = size := by simpa [Call.possible] using hpossible
      refine ⟨Nat.zero_le _, ?_, ?_⟩
      · simp only [List.length_append, List.length_drop]
        omega
      · simp [Wire.remaining, Reception.bytes]
    | timeout =>
      have hreset := timedOut_sound (w := { w with buffLen := 0, buffOff := 0 }) hrunning
        (reset_sound rfl rfl)
      rw [ite_self] at hreset
      exact hreset
    | failed => exact reset_sound rfl rfl
  · rw [if_pos (Bool.eq_false_iff.2 haccepts), if_neg haccepts]
    exact h

theorem read_sound (h : Sound ⟨w, unread⟩) :
    Sound ⟨w.read.1, unreadAfter w unread .read⟩ := by
  have hlength : w.buffLen ≤ w.buff.length := h.length
  have hcontents : w.remaining = unread := h.contents
  rw [Wire.read, unreadAfter]
  by_cases hmore : w.running = true ∧ w.buffOff < w.buffLen
  · simp only [if_pos hmore]
    refine ⟨hmore.2, hlength, ?_⟩
    rw [if_pos hmore.1, ← hcontents, remaining_cons hlength hmore.2]
    rfl
  · simp only [if_neg hmore]
    by_cases hrunning : w.running = true
    · have hnil : unread = [] := by
        rw [← hcontents]
        exact remaining_nil (Nat.le_of_not_lt fun hlt => hmore ⟨hrunning, hlt⟩)
      subst hnil
      rw [if_pos hrunning]
      exact h
    · rw [if_neg hrunning]
      exact h

theorem endTransmission_sound (h : Sound ⟨w, unread⟩) {status : Status}
    (hclean : Clean ⟨w, unread⟩ (.endTransmission status)) :
    Sound ⟨(w.endTransmission status).1, unreadAfter w unread (.endTransmission status)⟩ := by
  have hoffset : w.buffOff ≤ w.buffLen := h.offset
  have hcontents : w.remaining = unread := h.contents
  rw [Wire.endTransmission, unreadAfter]
  by_cases hopen : w.running = true ∧ w.txBegun = true
  · obtain ⟨hrunning, hbegun⟩ := hopen
    rw [if_neg (by simp [hrunning, hbegun])]
    by_cases hempty : w.buffLen = 0
    · have hnil : unread = [] := by
        rw [← hcontents]
        exact remaining_nil (by omega)
      have hoff : w.buffOff = 0 := by omega
      simp only [if_pos hempty, hnil, ite_self]
      exact reset_sound hempty hoff
    · simp only [if_neg hempty]
      have hemptied : status ≠ .timeout →
          Sound ⟨{ w with
            txBegun := false
            buffLen := 0 }, []⟩ :=
        fun hstatus => reset_sound rfl (hclean hrunning hbegun hempty hstatus)
      cases status with
      | timeout =>
        have htimed : Sound ⟨({ w with txBegun := false } : Wire).timedOut,
            if w.resetWithTimeout then [] else unread⟩ :=
          timedOut_sound hrunning ⟨h.offset, h.length, h.contents⟩
        simpa [hrunning, hbegun] using htimed
      | ok =>
        rw [if_pos ⟨hrunning, hbegun, by simp⟩]
        exact hemptied (by decide)
      | failed =>
        rw [if_pos ⟨hrunning, hbegun, by simp⟩]
        exact hemptied (by decide)
  · rw [if_pos, if_neg fun hboth => hopen ⟨hboth.1, hboth.2.1⟩]
    · exact h
    · rcases hrunning : w.running
      · exact .inl rfl
      · exact .inr (Bool.eq_false_iff.2 fun hbegun => hopen ⟨hrunning, hbegun⟩)

theorem step_sound {s s' : State} {call : Call} (hinv : Inv s) (h : Sound s)
    (hclean : Clean s call) (hstep : step s call = some s') : Sound s' := by
  obtain ⟨w, unread⟩ := s
  rw [step] at hstep
  split at hstep
  · rename_i hpossible
    cases hstep
    cases call with
    | wireBegin => exact wireBegin_sound h
    | wireEnd => exact wireEnd_sound h
    | setBufferSize size allocated => exact setBufferSize_sound hinv h size allocated
    | setTimeout reset => exact ⟨h.offset, h.length, h.contents⟩
    | beginTransmission => exact beginTransmission_sound h
    | write bytes => exact write_sound h bytes
    | endTransmission status => exact endTransmission_sound h hclean
    | requestFrom size reception => exact requestFrom_sound h hpossible
    | read => exact read_sound h
    | peek => exact h
    | available => exact h
  · cases hstep

theorem timedOut_inv (hrunning : w.running = true) (hlength : w.buffLen ≤ w.buff.length) :
    w.timedOut.buffLen ≤ w.timedOut.buff.length ∧ w.timedOut.running = true := by
  by_cases hreset : w.resetWithTimeout = true
  · rw [timedOut_of_reset hrunning hreset]
    exact ⟨Nat.zero_le _, hrunning⟩
  · rw [timedOut_of_keep (Bool.eq_false_iff.2 hreset)]
    exact ⟨hlength, hrunning⟩

theorem inv_of_running {s : State} (hlength : s.wire.buffLen ≤ s.wire.buff.length)
    (hrunning : s.wire.running = true) : Inv s := by
  refine ⟨hlength, ?_⟩
  intro hstopped
  rw [hrunning] at hstopped
  cases hstopped

/-- A transmission or a request leaves Wire running, with the length within the buffer. -/
theorem transmission_inv (hrunning : w.running = true) (hlength : w.buffLen ≤ w.buff.length)
    (call : Call) (hcall : call ≠ .wireBegin ∧ call ≠ .wireEnd ∧ ∀ size allocated,
      call ≠ .setBufferSize size allocated) :
    (w.call call).buffLen ≤ (w.call call).buff.length ∧ (w.call call).running = true := by
  cases call with
  | wireBegin => exact absurd rfl hcall.1
  | wireEnd => exact absurd rfl hcall.2.1
  | setBufferSize size allocated => exact absurd rfl (hcall.2.2 size allocated)
  | setTimeout reset => exact ⟨hlength, hrunning⟩
  | beginTransmission =>
    change w.beginTransmission.buffLen ≤ w.beginTransmission.buff.length ∧ _
    rw [Wire.call, Wire.beginTransmission]
    split
    · exact ⟨hlength, hrunning⟩
    · exact ⟨Nat.zero_le _, hrunning⟩
  | write bytes =>
    change (w.write bytes).1.buffLen ≤ (w.write bytes).1.buff.length ∧
      (w.write bytes).1.running = true
    rw [Wire.write]
    split
    · exact ⟨hlength, hrunning⟩
    · refine ⟨?_, hrunning⟩
      have hwritten := length_write hlength bytes (min bytes.length (w.buff.length - w.buffLen))
        (Nat.min_le_left _ _) (Nat.min_le_right _ _)
      change w.buffLen + min bytes.length (w.buff.length - w.buffLen) ≤ List.length _
      rw [hwritten]
      omega
  | endTransmission status =>
    change (w.endTransmission status).1.buffLen ≤ (w.endTransmission status).1.buff.length ∧
      (w.endTransmission status).1.running = true
    rw [Wire.endTransmission]
    split
    · exact ⟨hlength, hrunning⟩
    · simp only
      split
      · exact ⟨hlength, hrunning⟩
      · cases status with
        | timeout => exact timedOut_inv (w := { w with txBegun := false }) hrunning hlength
        | ok => exact ⟨Nat.zero_le _, hrunning⟩
        | failed => exact ⟨Nat.zero_le _, hrunning⟩
  | requestFrom size reception =>
    change (w.requestFrom size reception).1.buffLen ≤
      (w.requestFrom size reception).1.buff.length ∧
      (w.requestFrom size reception).1.running = true
    rw [Wire.requestFrom]
    split
    · exact ⟨hlength, hrunning⟩
    · cases reception with
      | received bytes =>
        refine ⟨?_, hrunning⟩
        simp only [List.length_append]
        omega
      | timeout =>
        exact timedOut_inv (w := { w with buffLen := 0, buffOff := 0 }) hrunning (Nat.zero_le _)
      | failed => exact ⟨Nat.zero_le _, hrunning⟩
  | read =>
    change w.read.1.buffLen ≤ w.read.1.buff.length ∧ w.read.1.running = true
    rw [Wire.read]
    simp only
    split
    · exact ⟨hlength, hrunning⟩
    · exact ⟨hlength, hrunning⟩
  | peek => exact ⟨hlength, hrunning⟩
  | available => exact ⟨hlength, hrunning⟩

theorem transmission_of_stopped (hstopped : w.running = false) (unread : List UInt8) (call : Call)
    (hcall : call ≠ .wireBegin ∧ call ≠ .wireEnd ∧ (∀ reset, call ≠ .setTimeout reset) ∧
      ∀ size allocated, call ≠ .setBufferSize size allocated) :
    w.call call = w ∧ unreadAfter w unread call = unread := by
  cases call with
  | wireBegin => exact absurd rfl hcall.1
  | wireEnd => exact absurd rfl hcall.2.1
  | setTimeout reset => exact absurd rfl (hcall.2.2.1 reset)
  | setBufferSize size allocated => exact absurd rfl (hcall.2.2.2 size allocated)
  | beginTransmission => simp [Wire.call, Wire.beginTransmission, unreadAfter, hstopped]
  | write bytes => simp [Wire.call, Wire.write, unreadAfter, hstopped]
  | endTransmission status => simp [Wire.call, Wire.endTransmission, unreadAfter, hstopped]
  | requestFrom size reception =>
    simp [Wire.call, Wire.requestFrom, Wire.acceptsRequest, unreadAfter, hstopped]
  | read => simp [Wire.call, Wire.read, unreadAfter, hstopped]
  | peek => exact ⟨rfl, rfl⟩
  | available => exact ⟨rfl, rfl⟩

theorem wireBegin_inv (hinv : Inv ⟨w, unread⟩) (unread' : List UInt8) :
    Inv ⟨w.wireBegin, if w.running then unread else unread'⟩ := by
  rw [Wire.wireBegin]
  split
  · exact hinv
  · exact inv_of_running (Nat.zero_le _) rfl

theorem wireEnd_inv (hinv : Inv ⟨w, unread⟩) :
    Inv ⟨w.wireEnd, if w.running then [] else unread⟩ := by
  rw [Wire.wireEnd]
  split
  · exact ⟨Nat.zero_le _, fun _ => ⟨rfl, rfl, rfl⟩⟩
  · exact hinv

theorem setBufferSize_inv (hinv : Inv ⟨w, unread⟩) (size : ℕ) (allocated : Bool) :
    Inv ⟨(w.setBufferSize size allocated).1, unread⟩ := by
  obtain heq | ⟨hstopped, buffer, heq⟩ := setBufferSize_cases w size allocated
  · rw [heq]
    exact hinv
  · have hreset := hinv.stopped hstopped
    rw [heq]
    refine ⟨?_, fun _ => hreset⟩
    change w.buffLen ≤ _
    rw [show w.buffLen = 0 from hreset.1]
    exact Nat.zero_le _

theorem transmission_kept (hinv : Inv ⟨w, unread⟩) (call : Call)
    (hcall : call ≠ .wireBegin ∧ call ≠ .wireEnd ∧ (∀ reset, call ≠ .setTimeout reset) ∧
      ∀ size allocated, call ≠ .setBufferSize size allocated) :
    Inv ⟨w.call call, unreadAfter w unread call⟩ := by
  rcases hrunning : w.running
  · obtain ⟨hwire, hunread⟩ := transmission_of_stopped hrunning unread call hcall
    rw [hwire, hunread]
    exact hinv
  · obtain ⟨hlength, hstill⟩ := transmission_inv hrunning hinv.length call
      ⟨hcall.1, hcall.2.1, hcall.2.2.2⟩
    exact inv_of_running hlength hstill

theorem step_inv : Preserves step Inv := by
  intro s call s' hstep hinv
  obtain ⟨w, unread⟩ := s
  rw [step] at hstep
  split at hstep
  · cases hstep
    cases call with
    | wireBegin => exact wireBegin_inv hinv []
    | wireEnd => exact wireEnd_inv hinv
    | setBufferSize size allocated => exact setBufferSize_inv hinv size allocated
    | setTimeout reset => exact ⟨hinv.length, hinv.stopped⟩
    | _ => exact transmission_kept hinv _ ⟨nofun, nofun, nofun, nofun⟩
  · cases hstep

theorem start_inv (buff : List UInt8) : Inv (start buff) :=
  ⟨Nat.zero_le _, fun _ => ⟨rfl, rfl, rfl⟩⟩

theorem start_sound (buff : List UInt8) : Sound (start buff) := reset_sound rfl rfl

theorem step_keeps : PreservesWhen step Clean fun s => Inv s ∧ Sound s := by
  rintro s call s' hclean hstep ⟨hinv, hsound⟩
  exact ⟨step_inv hstep hinv, step_sound hinv hsound hclean hstep⟩

end Steps

section Runs
variable {w : Wire}

theorem reads_of_empty (hempty : ¬(w.running = true ∧ w.buffOff < w.buffLen)) (n : ℕ) :
    w.reads n = List.replicate n (-1) := by
  induction n with
  | zero => rfl
  | succ n ih =>
    have hread : w.read = (w, -1) := by
      rw [Wire.read, Wire.peek, if_neg hempty, if_neg hempty]
    rw [Wire.reads, hread, List.replicate_succ, ← ih]

theorem take_padded (values : List ℤ) (n : ℕ) :
    (values ++ List.replicate n (-1)).take n = (values ++ List.replicate (n + 1) (-1)).take n := by
  rw [List.replicate_succ', ← List.append_assoc]
  apply (List.take_append_of_le_length _).symm
  rw [List.length_append, List.length_replicate]
  exact Nat.le_add_left n values.length

/-- Reads return what is between the indices, in order, and then -1. -/
theorem reads_eq (hrunning : w.running = true) (hlength : w.buffLen ≤ w.buff.length) (n : ℕ) :
    w.reads n =
      (w.remaining.map byteInt ++ List.replicate n (-1)).take n := by
  induction n generalizing w with
  | zero => rfl
  | succ n ih =>
    by_cases hmore : w.buffOff < w.buffLen
    · have hread : w.read = ({ w with buffOff := w.buffOff + 1 },
          byteInt (w.buff.getD w.buffOff 0)) := by
        rw [Wire.read, Wire.peek, if_pos ⟨hrunning, hmore⟩, if_pos ⟨hrunning, hmore⟩]
      have hnext := ih (w := { w with buffOff := w.buffOff + 1 }) hrunning hlength
      rw [Wire.reads, hread, remaining_cons hlength hmore, List.map_cons, List.cons_append,
        List.take_succ_cons, hnext, take_padded]
    · rw [reads_of_empty (fun h => hmore h.2), remaining_nil (Nat.le_of_not_lt hmore)]
      simp

/-- What a caller finds of a buffer in order. -/
structure Answers (s : State) : Prop where
  available : s.wire.available = s.unread.length
  peek : s.wire.peek = (s.unread.head?.map byteInt).getD (-1)
  reads : ∀ n, s.wire.reads n =
    (s.unread.map byteInt ++ List.replicate n (-1)).take n

theorem answers_of_sound {s : State} (hinv : Inv s) (h : Sound s) : Answers s := by
  obtain ⟨w, unread⟩ := s
  have hcontents : w.remaining = unread := h.contents
  have hoffset : w.buffOff ≤ w.buffLen := h.offset
  have hlength : w.buffLen ≤ w.buff.length := h.length
  have hcount := length_remaining hlength
  rw [hcontents] at hcount
  rcases hrunning : w.running
  · obtain ⟨hlen, hoff, hunread⟩ := hinv.stopped hrunning
    change unread = [] at hunread
    have hempty : ¬(w.running = true ∧ w.buffOff < w.buffLen) := by simp [hrunning]
    rw [hunread]
    refine ⟨by simp [Wire.available, hrunning], if_neg hempty, ?_⟩
    intro n
    rw [reads_of_empty hempty]
    simp
  · refine ⟨?_, ?_, ?_⟩
    · simp only [Wire.available, hrunning, if_true, hcount]
      omega
    · by_cases hmore : w.buffOff < w.buffLen
      · rw [← hcontents, remaining_cons hlength hmore]
        exact if_pos ⟨hrunning, hmore⟩
      · rw [← hcontents, remaining_nil (Nat.le_of_not_lt hmore)]
        exact if_neg fun hand => hmore hand.2
    · intro n
      rw [← hcontents]
      exact reads_eq hrunning hlength n

/-- A write takes what fits, and nothing outside of a transmission. -/
structure Accepts (w : Wire) (bytes : List UInt8) : Prop where
  count : (w.write bytes).2 =
    if w.running ∧ w.txBegun then min bytes.length (w.buff.length - w.buffLen) else 0
  stored : (w.write bytes).1.buff.take (w.write bytes).1.buffLen =
    w.buff.take w.buffLen ++ bytes.take (w.write bytes).2
  size : (w.write bytes).1.buff.length = w.buff.length

theorem write_accepts (hlength : w.buffLen ≤ w.buff.length) (bytes : List UInt8) :
    Accepts w bytes := by
  by_cases hopen : w.running = true ∧ w.txBegun = true
  · have hwrite : w.write bytes = ({ w with
        buff := w.buff.take w.buffLen ++
          bytes.take (min bytes.length (w.buff.length - w.buffLen)) ++
          w.buff.drop (w.buffLen + min bytes.length (w.buff.length - w.buffLen))
        buffLen := w.buffLen + min bytes.length (w.buff.length - w.buffLen) },
        min bytes.length (w.buff.length - w.buffLen)) := if_neg (by simp [hopen.1, hopen.2])
    refine ⟨?_, ?_, ?_⟩
    · rw [hwrite, if_pos hopen]
    · rw [hwrite]
      exact take_write hlength (Nat.min_le_left _ _)
    · rw [hwrite]
      exact length_write hlength bytes _ (Nat.min_le_left _ _) (Nat.min_le_right _ _)
  · have hwrite : w.write bytes = (w, 0) := by
      apply if_pos
      rcases hrunning : w.running
      · exact .inl rfl
      · exact .inr (Bool.eq_false_iff.2 fun hbegun => hopen ⟨hrunning, hbegun⟩)
    refine ⟨?_, ?_, ?_⟩
    · rw [hwrite, if_neg hopen]
    · rw [hwrite, List.take_zero, List.append_nil]
    · rw [hwrite]

/-- In a run whose transmissions end cleanly the buffer is in order, and it answers with what is left
to read. In every run a write takes what fits. -/
theorem wire_buffer_sound {buff : List UInt8} {calls : List Call} {z : State}
    (hrun : run step (start buff) calls = some z) :
    (Meets step Clean (start buff) calls →
      Sound z ∧ (z.wire.txBegun = false → Answers z)) ∧
    ∀ bytes, Accepts z.wire bytes := by
  constructor
  · intro hclean
    obtain ⟨hinv, hsound⟩ := step_keeps.run hclean hrun ⟨start_inv buff, start_sound buff⟩
    exact ⟨hsound, fun _ => answers_of_sound hinv hsound⟩
  · exact write_accepts (step_inv.run hrun (start_inv buff)).length

/-- A read of two bytes after a write. -/
def conversation : List Call :=
  [.wireBegin, .beginTransmission, .write [7], .endTransmission .ok,
    .requestFrom 2 (.received [3, 5]), .read]

def smallBuffer : List UInt8 := [0, 0, 0, 0]

theorem conversation_answers :
    ∃ z, run step (start smallBuffer) conversation = some z ∧ Answers z ∧ z.unread = [5] := by
  have hclean : Meets step Clean (start smallBuffer) conversation :=
    .cons trivial rfl (.cons trivial rfl (.cons trivial rfl (.cons (fun _ _ _ _ => rfl) rfl
      (.cons trivial rfl (.cons trivial rfl trivial)))))
  have hrun : run step (start smallBuffer) conversation = some _ := rfl
  exact ⟨_, rfl, ((wire_buffer_sound hrun).1 hclean).2 rfl, rfl⟩

/-- After a timeout the byte sent is there to be read, although nothing was requested. -/
theorem timeout_keeps_bytes :
    ∃ z, run step (start smallBuffer)
        [.wireBegin, .beginTransmission, .write [7], .endTransmission .timeout] = some z ∧
      z.wire.txBegun = false ∧ z.wire.available = 1 ∧ z.wire.peek = 7 :=
  ⟨_, rfl, by decide +kernel⟩

end Runs
end RooTesting.WireBuffer
