import RooTesting.Checks
import RooTesting.Threads

/-! # The console of the host as a serial line

Input is polled and never waited for; one byte is kept ahead of its reader, and the USB serial port
keeps another one ahead of its own. Output is written until all of it is out. What the host answers
to each call is given by a script, and a call that the script does not let return is still waiting. -/
namespace RooTesting.ConsoleUart
open Checks Transition Threads

abbrev Byte := BitVec 8
abbrev Bytes := List Byte

/-- What `poll` of the input answers. -/
inductive Poll where
  | interrupted | failed | timeout
  | ready (pollIn pollHup pollErr : Bool)
  deriving DecidableEq

/-- What `read` of one byte answers. -/
inductive Received where
  | interrupted | again | failed | eof
  | byte (byte : Byte)
  deriving DecidableEq

inductive Stop where
  | waiting
  | failed (message : String)
  deriving DecidableEq

/-- A call that is repeated as long as it is interrupted. -/
def retry {α : Type} [DecidableEq α] (interrupted : α) : List α → Except Stop (α × List α)
  | [] => .error .waiting
  | a :: rest => if a = interrupted then retry interrupted rest else .ok (a, rest)

inductive Reader where
  | direct | usb
  deriving DecidableEq

/-- `ConsoleUartDevice` with the host behind it and the USB serial port before it: what the host has
given so far, who has got it, and what became of the bytes that the port has got. -/
structure State where
  polls : List Poll
  reads : List Received
  pending : Option Byte := none
  eof : Bool := false
  running : Bool := false
  hostPeek : Option Byte := none
  received : Bytes := []
  given : List (Reader × Byte) := []
  usbFates : List (Byte × Bool) := []

namespace State

variable (s : State)

/-- The call of `read` in `pollInput`. -/
def receive : Except Stop (Bool × State) := do
  let (answer, reads) ← retry .interrupted s.reads
  let s := { s with reads := reads }
  match answer with
  | .interrupted | .again => return (false, s)
  | .failed => throw (.failed "Console UART read failed")
  | .eof => return (false, { s with eof := true })
  | .byte byte =>
    return (true, { s with
      pending := some byte
      received := s.received ++ [byte] })

def pollInput : Except Stop (Bool × State) :=
  if s.pending.isSome then .ok (true, s)
  else if s.eof then .ok (false, s)
  else do
    let (answer, polls) ← retry .interrupted s.polls
    let s := { s with polls := polls }
    match answer with
    | .interrupted | .failed => throw (.failed "Console UART input poll failed")
    | .timeout => return (false, s)
    | .ready pollIn pollHup pollErr =>
      if pollErr then throw (.failed "Console UART input descriptor failed")
      else if pollIn = false ∧ pollHup = false then return (false, s)
      else s.receive

/-- The loop of `read`. -/
def readLoop (reader : Reader) : ℕ → State → Except Stop (Bytes × State)
  | 0, s => .ok ([], s)
  | limit + 1, s => do
    let (ready, s) ← s.pollInput
    match ready, s.pending with
    | true, some byte =>
      let (bytes, s) ← readLoop reader limit { s with
        pending := none
        given := s.given ++ [(reader, byte)] }
      return (byte :: bytes, s)
    | _, _ => return ([], s)

def read (reader : Reader) (size : ℕ) : Except Stop (Bytes × State) :=
  readLoop reader (min size 256) s

def availableForRead : Except Stop (ℕ × State) := do
  let (ready, s) ← s.pollInput
  return (if ready then 1 else 0, s)

def usbEnd : State :=
  { s with
    running := false
    hostPeek := none
    usbFates := s.usbFates ++ s.hostPeek.toList.map (·, false) }

def usbAvailable : Except Stop (ℕ × State) :=
  if s.running then if s.hostPeek.isSome then .ok (1, s) else s.availableForRead else .ok (0, s)

def usbPeek : Except Stop (Option Byte × State) :=
  if s.running = false then .ok (none, s)
  else if s.hostPeek.isSome then .ok (s.hostPeek, s)
  else do
    let (bytes, s) ← s.read .usb 1
    return (bytes.head?, { s with hostPeek := bytes.head? })

def usbRead : Except Stop (Option Byte × State) := do
  let (byte, s) ← s.usbPeek
  return (byte, { s with
    hostPeek := none
    usbFates := s.usbFates ++ byte.toList.map (·, true) })

end State

inductive Act where
  | read (size : ℕ)
  | availableForRead
  | usbBegin
  | usbEnd
  | usbAvailable
  | usbPeek
  | usbRead
  deriving DecidableEq

def step (s : State) : Act → Option State
  | .read size => ((s.read .direct size).map Prod.snd).toOption
  | .availableForRead => (s.availableForRead.map Prod.snd).toOption
  | .usbBegin => some { s with running := true }
  | .usbEnd => some s.usbEnd
  | .usbAvailable => (s.usbAvailable.map Prod.snd).toOption
  | .usbPeek => (s.usbPeek.map Prod.snd).toOption
  | .usbRead => (s.usbRead.map Prod.snd).toOption

variable {s s' : State} {reader : Reader} {ready : Bool} {bytes : Bytes}

/-- What the host has given is given or pending, and the end of the input comes after the last
byte. -/
structure Ahead (s : State) : Prop where
  received : s.received = s.given.map Prod.snd ++ s.pending.toList
  eof : s.eof = true → s.pending = none

/-- What has been given to the port. -/
def State.usbGiven (s : State) : Bytes := (s.given.filter fun p => p.1 = .usb).map Prod.snd

/-- What the port has got has its fate or is the byte ahead. -/
structure Inv (s : State) : Prop extends Ahead s where
  usb : s.usbGiven = s.usbFates.map Prod.fst ++ s.hostPeek.toList
  stopped : s.running = false → s.hostPeek = none

/-- A poll changes only what is ahead of the readers. -/
structure Polled (s s' : State) (ready : Bool) : Prop where
  ahead : Ahead s'
  ready : ready = s'.pending.isSome
  running : s'.running = s.running
  hostPeek : s'.hostPeek = s.hostPeek
  given : s'.given = s.given
  usbFates : s'.usbFates = s.usbFates

theorem Polled.inv (h : Polled s s' ready) (hs : Inv s) : Inv s' := by
  refine ⟨h.ahead, ?_, ?_⟩
  · rw [State.usbGiven, h.given, h.usbFates, h.hostPeek]
    exact hs.usb
  · rw [h.running, h.hostPeek]
    exact hs.stopped

theorem receive_polled (hs : Ahead s) (hpending : s.pending = none) (heof : s.eof = false)
    (h : s.receive = .ok (ready, s')) : Polled s s' ready := by
  obtain ⟨⟨answer, reads⟩, -, h⟩ := bind_ok.mp h
  cases answer with
  | failed => cases h
  | byte byte =>
    cases h
    refine ⟨⟨?_, ?_⟩, rfl, rfl, rfl, rfl, rfl⟩
    · have hbefore := hs.received
      rw [hpending, Option.toList_none, List.append_nil] at hbefore
      exact congrArg (· ++ [byte]) hbefore
    · intro htrue
      exact Bool.noConfusion (heof.symm.trans htrue)
  | eof =>
    cases h
    exact ⟨⟨hs.received, fun _ => hpending⟩, by simp [hpending], rfl, rfl, rfl, rfl⟩
  | interrupted | again =>
    cases h
    exact ⟨⟨hs.received, hs.eof⟩, by simp [hpending], rfl, rfl, rfl, rfl⟩

theorem pollInput_polled (hs : Ahead s) (h : s.pollInput = .ok (ready, s')) :
    Polled s s' ready := by
  unfold State.pollInput at h
  split_ifs at h with hsome heof
  · cases h
    exact ⟨hs, hsome.symm, rfl, rfl, rfl, rfl⟩
  · cases h
    exact ⟨hs, by simp [hs.eof heof], rfl, rfl, rfl, rfl⟩
  · have hpending : s.pending = none := Option.not_isSome_iff_eq_none.mp hsome
    obtain ⟨⟨answer, polls⟩, -, h⟩ := bind_ok.mp h
    have hpolled : Ahead { s with polls := polls } := ⟨hs.received, hs.eof⟩
    cases answer with
    | interrupted | failed => cases h
    | timeout =>
      cases h
      exact ⟨hpolled, by simp [hpending], rfl, rfl, rfl, rfl⟩
    | ready pollIn pollHup pollErr =>
      dsimp only at h
      split_ifs at h
      · cases h
        exact ⟨hpolled, by simp [hpending], rfl, rfl, rfl, rfl⟩
      · obtain ⟨hinv, hready, hrunning, hpeek, hgiven, hfates⟩ :=
          receive_polled hpolled hpending (Bool.eq_false_iff.mpr heof) h
        exact ⟨hinv, hready, hrunning, hpeek, hgiven, hfates⟩

/-- A byte that is pending is there without the host. -/
theorem pollInput_pending {byte : Byte} (h : s.pending = some byte) :
    s.pollInput = .ok (true, s) := by
  rw [State.pollInput, if_pos (by rw [h]; rfl)]

/-- After the end of the input nothing is asked of the host. -/
theorem pollInput_eof (hs : Ahead s) (h : s.eof = true) : s.pollInput = .ok (false, s) := by
  rw [State.pollInput, hs.eof h, if_neg (by decide), if_pos h]

/-- What a read gives to its reader. -/
structure Given (s s' : State) (reader : Reader) (bytes : Bytes) : Prop where
  ahead : Ahead s'
  given : s'.given = s.given ++ bytes.map (reader, ·)
  running : s'.running = s.running
  hostPeek : s'.hostPeek = s.hostPeek
  usbFates : s'.usbFates = s.usbFates

theorem readLoop_given {limit : ℕ} (hs : Ahead s)
    (h : State.readLoop reader limit s = .ok (bytes, s')) :
    Given s s' reader bytes ∧ bytes.length ≤ limit := by
  induction limit generalizing s bytes with
  | zero =>
    cases h
    exact ⟨⟨hs, (List.append_nil _).symm, rfl, rfl, rfl⟩, Nat.le_refl 0⟩
  | succ limit ih =>
    rw [State.readLoop] at h
    obtain ⟨⟨ready, t⟩, hpoll, h⟩ := bind_ok.mp h
    have hpolled := pollInput_polled hs hpoll
    dsimp only at h
    split at h
    next byte hpending =>
      obtain ⟨⟨rest, u⟩, hrest, h⟩ := bind_ok.mp h
      cases h
      have htaken : Ahead { t with
          pending := none
          given := t.given ++ [(reader, byte)] } := by
        refine ⟨?_, fun _ => rfl⟩
        have hbefore := hpolled.ahead.received
        rw [hpending] at hbefore
        rw [hbefore, List.map_append]
        exact (List.append_nil _).symm
      obtain ⟨hgiven, hle⟩ := ih htaken hrest
      refine ⟨⟨hgiven.ahead, ?_, hgiven.running.trans hpolled.running,
        hgiven.hostPeek.trans hpolled.hostPeek, hgiven.usbFates.trans hpolled.usbFates⟩,
        Nat.succ_le_succ hle⟩
      rw [hgiven.given, hpolled.given, List.append_assoc]
      rfl
    next =>
      cases h
      exact ⟨⟨hpolled.ahead, by rw [hpolled.given]; exact (List.append_nil _).symm,
        hpolled.running, hpolled.hostPeek, hpolled.usbFates⟩, Nat.zero_le _⟩

/-- A read of some bytes that finds one pending gives it first. -/
theorem readLoop_pending {limit : ℕ} {byte : Byte} (hpending : s.pending = some byte)
    (h : State.readLoop reader (limit + 1) s = .ok (bytes, s')) : bytes.head? = some byte := by
  rw [State.readLoop, pollInput_pending hpending] at h
  obtain ⟨⟨ready, t⟩, hpoll, h⟩ := bind_ok.mp h
  cases hpoll
  dsimp only at h
  rw [hpending] at h
  obtain ⟨⟨rest, u⟩, -, h⟩ := bind_ok.mp h
  cases h
  rfl

theorem usbGiven_append (given : List (Reader × Byte)) (reader : Reader) (bytes : Bytes) :
    ((given ++ bytes.map (reader, ·)).filter fun p => p.1 = .usb).map Prod.snd =
      (given.filter fun p => p.1 = .usb).map Prod.snd ++ if reader = .usb then bytes else [] := by
  rw [List.filter_append, List.map_append]
  congr 1
  induction bytes with
  | nil => cases reader <;> rfl
  | cons byte bytes ih =>
    cases reader with
    | direct => simp
    | usb => simpa using ih

theorem Given.direct (h : Given s s' .direct bytes) (hs : Inv s) : Inv s' := by
  refine ⟨h.ahead, ?_, ?_⟩
  · rw [State.usbGiven, h.given, usbGiven_append, if_neg (by decide), List.append_nil, h.usbFates,
      h.hostPeek]
    exact hs.usb
  · rw [h.running, h.hostPeek]
    exact hs.stopped

variable {byte : Option Byte}

/-- A peek keeps the flow to the port, and shows the byte ahead. -/
theorem usbPeek_spec (hs : Inv s) (h : s.usbPeek = .ok (byte, s')) :
    Inv s' ∧ s'.usbFates = s.usbFates ∧ s'.running = s.running ∧ byte = s'.hostPeek := by
  unfold State.usbPeek at h
  split_ifs at h with hstopped hsome
  · cases h
    exact ⟨hs, rfl, rfl, (hs.stopped hstopped).symm⟩
  · cases h
    exact ⟨hs, rfl, rfl, rfl⟩
  · obtain ⟨⟨bytes, t⟩, hread, h⟩ := bind_ok.mp h
    cases h
    obtain ⟨hgiven, hle⟩ := readLoop_given hs.toAhead hread
    have hone : bytes = bytes.head?.toList := by
      cases bytes with
      | nil => rfl
      | cons byte rest =>
        cases rest with
        | nil => rfl
        | cons _ _ => simp at hle
    refine ⟨⟨⟨hgiven.ahead.received, hgiven.ahead.eof⟩, ?_, ?_⟩, hgiven.usbFates, hgiven.running,
      rfl⟩
    · have hbefore := hs.usb
      rw [Option.not_isSome_iff_eq_none.mp hsome, Option.toList_none, List.append_nil] at hbefore
      rw [State.usbGiven]
      change (t.given.filter fun p => p.1 = .usb).map Prod.snd =
        t.usbFates.map Prod.fst ++ bytes.head?.toList
      rw [hgiven.given, usbGiven_append, if_pos rfl, hgiven.usbFates, ← hone]
      exact congrArg (· ++ bytes) hbefore
    · intro hnot
      exact absurd (hgiven.running.symm.trans hnot) hstopped

theorem usbRead_spec (hs : Inv s) (h : s.usbRead = .ok (byte, s')) :
    Inv s' ∧ s'.usbFates = s.usbFates ++ byte.toList.map (·, true) := by
  obtain ⟨⟨shown, t⟩, hpeek, h⟩ := bind_ok.mp h
  cases h
  obtain ⟨hinv, hfates, hrunning, rfl⟩ := usbPeek_spec hs hpeek
  refine ⟨⟨⟨hinv.received, hinv.eof⟩, ?_, fun _ => rfl⟩, congrArg (· ++ _) hfates⟩
  have hbefore := hinv.usb
  rw [State.usbGiven] at hbefore ⊢
  rw [hbefore]
  cases t.hostPeek <;> simp

theorem availableForRead_spec {n : ℕ} (hs : Inv s) (h : s.availableForRead = .ok (n, s')) :
    Inv s' ∧ s'.given = s.given ∧ n = s'.pending.toList.length := by
  obtain ⟨⟨ready, t⟩, hpoll, h⟩ := bind_ok.mp h
  cases h
  have hpolled := pollInput_polled hs.toAhead hpoll
  refine ⟨hpolled.inv hs, hpolled.given, ?_⟩
  rw [hpolled.ready]
  cases s'.pending <;> rfl

theorem usbEnd_inv (hs : Inv s) : Inv s.usbEnd := by
  refine ⟨⟨hs.received, hs.eof⟩, ?_, fun _ => rfl⟩
  have hbefore := hs.usb
  rw [State.usbGiven] at hbefore ⊢
  rw [State.usbEnd, hbefore]
  cases s.hostPeek <;> simp

theorem usbAvailable_inv {n : ℕ} (hs : Inv s) (h : s.usbAvailable = .ok (n, s')) : Inv s' := by
  unfold State.usbAvailable at h
  split_ifs at h
  · cases h
    exact hs
  · exact (availableForRead_spec hs h).1
  · cases h
    exact hs

theorem step_inv : Preserves step Inv := by
  have hcall : ∀ {α : Type} {x : Except Stop (α × State)} {s' : State},
      (x.map Prod.snd).toOption = some s' → ∃ a, x = .ok (a, s') := by
    intro α x s' h
    cases x with
    | error stop => cases h
    | ok p =>
      cases h
      exact ⟨p.1, rfl⟩
  intro s a s' h hs
  cases a with
  | read size =>
    obtain ⟨bytes, hread⟩ := hcall h
    exact (readLoop_given hs.toAhead hread).1.direct hs
  | availableForRead =>
    obtain ⟨n, havailable⟩ := hcall h
    exact (availableForRead_spec hs havailable).1
  | usbBegin =>
    obtain rfl := Option.some.inj h
    exact ⟨⟨hs.received, hs.eof⟩, hs.usb, fun h => Bool.noConfusion h⟩
  | usbEnd =>
    obtain rfl := Option.some.inj h
    exact usbEnd_inv hs
  | usbAvailable =>
    obtain ⟨n, havailable⟩ := hcall h
    exact usbAvailable_inv hs havailable
  | usbPeek =>
    obtain ⟨byte, hpeek⟩ := hcall h
    exact (usbPeek_spec hs hpeek).1
  | usbRead =>
    obtain ⟨byte, hread⟩ := hcall h
    exact (usbRead_spec hs hread).1

/-- The port has a byte without the host, ahead of it or ahead of the console. -/
theorem usbRead_of_ahead {b : Byte} (hrunning : s.running = true)
    (h : s.hostPeek = some b ∨ s.hostPeek = none ∧ s.pending = some b) :
    ∃ z, s.usbRead = .ok (some b, z) := by
  have hstopped : ¬ s.running = false := by simp [hrunning]
  rcases h with hpeek | ⟨hpeek, hpending⟩
  · have hshow : s.usbPeek = .ok (some b, s) := by
      rw [State.usbPeek, if_neg hstopped, if_pos (by rw [hpeek]; rfl), hpeek]
    exact ⟨_, by rw [State.usbRead, hshow]; rfl⟩
  · have hread : s.read .usb 1 = .ok ([b], { s with
        pending := none
        given := s.given ++ [(.usb, b)] }) := by
      rw [State.read, show min 1 256 = 0 + 1 from rfl, State.readLoop, pollInput_pending hpending]
      simp only [bind, Except.bind, hpending]
      rfl
    have hshow : s.usbPeek = .ok (some b, { s with
        pending := none
        given := s.given ++ [(.usb, b)]
        hostPeek := some b }) := by
      rw [State.usbPeek, if_neg hstopped, if_neg (by rw [hpeek]; decide), hread]
      rfl
    exact ⟨_, by rw [State.usbRead, hshow]; rfl⟩

/-- Nothing has been read yet. -/
structure Fresh (s : State) : Prop where
  pending : s.pending = none
  eof : s.eof = false
  hostPeek : s.hostPeek = none
  received : s.received = []
  given : s.given = []
  usbFates : s.usbFates = []

theorem Fresh.inv (h : Fresh s) : Inv s where
  received := by rw [h.received, h.given, h.pending]; rfl
  eof := fun _ => h.pending
  usb := by rw [State.usbGiven, h.given, h.usbFates, h.hostPeek]; rfl
  stopped := fun _ => h.hostPeek

/-- In every run, whatever the host answers: the bytes it has given are those that readers have got
and the one that is pending, in order; those that the USB port has got are given, discarded by its
end, or ahead; the end of the input is seen after the last byte and lasts; a read gives no more than
it is asked for, and what it gives is recorded; a byte that is announced is there without the host,
and first; and what the port shows or announces is what it gives next. -/
theorem input_streams {acts : List Act} {s₀ : State} (h₀ : Fresh s₀)
    (hr : run step s₀ acts = some s) :
    (s.received = s.given.map Prod.snd ++ s.pending.toList ∧
      s.usbGiven = s.usbFates.map Prod.fst ++ s.hostPeek.toList) ∧
    (s.eof = true → s.pending = none ∧ s.availableForRead = .ok (0, s) ∧
      ∀ reader size, s.read reader size = .ok ([], s)) ∧
    (∀ reader size bytes t, s.read reader size = .ok (bytes, t) →
      bytes.length ≤ min size 256 ∧ t.given = s.given ++ bytes.map (reader, ·)) ∧
    (∀ n t, s.availableForRead = .ok (n, t) → n ≠ 0 → ∃ b, t.pending = some b ∧
      ∀ reader size bytes u, 0 < size → t.read reader size = .ok (bytes, u) →
        bytes.head? = some b) ∧
    (∀ b t, s.usbPeek = .ok (some b, t) → ∃ z, t.usbRead = .ok (some b, z)) ∧
    ∀ n t, s.usbAvailable = .ok (n, t) → n ≠ 0 → ∃ b z, t.usbRead = .ok (some b, z) := by
  have hs : Inv s := step_inv.run hr h₀.inv
  have hannounced : ∀ {n t}, s.availableForRead = .ok (n, t) → n ≠ 0 →
      ∃ b, t.pending = some b := by
    intro n t havailable hn
    obtain ⟨-, -, hlength⟩ := availableForRead_spec hs havailable
    cases hpending : t.pending with
    | none =>
      rw [hpending] at hlength
      exact absurd hlength hn
    | some b => exact ⟨b, rfl⟩
  refine ⟨⟨hs.received, hs.usb⟩, ?_, ?_, ?_, ?_, ?_⟩
  · intro heof
    have hpoll := pollInput_eof hs.toAhead heof
    refine ⟨hs.eof heof, by rw [State.availableForRead, hpoll]; rfl, fun reader size => ?_⟩
    rw [State.read]
    cases min size 256 with
    | zero => rfl
    | succ limit =>
      rw [State.readLoop, hpoll]
      rfl
  · intro reader size bytes t hread
    obtain ⟨hgiven, hle⟩ := readLoop_given hs.toAhead hread
    exact ⟨hle, hgiven.given⟩
  · intro n t havailable hn
    obtain ⟨b, hpending⟩ := hannounced havailable hn
    refine ⟨b, hpending, fun reader size bytes u hsize hread => ?_⟩
    obtain ⟨limit, hlimit⟩ := Nat.exists_eq_succ_of_ne_zero (n := min size 256) (by omega)
    rw [State.read, hlimit] at hread
    exact readLoop_pending hpending hread
  · intro b t hpeek
    obtain ⟨hinv, -, -, hshown⟩ := usbPeek_spec hs hpeek
    refine usbRead_of_ahead ?_ (Or.inl hshown.symm)
    by_contra hstopped
    rw [hinv.stopped (Bool.eq_false_iff.mpr hstopped)] at hshown
    cases hshown
  · intro n t havailable hn
    unfold State.usbAvailable at havailable
    split_ifs at havailable with hrunning hpeek
    · cases havailable
      obtain ⟨b, hb⟩ := Option.isSome_iff_exists.mp hpeek
      exact ⟨b, usbRead_of_ahead hrunning (Or.inl hb)⟩
    · obtain ⟨b, hpending⟩ := hannounced havailable hn
      obtain ⟨⟨ready, u⟩, hpoll, hreturn⟩ := bind_ok.mp havailable
      cases hreturn
      have hpolled := pollInput_polled hs.toAhead hpoll
      refine ⟨b, usbRead_of_ahead (hpolled.running.trans hrunning) (Or.inr ⟨?_, hpending⟩)⟩
      exact hpolled.hostPeek.trans (Option.not_isSome_iff_eq_none.mp hpeek)
    · cases havailable
      exact absurd rfl hn

/-- The host answers a poll and a read after interruptions, and then has nothing more. -/
def interruptedHost : State where
  polls := [.interrupted, .ready true false false, .timeout]
  reads := [.interrupted, .byte 65]

/-- The port shows the byte, and another reader gets nothing. -/
theorem input_streams_interruptedHost :
    ∃ s, run step interruptedHost [.usbBegin, .usbPeek, .read 4] = some s ∧
      s.hostPeek = some 65 ∧ s.received = s.given.map Prod.snd ++ s.pending.toList ∧
      s.usbGiven = s.usbFates.map Prod.fst ++ s.hostPeek.toList := by
  have hrun : run step interruptedHost [.usbBegin, .usbPeek, .read 4] =
      some ((run step interruptedHost [.usbBegin, .usbPeek, .read 4]).get (by decide)) :=
    (Option.some_get _).symm
  obtain ⟨hreceived, husb⟩ := (input_streams ⟨rfl, rfl, rfl, rfl, rfl, rfl⟩ hrun).1
  exact ⟨_, hrun, by decide, hreceived, husb⟩

end RooTesting.ConsoleUart
