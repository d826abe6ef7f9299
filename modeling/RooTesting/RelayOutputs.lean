import RooTesting.Threads
import Mathlib.Data.List.Basic
import Mathlib.Tactic.Cases
import Mathlib.Algebra.Group.Nat.Defs

/-! # The outputs of the four-channel relay

A packet changes the state of the relay under its mutex, and the thread that sent it calls the
output function for each changed channel after it has released the mutex. What the generated
protobuf code parses is a parameter. -/
namespace RooTesting.Relay
open Transition Threads

def kControlMagic : List ℕ := [0x72, 0x6f, 0x6f, 0x00, 0xe1, 0xb2, 0x88, 0x99]
def kDataMagic : List ℕ := [0x72, 0x6f, 0x6f, 0x00, 0x5e, 0x0c, 0x15, 0x03]
def kMagicSize : ℕ := 8
def kChannelMask : BitVec 32 := 0x0f
def intMax : ℕ := 2 ^ 31 - 1

inductive PairingState | unpaired | pairing | paired
  deriving DecidableEq

inductive PairingStatus | ok | rejected
  deriving DecidableEq

/-- The contents of a control message that a relay looks at. -/
inductive ControlMessage
  | hubDiscoveryResponse
  | hubPairingResponse (status : PairingStatus)
  | other

structure RelayRequest where
  mask : BitVec 32
  write : BitVec 32
  deriving DecidableEq

/-- `ParseFromArray` of the two message types. A data message need not be a relay request. -/
structure Parsers where
  control : List ℕ → Option ControlMessage
  data : List ℕ → Option (Option RelayRequest)

/-- What happened to the channels, latest first. A request is named by its number. -/
inductive Entry
  | changed (request idx : ℕ) (value : Bool)
  | delivered (request idx : ℕ) (value : Bool)
  deriving DecidableEq

structure Shared where
  pairing : PairingState := .unpaired
  state : BitVec 32 := 0
  reports : List (BitVec 32) := []
  requests : ℕ := 0
  history : List Entry := []
  deriving DecidableEq

/-- A call in progress: `send` has an output function to call, or is inside of it. -/
inductive Frame
  | deliver (request idx : ℕ) (value : Bool)
  | writeFn
  deriving DecidableEq

abbrev Local := List Frame

/-- The channels that changed, with their new values, in the order of the loop. -/
def changes (changed current : BitVec 32) : List (ℕ × Bool) :=
  (List.range 4).filterMap fun idx =>
    if changed.getLsbD idx then some (idx, current.getLsbD idx) else none

namespace Shared

variable (s : Shared)

def reportState : Shared := { s with reports := s.state :: s.reports }

/-- The locked section of a control packet. -/
def control : ControlMessage → Shared
  | .hubDiscoveryResponse => { s with pairing := .pairing }
  | .hubPairingResponse status =>
    if s.pairing = .pairing then
      { s with pairing := if status = .ok then .paired else .unpaired }
    else s
  | .other => s

def written (r : RelayRequest) : BitVec 32 :=
  (s.state &&& ~~~(r.mask &&& kChannelMask)) ||| (r.write &&& (r.mask &&& kChannelMask))

/-- The channels that a request changes, with their new values. -/
def calls (r : RelayRequest) : List (ℕ × Bool) :=
  changes (s.state ^^^ s.written r) (s.written r)

def accept (r : RelayRequest) : Shared :=
  ({ s with
      state := s.written r
      requests := s.requests + 1
      history := (s.calls r).map (fun d : ℕ × Bool => Entry.changed s.requests d.1 d.2) ++
        s.history }).reportState

/-- The locked section of a relay request, and the calls it leaves to make. -/
def relayRequest (r : RelayRequest) : Shared × List Frame :=
  if s.pairing ≠ .paired then (s, [])
  else (s.accept r, (s.calls r).map fun c => Frame.deliver s.requests c.1 c.2)

end Shared

inductive Event
  | send (data : Option (List ℕ))
  | update
  | resume

/-- `send` up to the end of its locked section. -/
def send (parsers : Parsers) (s : Shared) (data : Option (List ℕ)) : Shared × List Frame :=
  match data with
  | none => (s, [])
  | some bytes =>
    if bytes.length < kMagicSize ∨ bytes.length - kMagicSize > intMax then (s, [])
    else
      let payload := bytes.drop kMagicSize
      if bytes.take kMagicSize = kControlMagic then
        match parsers.control payload with
        | none => (s, [])
        | some msg => (s.control msg, [])
      else if bytes.take kMagicSize ≠ kDataMagic then (s, [])
      else match parsers.data payload with
        | some (some r) => s.relayRequest r
        | _ => (s, [])

/-- One atomic step of one thread. The output function may itself send. -/
def step (parsers : Parsers) : Program Shared Local Event
  | .send data, s, [] => some (send parsers s data)
  | .send data, s, .writeFn :: rest =>
    some ((send parsers s data).1, (send parsers s data).2 ++ .writeFn :: rest)
  | .send _, _, _ => none
  | .update, s, l => some (if s.pairing = .paired then s.reportState else s, l)
  | .resume, s, .deliver request idx value :: rest =>
    some ({ s with history := .delivered request idx value :: s.history }, .writeFn :: rest)
  | .resume, s, .writeFn :: rest => some (s, rest)
  | .resume, _, [] => none

abbrev System := Config Shared Local

def start : System := ⟨{}, fun _ => []⟩

def lastChanged (idx : ℕ) : List Entry → Option (ℕ × Bool)
  | [] => none
  | .changed request other value :: rest =>
    if other = idx then some (request, value) else lastChanged idx rest
  | .delivered _ _ _ :: rest => lastChanged idx rest

def lastDelivered (idx : ℕ) : List Entry → Option (ℕ × Bool)
  | [] => none
  | .delivered request other value :: rest =>
    if other = idx then some (request, value) else lastDelivered idx rest
  | .changed _ _ _ :: rest => lastDelivered idx rest

/-- No call overtakes the call of a later request for the same channel. -/
def InOrder (c : System) (e : ℕ × Event) : Prop :=
  ∀ request idx value rest, e.2 = .resume → c.thread e.1 = .deliver request idx value :: rest →
    ∀ other w, .delivered other idx w ∈ c.shared.history → other < request

theorem mem_changes {changed current : BitVec 32} {idx : ℕ} {value : Bool} :
    (idx, value) ∈ changes changed current ↔
      idx < 4 ∧ changed.getLsbD idx = true ∧ current.getLsbD idx = value := by
  simp only [changes, List.mem_filterMap, List.mem_range]
  constructor
  · rintro ⟨other, hlt, heq⟩
    split at heq
    · rename_i hbit
      cases heq
      exact ⟨hlt, hbit, rfl⟩
    · cases heq
  · rintro ⟨hlt, hbit, rfl⟩
    refine ⟨idx, hlt, ?_⟩
    rw [if_pos hbit]

theorem lastChanged_append_of_mem {idx request : ℕ} {value : Bool} {calls : List (ℕ × Bool)}
    {history : List Entry} (hmem : (idx, value) ∈ calls)
    (hone : ∀ w, (idx, w) ∈ calls → w = value) :
    lastChanged idx (calls.map (fun c => Entry.changed request c.1 c.2) ++ history) =
      some (request, value) := by
  induction calls with
  | nil => cases hmem
  | cons c calls ih =>
    obtain ⟨other, w⟩ := c
    by_cases h : other = idx
    · subst h
      rw [hone w List.mem_cons_self]
      simp [lastChanged]
    · have hrest := (List.mem_cons.mp hmem).resolve_left fun heq => h (Prod.mk.inj heq).1.symm
      have := ih hrest fun w hw => hone w (List.mem_cons_of_mem _ hw)
      simpa [lastChanged, h] using this

theorem lastChanged_append_of_not_mem {idx request : ℕ} {calls : List (ℕ × Bool)}
    {history : List Entry} (hnone : ∀ w, (idx, w) ∉ calls) :
    lastChanged idx (calls.map (fun c => Entry.changed request c.1 c.2) ++ history) =
      lastChanged idx history := by
  induction calls with
  | nil => rfl
  | cons c calls ih =>
    obtain ⟨other, w⟩ := c
    have h : other ≠ idx := by
      rintro rfl
      exact hnone w List.mem_cons_self
    have := ih fun w hw => hnone w (List.mem_cons_of_mem _ hw)
    simpa [lastChanged, h] using this

theorem lastDelivered_append {idx request : ℕ} {calls : List (ℕ × Bool)} {history : List Entry} :
    lastDelivered idx (calls.map (fun c => Entry.changed request c.1 c.2) ++ history) =
      lastDelivered idx history := by
  induction calls with
  | nil => rfl
  | cons c calls ih => exact ih

theorem mem_of_lastDelivered {idx request : ℕ} {value : Bool} {history : List Entry}
    (h : lastDelivered idx history = some (request, value)) :
    .delivered request idx value ∈ history := by
  induction history with
  | nil => cases h
  | cons e history ih =>
    cases e with
    | changed other idx' w => exact List.mem_cons_of_mem _ (ih h)
    | delivered other idx' w =>
      rw [lastDelivered] at h
      split at h
      · rename_i heq
        cases h
        rw [heq]
        exact List.mem_cons_self
      · exact List.mem_cons_of_mem _ (ih h)

/-- A request changes bits of its mask, of the four channels only. -/
theorem written_changed {s : Shared} {r : RelayRequest} {idx : ℕ}
    (h : (s.state ^^^ s.written r).getLsbD idx = true) : idx < 4 ∧ r.mask.getLsbD idx = true := by
  have hbit : (r.mask &&& kChannelMask).getLsbD idx = true := by
    by_contra hno
    have hno : (r.mask &&& kChannelMask).getLsbD idx = false := by simpa using hno
    by_cases hlt : idx < 32
    · rw [Shared.written] at h
      generalize r.mask &&& kChannelMask = m at h hno
      simp only [BitVec.getLsbD_xor, BitVec.getLsbD_or, BitVec.getLsbD_and, BitVec.getLsbD_not,
        hno] at h
      simp [hlt] at h
    · rw [BitVec.getLsbD_of_ge _ _ (Nat.not_lt.mp hlt)] at h
      cases h
  rw [BitVec.getLsbD_and, Bool.and_eq_true] at hbit
  refine ⟨?_, hbit.1⟩
  by_contra hge
  have hmask : kChannelMask.getLsbD idx = false := by
    rw [show kChannelMask = BitVec.ofNat 32 15 from rfl, BitVec.getLsbD_ofNat]
    have : Nat.testBit 15 idx = false := by
      apply Nat.testBit_lt_two_pow
      have : 2 ^ 4 ≤ 2 ^ idx := Nat.pow_le_pow_right (by omega) (by omega)
      omega
    simp [this]
  rw [hmask] at hbit
  exact Bool.noConfusion hbit.2

/-- The relay request that a packet carries. -/
def packetRequest (parsers : Parsers) : Option (List ℕ) → Option RelayRequest
  | none => none
  | some bytes =>
    if bytes.length < kMagicSize ∨ bytes.length - kMagicSize > intMax then none
    else if bytes.take kMagicSize = kControlMagic then none
    else if bytes.take kMagicSize ≠ kDataMagic then none
    else (parsers.data (bytes.drop kMagicSize)).join

/-- The state and its history stay as they are. -/
structure Same (s s' : Shared) : Prop where
  state : s'.state = s.state
  requests : s'.requests = s.requests
  history : s'.history = s.history

theorem control_same (s : Shared) (msg : ControlMessage) : Same s (s.control msg) := by
  cases msg with
  | hubPairingResponse status =>
    by_cases h : s.pairing = .pairing
    · rw [Shared.control, if_pos h]
      exact ⟨rfl, rfl, rfl⟩
    · rw [Shared.control, if_neg h]
      exact ⟨rfl, rfl, rfl⟩
  | _ => exact ⟨rfl, rfl, rfl⟩

theorem relayRequest_cases (s : Shared) (r : RelayRequest) :
    s.relayRequest r = (s, []) ∨ s.pairing = .paired ∧
      s.relayRequest r = (s.accept r, (s.calls r).map fun c => Frame.deliver s.requests c.1 c.2) := by
  by_cases h : s.pairing = .paired
  · refine Or.inr ⟨h, ?_⟩
    rw [Shared.relayRequest, if_neg (not_not.mpr h)]
  · refine Or.inl ?_
    rw [Shared.relayRequest, if_pos h]

theorem send_cases (parsers : Parsers) (s : Shared) (data : Option (List ℕ)) :
    (Same s (send parsers s data).1 ∧ (send parsers s data).2 = []) ∨
      ∃ r, packetRequest parsers data = some r ∧ send parsers s data = s.relayRequest r := by
  have hsame : Same s s := ⟨rfl, rfl, rfl⟩
  cases data with
  | none => exact Or.inl ⟨hsame, rfl⟩
  | some bytes =>
    simp only [send, packetRequest]
    split
    · exact Or.inl ⟨hsame, rfl⟩
    · split
      · refine Or.inl ?_
        split
        · exact ⟨hsame, rfl⟩
        · exact ⟨control_same s _, rfl⟩
      · split
        · exact Or.inl ⟨hsame, rfl⟩
        · split
          · rename_i r heq
            refine Or.inr ⟨r, ?_, rfl⟩
            rw [heq]
            rfl
          · exact Or.inl ⟨hsame, rfl⟩

/-- What the changes and the calls have to do with each other, whatever the order. -/
structure Inv (c : System) : Prop where
  bits : ∀ idx, c.shared.state.getLsbD idx =
    ((lastChanged idx c.shared.history).map Prod.snd).getD false
  bound : ∀ request idx value, .changed request idx value ∈ c.shared.history →
    request < c.shared.requests ∧ idx < 4
  latest : ∀ request idx value, .changed request idx value ∈ c.shared.history →
    ∃ last w, lastChanged idx c.shared.history = some (last, w) ∧
      .changed last idx w ∈ c.shared.history ∧ (request < last ∨ request = last ∧ value = w)
  kept : ∀ request idx value, .changed request idx value ∈ c.shared.history →
    .delivered request idx value ∈ c.shared.history ∨
      ∃ t, .deliver request idx value ∈ c.thread t
  due : ∀ t request idx value, .deliver request idx value ∈ c.thread t →
    .changed request idx value ∈ c.shared.history
  called : ∀ request idx value, .delivered request idx value ∈ c.shared.history →
    .changed request idx value ∈ c.shared.history

/-- The last call for a channel is the one of the latest request called. -/
def Ordered (c : System) : Prop :=
  ∀ request idx value, .delivered request idx value ∈ c.shared.history →
    ∃ last w, lastDelivered idx c.shared.history = some (last, w) ∧ request ≤ last

theorem start_inv : Inv start := by
  constructor
  · intro idx
    simp [start, lastChanged]
  · intro request idx value h
    cases h
  · intro request idx value h
    cases h
  · intro request idx value h
    cases h
  · intro t request idx value h
    cases h
  · intro request idx value h
    cases h

section Steps

variable {c : System} {t : ℕ} {s' : Shared} {l' : Local}

/-- A step that changes neither the state nor the calls to make. -/
theorem Inv.same (h : Inv c) (hs : Same c.shared s')
    (hcalls : ∀ request idx value, .deliver request idx value ∈ l' ↔
      .deliver request idx value ∈ c.thread t) :
    Inv ⟨s', Function.update c.thread t l'⟩ := by
  have hthread : ∀ u request idx value, .deliver request idx value ∈ Function.update c.thread t l' u ↔
      .deliver request idx value ∈ c.thread u := by
    intro u request idx value
    by_cases hu : u = t
    · subst hu
      rw [Function.update_self]
      exact hcalls request idx value
    · rw [Function.update_of_ne hu]
  constructor
  · rw [hs.state, hs.history]
    exact h.bits
  · rw [hs.history, hs.requests]
    exact h.bound
  · rw [hs.history]
    exact h.latest
  · intro request idx value hmem
    dsimp only at hmem ⊢
    rw [hs.history] at hmem ⊢
    refine (h.kept request idx value hmem).imp id fun ⟨u, hu⟩ => ?_
    exact ⟨u, (hthread u request idx value).mpr hu⟩
  · intro u request idx value hmem
    dsimp only at hmem ⊢
    rw [hs.history]
    exact h.due u request idx value ((hthread u request idx value).mp hmem)
  · rw [hs.history]
    exact h.called

/-- A request is accepted: the changes are recorded and the calls are put on the stack. -/
theorem Inv.accept (h : Inv c) (r : RelayRequest) :
    Inv ⟨c.shared.accept r, Function.update c.thread t
      ((c.shared.calls r).map (fun d => Frame.deliver c.shared.requests d.1 d.2) ++
        c.thread t)⟩ := by
  have hone : ∀ {idx v}, (idx, v) ∈ c.shared.calls r → ∀ w, (idx, w) ∈ c.shared.calls r → w = v := by
    intro idx v hv w hw
    exact (mem_changes.mp hw).2.2.symm.trans (mem_changes.mp hv).2.2
  have hnew : ∀ {request idx value}, Entry.changed request idx value ∈ (c.shared.accept r).history ↔
      (request = c.shared.requests ∧ (idx, value) ∈ c.shared.calls r) ∨
        .changed request idx value ∈ c.shared.history := by
    intro request idx value
    refine List.mem_append.trans (or_congr_left ?_)
    simp only [List.mem_map, Entry.changed.injEq, Prod.exists]
    constructor
    · rintro ⟨other, w, hmem, rfl, rfl, rfl⟩
      exact ⟨rfl, hmem⟩
    · rintro ⟨rfl, hmem⟩
      exact ⟨idx, value, hmem, rfl, rfl, rfl⟩
  have hdelivered : ∀ {request idx value}, Entry.delivered request idx value ∈
      (c.shared.accept r).history ↔ .delivered request idx value ∈ c.shared.history := by
    intro request idx value
    refine List.mem_append.trans (or_iff_right ?_)
    simp
  have hcall : ∀ {request idx value}, Frame.deliver request idx value ∈
      (c.shared.calls r).map (fun d => Frame.deliver c.shared.requests d.1 d.2) ↔
        request = c.shared.requests ∧ (idx, value) ∈ c.shared.calls r := by
    intro request idx value
    simp only [List.mem_map, Frame.deliver.injEq, Prod.exists]
    constructor
    · rintro ⟨other, w, hmem, rfl, rfl, rfl⟩
      exact ⟨rfl, hmem⟩
    · rintro ⟨rfl, hmem⟩
      exact ⟨idx, value, hmem, rfl, rfl, rfl⟩
  constructor
  · intro idx
    by_cases hbit : (c.shared.state ^^^ c.shared.written r).getLsbD idx = true
    · have hmem : (idx, (c.shared.written r).getLsbD idx) ∈ c.shared.calls r :=
        mem_changes.mpr ⟨(written_changed hbit).1, hbit, rfl⟩
      have hlast : lastChanged idx (c.shared.accept r).history =
          some (c.shared.requests, (c.shared.written r).getLsbD idx) :=
        lastChanged_append_of_mem hmem (hone hmem)
      rw [hlast]
      rfl
    · have hnone : ∀ w, (idx, w) ∉ c.shared.calls r := fun w hw => hbit (mem_changes.mp hw).2.1
      have hlast : lastChanged idx (c.shared.accept r).history =
          lastChanged idx c.shared.history := lastChanged_append_of_not_mem hnone
      rw [hlast, ← h.bits]
      rw [BitVec.getLsbD_xor] at hbit
      show (c.shared.written r).getLsbD idx = c.shared.state.getLsbD idx
      cases hs : c.shared.state.getLsbD idx <;> cases hw : (c.shared.written r).getLsbD idx <;>
        simp [hs, hw] at hbit ⊢
  · intro request idx value hmem
    rcases hnew.mp hmem with ⟨rfl, hnow⟩ | hold
    · exact ⟨Nat.lt_succ_self _, (mem_changes.mp hnow).1⟩
    · obtain ⟨hlt, hidx⟩ := h.bound request idx value hold
      exact ⟨Nat.lt_succ_of_lt hlt, hidx⟩
  · intro request idx value hmem
    by_cases hcalls : ∃ v, (idx, v) ∈ c.shared.calls r
    · obtain ⟨v, hv⟩ := hcalls
      refine ⟨c.shared.requests, v, lastChanged_append_of_mem hv (hone hv),
        hnew.mpr (Or.inl ⟨rfl, hv⟩), ?_⟩
      rcases hnew.mp hmem with ⟨rfl, hnow⟩ | hold
      · exact Or.inr ⟨rfl, hone hv value hnow⟩
      · exact Or.inl (h.bound request idx value hold).1
    · have hnone : ∀ w, (idx, w) ∉ c.shared.calls r := fun w hw => hcalls ⟨w, hw⟩
      have hold := (hnew.mp hmem).resolve_left fun hnow => hnone value hnow.2
      obtain ⟨last, w, hlast, hlastmem, hle⟩ := h.latest request idx value hold
      exact ⟨last, w, (lastChanged_append_of_not_mem hnone).trans hlast, hnew.mpr (Or.inr hlastmem),
        hle⟩
  · intro request idx value hmem
    dsimp only at hmem ⊢
    rcases hnew.mp hmem with hnow | hold
    · refine Or.inr ⟨t, ?_⟩
      rw [Function.update_self]
      exact List.mem_append_left _ (hcall.mpr hnow)
    · refine (h.kept request idx value hold).imp hdelivered.mpr fun ⟨u, hu⟩ => ⟨u, ?_⟩
      by_cases hut : u = t
      · subst hut
        rw [Function.update_self]
        exact List.mem_append_right _ hu
      · rw [Function.update_of_ne hut]
        exact hu
  · intro u request idx value hmem
    dsimp only at hmem ⊢
    by_cases hut : u = t
    · subst hut
      rw [Function.update_self] at hmem
      rcases List.mem_append.mp hmem with hnow | hold
      · exact hnew.mpr (Or.inl (hcall.mp hnow))
      · exact hnew.mpr (Or.inr (h.due u request idx value hold))
    · rw [Function.update_of_ne hut] at hmem
      exact hnew.mpr (Or.inr (h.due u request idx value hmem))
  · intro request idx value hmem
    exact hnew.mpr (Or.inr (h.called request idx value (hdelivered.mp hmem)))

/-- The output function is called. -/
theorem Inv.deliver (h : Inv c) {request idx : ℕ} {value : Bool} {rest : Local}
    (ht : c.thread t = .deliver request idx value :: rest) :
    Inv ⟨{ c.shared with history := .delivered request idx value :: c.shared.history },
      Function.update c.thread t (.writeFn :: rest)⟩ := by
  have hchanged : ∀ {n i v}, Entry.changed n i v ∈ .delivered request idx value :: c.shared.history ↔
      .changed n i v ∈ c.shared.history := by
    intro n i v
    simp
  have hdue : .changed request idx value ∈ c.shared.history := by
    apply h.due t
    rw [ht]
    exact List.mem_cons_self
  constructor
  · exact h.bits
  · exact fun n i v hmem => h.bound n i v (hchanged.mp hmem)
  · intro n i v hmem
    obtain ⟨last, w, hlast, hlastmem, hle⟩ := h.latest n i v (hchanged.mp hmem)
    exact ⟨last, w, hlast, hchanged.mpr hlastmem, hle⟩
  · intro n i v hmem
    dsimp only at hmem ⊢
    rcases h.kept n i v (hchanged.mp hmem) with hold | ⟨u, hu⟩
    · exact Or.inl (List.mem_cons_of_mem _ hold)
    · by_cases hut : u = t
      · subst hut
        rw [ht] at hu
        rcases List.mem_cons.mp hu with heq | hu
        · cases heq
          exact Or.inl List.mem_cons_self
        · refine Or.inr ⟨u, ?_⟩
          rw [Function.update_self]
          exact List.mem_cons_of_mem _ hu
      · refine Or.inr ⟨u, ?_⟩
        rw [Function.update_of_ne hut]
        exact hu
  · intro u n i v hmem
    dsimp only at hmem ⊢
    apply hchanged.mpr
    apply h.due u
    by_cases hut : u = t
    · subst hut
      rw [Function.update_self] at hmem
      rw [ht]
      exact List.mem_cons_of_mem _ ((List.mem_cons.mp hmem).resolve_left nofun)
    · rw [Function.update_of_ne hut] at hmem
      exact hmem
  · intro n i v hmem
    rcases List.mem_cons.mp hmem with heq | hmem
    · cases heq
      exact hchanged.mpr hdue
    · exact hchanged.mpr (h.called n i v hmem)

end Steps

/-- A `send` of a thread that is not inside of `send`, or is inside of the output function. -/
theorem Inv.send (parsers : Parsers) {c : System} {t : ℕ} (h : Inv c) (data : Option (List ℕ)) :
    Inv ⟨(send parsers c.shared data).1,
      Function.update c.thread t ((send parsers c.shared data).2 ++ c.thread t)⟩ := by
  have hsame : Inv ⟨c.shared, Function.update c.thread t ([] ++ c.thread t)⟩ :=
    h.same ⟨rfl, rfl, rfl⟩ fun _ _ _ => Iff.rfl
  rcases send_cases parsers c.shared data with ⟨hs, hnone⟩ | ⟨r, -, heq⟩
  · rw [hnone]
    exact h.same hs fun _ _ _ => Iff.rfl
  · rw [heq]
    rcases relayRequest_cases c.shared r with hno | ⟨-, hyes⟩
    · rw [hno]
      exact hsame
    · rw [hyes]
      exact h.accept r

/-- What a step can be. -/
theorem step_cases {parsers : Parsers} {c c' : System} {t : ℕ} {a : Event}
    (hstep : fire (step parsers) c (t, a) = some c') :
    (∃ data, a = .send data ∧ c' = ⟨(send parsers c.shared data).1,
      Function.update c.thread t ((send parsers c.shared data).2 ++ c.thread t)⟩) ∨
    (a = .update ∧ c' = ⟨if c.shared.pairing = .paired then c.shared.reportState else c.shared,
      Function.update c.thread t (c.thread t)⟩) ∨
    (∃ rest, a = .resume ∧ c.thread t = .writeFn :: rest ∧
      c' = ⟨c.shared, Function.update c.thread t rest⟩) ∨
    ∃ request idx value rest, a = .resume ∧ c.thread t = .deliver request idx value :: rest ∧
      c' = ⟨{ c.shared with history := .delivered request idx value :: c.shared.history },
        Function.update c.thread t (.writeFn :: rest)⟩ := by
  obtain ⟨s', l', hp, rfl⟩ := fire_eq_some.mp hstep
  dsimp only at hp
  generalize hl : c.thread t = l at hp ⊢
  cases a with
  | send data =>
    refine .inl ⟨data, rfl, ?_⟩
    cases l with
    | nil =>
      have hsend : send parsers c.shared data = (s', l') := Option.some.inj hp
      rw [hsend, List.append_nil]
    | cons f rest =>
      cases f with
      | deliver request idx value => cases hp
      | writeFn =>
        obtain ⟨rfl, rfl⟩ := Prod.mk.inj (Option.some.inj hp)
        rfl
  | update =>
    obtain ⟨rfl, rfl⟩ := Prod.mk.inj (Option.some.inj hp)
    exact .inr (.inl ⟨rfl, rfl⟩)
  | resume =>
    cases l with
    | nil => cases hp
    | cons f rest =>
      cases f with
      | writeFn =>
        obtain ⟨rfl, rfl⟩ := Prod.mk.inj (Option.some.inj hp)
        exact .inr (.inr (.inl ⟨rest, rfl, rfl, rfl⟩))
      | deliver request idx value =>
        obtain ⟨rfl, rfl⟩ := Prod.mk.inj (Option.some.inj hp)
        exact .inr (.inr (.inr ⟨request, idx, value, rest, rfl, rfl, rfl⟩))

theorem inv_preserves (parsers : Parsers) : Preserves (fire (step parsers)) Inv := by
  rintro c ⟨t, a⟩ c' hstep h
  obtain ⟨data, -, rfl⟩ | ⟨-, rfl⟩ | ⟨rest, -, hl, rfl⟩ | ⟨request, idx, value, rest, -, hl, rfl⟩ :=
    step_cases hstep
  · exact h.send parsers data
  · refine h.same ?_ fun _ _ _ => Iff.rfl
    split <;> exact ⟨rfl, rfl, rfl⟩
  · refine h.same ⟨rfl, rfl, rfl⟩ fun request idx value => ?_
    rw [hl]
    simp
  · exact h.deliver hl

theorem send_delivered (parsers : Parsers) (s : Shared) (data : Option (List ℕ)) :
    (∀ idx, lastDelivered idx (send parsers s data).1.history = lastDelivered idx s.history) ∧
      ∀ request idx value, .delivered request idx value ∈ (send parsers s data).1.history →
        .delivered request idx value ∈ s.history := by
  rcases send_cases parsers s data with ⟨hs, -⟩ | ⟨r, -, heq⟩
  · rw [hs.history]
    exact ⟨fun _ => rfl, fun _ _ _ hmem => hmem⟩
  · rw [heq]
    rcases relayRequest_cases s r with hno | ⟨-, hyes⟩
    · rw [hno]
      exact ⟨fun _ => rfl, fun _ _ _ hmem => hmem⟩
    · rw [hyes]
      refine ⟨fun idx => lastDelivered_append, fun request idx value hmem => ?_⟩
      rcases List.mem_append.mp hmem with hnew | hold
      · simp at hnew
      · exact hold

/-- A step that delivers nothing. -/
theorem Ordered.same {c c' : System} (h : Ordered c)
    (hlast : ∀ idx, lastDelivered idx c'.shared.history = lastDelivered idx c.shared.history)
    (hmem : ∀ request idx value, .delivered request idx value ∈ c'.shared.history →
      .delivered request idx value ∈ c.shared.history) : Ordered c' := by
  intro request idx value hd
  rw [hlast]
  exact h request idx value (hmem request idx value hd)

theorem ordered_preserves (parsers : Parsers) :
    PreservesWhen (fire (step parsers)) InOrder Ordered := by
  rintro c ⟨t, a⟩ c' hok hstep h
  obtain ⟨data, -, rfl⟩ | ⟨-, rfl⟩ | ⟨rest, -, hl, rfl⟩ | ⟨request, idx, value, rest, ha, hl, rfl⟩ :=
    step_cases hstep
  · obtain ⟨hlast, hmem⟩ := send_delivered parsers c.shared data
    exact h.same hlast hmem
  · apply h.same
    · intro idx
      dsimp only
      split <;> rfl
    · intro request idx value hmem
      dsimp only at hmem
      split at hmem <;> exact hmem
  · exact h.same (fun _ => rfl) fun _ _ _ hmem => hmem
  · have hearlier := hok request idx value rest ha hl
    intro n i v hmem
    dsimp only at hmem ⊢
    by_cases heq : idx = i
    · subst heq
      refine ⟨request, value, by rw [lastDelivered, if_pos rfl], ?_⟩
      rcases List.mem_cons.mp hmem with hnow | hold
      · cases hnow
        exact Nat.le_refl _
      · exact (hearlier n v hold).le
    · rw [lastDelivered, if_neg heq]
      refine h n i v ((List.mem_cons.mp hmem).resolve_left fun hnow => ?_)
      cases hnow
      exact heq rfl

/-- Only an accepted request changes the state, and it records the bits it changes. -/
theorem step_changes (parsers : Parsers) {c c' : System} {a : ℕ × Event}
    (hstep : fire (step parsers) c a = some c') :
    (c'.shared.state = c.shared.state ∧ ∀ request idx value,
      .changed request idx value ∈ c'.shared.history →
        .changed request idx value ∈ c.shared.history) ∨
    ∃ data r, a.2 = .send data ∧ packetRequest parsers data = some r ∧
      c.shared.pairing = .paired ∧ c'.shared = c.shared.accept r := by
  obtain ⟨t, a⟩ := a
  obtain ⟨data, ha, rfl⟩ | ⟨-, rfl⟩ | ⟨rest, -, hl, rfl⟩ | ⟨request, idx, value, rest, -, hl, rfl⟩ :=
    step_cases hstep
  · dsimp only
    rcases send_cases parsers c.shared data with ⟨hs, -⟩ | ⟨r, hr, heq⟩
    · rw [hs.state, hs.history]
      exact Or.inl ⟨rfl, fun _ _ _ hmem => hmem⟩
    · rcases relayRequest_cases c.shared r with hno | ⟨hpaired, hyes⟩
      · rw [heq, hno]
        exact Or.inl ⟨rfl, fun _ _ _ hmem => hmem⟩
      · rw [heq, hyes]
        exact Or.inr ⟨data, r, ha, hr, hpaired, rfl⟩
  · refine Or.inl ?_
    dsimp only
    split <;> exact ⟨rfl, fun _ _ _ hmem => hmem⟩
  · exact Or.inl ⟨rfl, fun _ _ _ hmem => hmem⟩
  · exact Or.inl ⟨rfl, fun _ _ _ hmem => (List.mem_cons.mp hmem).resolve_left nofun⟩

/-- The output function is called for bits that an accepted request has changed, and a request
changes no bit outside of its mask or above the four channels. Where no call overtakes a later one
for its channel, the last value delivered is the bit of the state once every `send` has returned. -/
theorem outputs_follow_state (parsers : Parsers) {es : List (ℕ × Event)} {c : System}
    (hr : run (fire (step parsers)) start es = some c) :
    (∀ request idx value, .delivered request idx value ∈ c.shared.history →
      .changed request idx value ∈ c.shared.history ∧ idx < 4) ∧
    (∀ a c', fire (step parsers) c a = some c' → ∀ idx,
      c'.shared.state.getLsbD idx ≠ c.shared.state.getLsbD idx →
        ∃ data r, a.2 = .send data ∧ packetRequest parsers data = some r ∧
          c.shared.pairing = .paired ∧ idx < 4 ∧ r.mask.getLsbD idx = true) ∧
    (∀ a c', fire (step parsers) c a = some c' → ∀ request idx value,
      .changed request idx value ∈ c'.shared.history →
        .changed request idx value ∈ c.shared.history ∨
          c'.shared.state.getLsbD idx = value ∧ c.shared.state.getLsbD idx ≠ value) ∧
    (Meets (fire (step parsers)) InOrder start es → (∀ t, c.thread t = []) →
      ∀ request idx value, .changed request idx value ∈ c.shared.history →
        ∃ last, lastDelivered idx c.shared.history =
          some (last, c.shared.state.getLsbD idx)) := by
  have h : Inv c := (inv_preserves parsers).run hr start_inv
  refine ⟨?_, ?_, ?_, ?_⟩
  · intro request idx value hmem
    have hchanged := h.called request idx value hmem
    exact ⟨hchanged, (h.bound request idx value hchanged).2⟩
  · intro a c' hstep idx hne
    rcases step_changes parsers hstep with ⟨hstate, -⟩ | ⟨data, r, ha, hpacket, hpaired, hs⟩
    · rw [hstate] at hne
      exact absurd rfl hne
    · have hbit : (c.shared.state ^^^ c.shared.written r).getLsbD idx = true := by
        rw [hs] at hne
        have hne : (c.shared.written r).getLsbD idx ≠ c.shared.state.getLsbD idx := hne
        rw [BitVec.getLsbD_xor]
        exact bne_iff_ne.mpr hne.symm
      obtain ⟨hlt, hmask⟩ := written_changed hbit
      exact ⟨data, r, ha, hpacket, hpaired, hlt, hmask⟩
  · intro a c' hstep request idx value hmem
    rcases step_changes parsers hstep with ⟨-, hold⟩ | ⟨data, r, -, -, -, hs⟩
    · exact Or.inl (hold request idx value hmem)
    · rw [hs] at hmem ⊢
      rcases List.mem_append.mp hmem with hnew | hold
      · obtain ⟨⟨i, v⟩, hcall, heq⟩ := List.mem_map.mp hnew
        cases heq
        obtain ⟨-, hbit, rfl⟩ := mem_changes.mp hcall
        rw [BitVec.getLsbD_xor] at hbit
        exact Or.inr ⟨rfl, bne_iff_ne.mp hbit⟩
      · exact Or.inl hold
  · intro hmeets hidle request idx value hmem
    have hordered : Ordered c := (ordered_preserves parsers).run hmeets hr fun n i v hd => by cases hd
    obtain ⟨last, w, hlast, hlastmem, -⟩ := h.latest request idx value hmem
    have hdelivered : .delivered last idx w ∈ c.shared.history := by
      rcases h.kept last idx w hlastmem with hd | ⟨t, ht⟩
      · exact hd
      · rw [hidle t] at ht
        cases ht
    obtain ⟨n, v, hlastd, hle⟩ := hordered last idx w hdelivered
    have hchanged := h.called n idx v (mem_of_lastDelivered hlastd)
    obtain ⟨m, u, hm, -, hcmp⟩ := h.latest n idx v hchanged
    rw [hlast] at hm
    cases hm
    have hv : v = w := by
      rcases hcmp with hlt | ⟨-, heq⟩
      · omega
      · exact heq
    refine ⟨n, ?_⟩
    rw [hlastd, hv, h.bits idx, hlast]
    rfl

/-- What the protobuf code makes of the packets below. -/
def sampleParsers : Parsers where
  control
    | [0x12, 0x02, 0x08, 0x01] => some .hubDiscoveryResponse
    | [0x22, 0x00] => some (.hubPairingResponse .ok)
    | _ => none
  data
    | [0x32, 0x0a, 0x0d, m, 0, 0, 0, 0x15, w, 0, 0, 0] =>
      some (some { mask := BitVec.ofNat 32 m, write := BitVec.ofNat 32 w })
    | _ => none

def pairUp : List (ℕ × Event) :=
  [(0, .send (some (kControlMagic ++ [0x12, 0x02, 0x08, 0x01]))),
   (0, .send (some (kControlMagic ++ [0x22, 0x00])))]

def requestPacket (mask write : ℕ) : Event :=
  .send (some (kDataMagic ++ [0x32, 0x0a, 0x0d, mask, 0, 0, 0, 0x15, write, 0, 0, 0]))

/-- Two threads switch a channel on and off in turn. -/
def inTurn : List (ℕ × Event) :=
  pairUp ++ [(0, requestPacket 1 1), (0, .resume), (0, .resume), (1, requestPacket 1 0),
    (1, .resume), (1, .resume)]

def inOrder (c : System) (e : ℕ × Event) : Bool :=
  match e.2, c.thread e.1 with
  | .resume, .deliver request idx _ :: _ => c.shared.history.all fun
    | .delivered other i _ => i != idx || decide (other < request)
    | _ => true
  | _, _ => true

theorem inOrder_sound {c : System} {e : ℕ × Event} (h : inOrder c e = true) : InOrder c e := by
  intro request idx value rest he ht other w hmem
  rw [inOrder, he, ht] at h
  have := List.all_eq_true.mp h _ hmem
  simpa using this

theorem idle_of_two {c : System} {es : List (ℕ × Event)} {parsers : Parsers}
    (hr : run (fire (step parsers)) start es = some c) (hes : ∀ a ∈ es, a.1 < 2)
    (hzero : c.thread 0 = []) (hone : c.thread 1 = []) (t : ℕ) : c.thread t = [] := by
  by_cases ht : t < 2
  · obtain rfl | rfl : t = 0 ∨ t = 1 := by omega
    · exact hzero
    · exact hone
  · refine run_thread hr fun a ha => ?_
    have := hes a ha
    omega

theorem outputs_follow_state_inTurn :
    ∃ c, run (fire (step sampleParsers)) start inTurn = some c ∧
      ∃ last, lastDelivered 0 c.shared.history = some (last, c.shared.state.getLsbD 0) := by
  have hrun : (run (fire (step sampleParsers)) start inTurn).map
      (fun c => (c.thread 0, c.thread 1, c.shared.history)) =
      some ([], [], [.delivered 1 0 false, .changed 1 0 false, .delivered 0 0 true,
        .changed 0 0 true]) := by
    decide +kernel
  obtain ⟨c, hc, heq⟩ := Option.map_eq_some_iff.mp hrun
  obtain ⟨hzero, heq⟩ := Prod.mk.inj heq
  obtain ⟨hone, hhistory⟩ := Prod.mk.inj heq
  refine ⟨c, hc, (outputs_follow_state sampleParsers hc).2.2.2 ?_ ?_ 0 0 true ?_⟩
  · exact Meets.of_check (I := fun _ => True) (fun _ _ _ _ _ _ => trivial)
      (fun _ _ _ => inOrder_sound) trivial
      (by decide +kernel : check (fire (step sampleParsers)) inOrder start inTurn = true)
  · exact idle_of_two hc (by decide) hzero hone
  · rw [hhistory]
    decide

/-- The second of two threads that switch a channel on and off is the first to call. -/
def overtaken : List (ℕ × Event) :=
  pairUp ++ [(0, requestPacket 1 1), (1, requestPacket 1 0), (1, .resume), (1, .resume),
    (0, .resume), (0, .resume)]

theorem overtaken_differs : ¬ ∀ (es : List (ℕ × Event)) (c : System),
    run (fire (step sampleParsers)) start es = some c → (∀ t, c.thread t = []) →
      ∀ request idx value, .changed request idx value ∈ c.shared.history →
        ∃ last, lastDelivered idx c.shared.history =
          some (last, c.shared.state.getLsbD idx) := by
  intro h
  have hrun : (run (fire (step sampleParsers)) start overtaken).map
      (fun c => (c.thread 0, c.thread 1, c.shared.history, c.shared.state)) =
      some ([], [], [.delivered 0 0 true, .delivered 1 0 false, .changed 1 0 false,
        .changed 0 0 true], 0) := by
    decide +kernel
  obtain ⟨c, hc, heq⟩ := Option.map_eq_some_iff.mp hrun
  obtain ⟨hzero, heq⟩ := Prod.mk.inj heq
  obtain ⟨hone, heq⟩ := Prod.mk.inj heq
  obtain ⟨hhistory, hstate⟩ := Prod.mk.inj heq
  obtain ⟨last, hlast⟩ := h overtaken c hc (idle_of_two hc (by decide) hzero hone) 0 0 true (by
    rw [hhistory]
    decide)
  rw [hhistory, hstate] at hlast
  simp [lastDelivered] at hlast

end RooTesting.Relay
