import RooTesting.RelayOutputs
import Mathlib.Data.List.Infix
import Mathlib.Data.Int.Basic

/-! # The pairing of two devices

The relay and the environmental sensor implement the same pairing with code of their own. Both are
compared to what a hub has told them, on the same packets. -/
namespace RooTesting.PairingAgreement
open Relay

/-- A `size_t` as an `int`. -/
def toInt (n : ℕ) : ℤ := Int.bmod n (2 ^ 32)

section Sensor
variable (parsers : Parsers) (negative : List ℕ → ℤ → Option ControlMessage)

/-- `ParseFromArray` of a control message. What it does with a negative size is left open. -/
def parseFromArray (data : List ℕ) (size : ℤ) : Option ControlMessage :=
  if 0 ≤ size then parsers.control (data.take size.toNat) else negative data size

/-- The control message in a packet, as the sensor finds it. -/
def heard (packet : List ℕ) : Option ControlMessage :=
  if packet.length < 8 ∨ packet.take 8 ≠ kControlMagic then none
  else parseFromArray parsers negative (packet.drop 8) (toInt (packet.length - 8))

/-- `FakeRooEnvironmentalSensor::send`. -/
def sensorSend (state : PairingState) (packet : List ℕ) : PairingState :=
  match heard parsers negative packet with
  | some .hubDiscoveryResponse => .pairing
  | some (.hubPairingResponse _) => .paired
  | _ => state

end Sensor

section Packets
variable (parsers : Parsers) (negative : List ℕ → ℤ → Option ControlMessage)

/-- The control message of a packet; a message of protobuf has a size of at most `INT_MAX`. -/
def message (packet : List ℕ) : Option ControlMessage :=
  if packet.length < kMagicSize ∨ packet.length - kMagicSize > intMax then none
  else if packet.take kMagicSize = kControlMagic then parsers.control (packet.drop kMagicSize)
  else none

def messages (packets : List (List ℕ)) : List ControlMessage :=
  packets.filterMap (message parsers)

def relayAfter (packets : List (List ℕ)) : Shared :=
  packets.foldl (fun s packet => (send parsers s (some packet)).1) {}

def sensorAfter (packets : List (List ℕ)) : PairingState :=
  packets.foldl (sensorSend parsers negative) .unpaired

end Packets

/-- A discovery response has come, and no pairing response since. -/
def PairingBy (messages : List ControlMessage) : Prop :=
  ∃ before since, messages = before ++ .hubDiscoveryResponse :: since ∧ ∀ m ∈ since, m = .other

/-- A discovery response, the pairing response to it with status `kOk`, and then no discovery
response. -/
def PairedBy (messages : List ControlMessage) : Prop :=
  ∃ before since, messages = before ++ .hubPairingResponse .ok :: since ∧ PairingBy before ∧
    .hubDiscoveryResponse ∉ since

/-- After each packet each device is paired as the hub has said, the two are in the same state, and
a packet without a control message has changed nothing. -/
structure Agree (parsers : Parsers) (negative : List ℕ → ℤ → Option ControlMessage)
    (packets : List (List ℕ)) : Prop where
  relay : ∀ past, past <+: packets →
    ((relayAfter parsers past).pairing = .paired ↔ PairedBy (messages parsers past))
  sensor : ∀ past, past <+: packets →
    (sensorAfter parsers negative past = .paired ↔ PairedBy (messages parsers past))
  same : ∀ past, past <+: packets →
    (relayAfter parsers past).pairing = sensorAfter parsers negative past
  unchanged : ∀ past packet, past ++ [packet] <+: packets → message parsers packet = none →
    (relayAfter parsers (past ++ [packet])).pairing = (relayAfter parsers past).pairing ∧
      sensorAfter parsers negative (past ++ [packet]) = sensorAfter parsers negative past

/-- The sensor gets a pairing response only when it has asked for one, and that accepts it, or when
it is paired already; and of a packet with more than `INT_MAX` bytes after the mark it reads no
response that would change its state. -/
def Solicited (parsers : Parsers) (negative : List ℕ → ℤ → Option ControlMessage)
    (state : PairingState) (packet : List ℕ) : Prop :=
  if packet.length - kMagicSize ≤ intMax then
    ∀ status, message parsers packet = some (.hubPairingResponse status) →
      state = .pairing ∧ status = .ok ∨ state = .paired
  else
    (heard parsers negative packet = some .hubDiscoveryResponse → state = .pairing) ∧
    ∀ status, heard parsers negative packet = some (.hubPairingResponse status) → state = .paired

section History
variable {ms : List ControlMessage} {m : ControlMessage}

/-- What a message does to the pairing. -/
def advance (state : PairingState) : ControlMessage → PairingState
  | .hubDiscoveryResponse => .pairing
  | .hubPairingResponse status =>
      if state = .pairing then if status = .ok then .paired else .unpaired else state
  | .other => state

theorem pairingBy_snoc :
    PairingBy (ms ++ [m]) ↔ m = .hubDiscoveryResponse ∨ m = .other ∧ PairingBy ms := by
  constructor
  · rintro ⟨before, since, hsplit, hother⟩
    rcases List.eq_nil_or_concat since with rfl | ⟨since, last, rfl⟩
    · exact .inl (List.singleton_inj.1 (List.append_inj_right' hsplit rfl))
    · rw [List.concat_eq_append, ← List.cons_append, ← List.append_assoc] at hsplit
      obtain ⟨rfl, hlast⟩ := List.append_inj' hsplit rfl
      obtain rfl := List.singleton_inj.1 hlast
      refine .inr ⟨hother m (by simp), before, since, rfl, ?_⟩
      intro later hin
      exact hother later (by simp [hin])
  · rintro (rfl | ⟨rfl, before, since, rfl, hother⟩)
    · exact ⟨ms, [], rfl, by simp⟩
    · refine ⟨before, since ++ [.other], by simp, ?_⟩
      intro m hin
      rcases List.mem_append.1 hin with hin | hlast
      · exact hother m hin
      · exact List.mem_singleton.1 hlast

theorem pairedBy_snoc :
    PairedBy (ms ++ [m]) ↔
      m = .hubPairingResponse .ok ∧ PairingBy ms ∨ m ≠ .hubDiscoveryResponse ∧ PairedBy ms := by
  constructor
  · rintro ⟨before, since, hsplit, hpairing, hnone⟩
    rcases List.eq_nil_or_concat since with rfl | ⟨since, last, rfl⟩
    · obtain ⟨rfl, hlast⟩ := List.append_inj' hsplit rfl
      exact .inl ⟨List.singleton_inj.1 hlast, hpairing⟩
    · rw [List.concat_eq_append, ← List.cons_append, ← List.append_assoc] at hsplit
      obtain ⟨rfl, hlast⟩ := List.append_inj' hsplit rfl
      obtain rfl := List.singleton_inj.1 hlast
      rw [List.concat_eq_append, List.mem_append, List.mem_singleton, not_or] at hnone
      exact .inr ⟨fun heq => hnone.2 heq.symm, before, since, rfl, hpairing, hnone.1⟩
  · rintro (⟨rfl, hpairing⟩ | ⟨hne, before, since, rfl, hpairing, hnone⟩)
    · exact ⟨ms, [], rfl, hpairing, by simp⟩
    · refine ⟨before, since ++ [m], by simp, hpairing, ?_⟩
      rw [List.mem_append, List.mem_singleton, not_or]
      exact ⟨hnone, fun heq => hne heq.symm⟩

theorem state_of_messages (ms : List ControlMessage) :
    (ms.foldl advance .unpaired = .pairing ↔ PairingBy ms) ∧
      (ms.foldl advance .unpaired = .paired ↔ PairedBy ms) := by
  induction ms using List.reverseRecOn with
  | nil =>
    constructor
    · refine iff_of_false (by decide) ?_
      rintro ⟨before, since, hsplit, -⟩
      simp at hsplit
    · refine iff_of_false (by decide) ?_
      rintro ⟨before, since, hsplit, -⟩
      simp at hsplit
  | append_singleton ms m ih =>
    obtain ⟨hpairing, hpaired⟩ := ih
    rw [List.foldl_append, List.foldl_cons, List.foldl_nil, pairingBy_snoc, pairedBy_snoc,
      ← hpairing, ← hpaired]
    cases m with
    | hubDiscoveryResponse => simp [advance]
    | hubPairingResponse status =>
      cases status <;> cases ms.foldl advance .unpaired <;> simp [advance]
    | other => simp [advance]

end History

section Steps
variable {parsers : Parsers} {negative : List ℕ → ℤ → Option ControlMessage} {packet : List ℕ}

/-- What a packet does to the pairing, by its message. -/
def advanced (parsers : Parsers) (state : PairingState) (packet : List ℕ) : PairingState :=
  (message parsers packet).elim state (advance state)

theorem send_pairing (s : Shared) (packet : List ℕ) :
    (send parsers s (some packet)).1.pairing = advanced parsers s.pairing packet := by
  simp only [send, advanced, message]
  split
  · rfl
  · split
    · cases parsers.control (packet.drop kMagicSize) with
      | none => rfl
      | some m =>
        cases m with
        | hubPairingResponse status =>
          simp only [Shared.control, Option.elim_some, advance]
          split <;> rfl
        | _ => rfl
    · split
      · rfl
      · split
        · rename_i r _
          unfold Shared.relayRequest
          split <;> rfl
        · rfl

theorem toInt_of_fits {n : ℕ} (h : n ≤ intMax) : toInt n = n := by
  unfold toInt
  unfold intMax at h
  apply Int.bmod_eq_of_le <;> omega

theorem heard_of_fits (hfits : packet.length - kMagicSize ≤ intMax) :
    heard parsers negative packet = message parsers packet := by
  have hlength : (packet.drop 8).length = packet.length - 8 := List.length_drop
  have hsize : parseFromArray parsers negative (packet.drop 8) (toInt (packet.length - 8)) =
      parsers.control (packet.drop 8) := by
    have hint : toInt (packet.length - 8) = (packet.length - 8 : ℕ) := toInt_of_fits hfits
    rw [parseFromArray, hint, if_pos (Int.natCast_nonneg _), Int.toNat_natCast,
      List.take_of_length_le hlength.le]
  rw [heard, hsize]
  change _ = if packet.length < 8 ∨ intMax < packet.length - 8 then none
    else if packet.take 8 = kControlMagic then parsers.control (packet.drop 8) else none
  by_cases hshort : packet.length < 8
  · rw [if_pos (Or.inl hshort), if_pos (Or.inl hshort)]
  · have hpasses : ¬ (packet.length < 8 ∨ intMax < packet.length - 8) :=
      not_or.2 ⟨hshort, Nat.not_lt.2 hfits⟩
    rw [if_neg hpasses]
    by_cases hmagic : packet.take 8 = kControlMagic
    · rw [if_neg (not_or.2 ⟨hshort, not_not.2 hmagic⟩), if_pos hmagic]
    · rw [if_pos (Or.inr hmagic), if_neg hmagic]

theorem message_of_long (hlong : ¬ packet.length - kMagicSize ≤ intMax) :
    message parsers packet = none := by
  rw [message, if_pos (Or.inr (Nat.lt_of_not_le hlong))]

/-- The sensor does what the hub has said, exactly when what it hears is solicited. -/
theorem sensorSend_eq_iff (state : PairingState) :
    sensorSend parsers negative state packet = advanced parsers state packet ↔
      Solicited parsers negative state packet := by
  unfold sensorSend advanced Solicited
  by_cases hfits : packet.length - kMagicSize ≤ intMax
  · rw [heard_of_fits hfits, if_pos hfits]
    cases message parsers packet with
    | none => simp
    | some m =>
      cases m with
      | hubPairingResponse status => cases status <;> cases state <;> simp [advance]
      | _ => simp [advance]
  · rw [message_of_long hfits, if_neg hfits]
    cases heard parsers negative packet with
    | none => simp
    | some m => cases m <;> simp [eq_comm]

end Steps

section Runs
variable {parsers : Parsers} {negative : List ℕ → ℤ → Option ControlMessage}

theorem relayAfter_snoc (past : List (List ℕ)) (packet : List ℕ) :
    (relayAfter parsers (past ++ [packet])).pairing =
      advanced parsers (relayAfter parsers past).pairing packet := by
  rw [relayAfter, List.foldl_append]
  exact send_pairing _ packet

theorem sensorAfter_snoc (past : List (List ℕ)) (packet : List ℕ) :
    sensorAfter parsers negative (past ++ [packet]) =
      sensorSend parsers negative (sensorAfter parsers negative past) packet := by
  rw [sensorAfter, List.foldl_append]
  rfl

theorem relayAfter_pairing (past : List (List ℕ)) :
    (relayAfter parsers past).pairing = (messages parsers past).foldl advance .unpaired := by
  induction past using List.reverseRecOn with
  | nil => rfl
  | append_singleton past packet ih =>
    rw [relayAfter_snoc, ih, messages, messages, List.filterMap_append, List.foldl_append]
    unfold advanced
    cases hmessage : message parsers packet with
    | none => simp [hmessage]
    | some m => simp [hmessage]

/-- The relay always agrees with the hub. The sensor does, and agrees with the relay, exactly when
every packet of the run is one that it may take for solicited. -/
theorem agree_iff (parsers : Parsers) (negative : List ℕ → ℤ → Option ControlMessage)
    (packets : List (List ℕ)) :
    Agree parsers negative packets ↔ ∀ past packet, past ++ [packet] <+: packets →
      Solicited parsers negative (sensorAfter parsers negative past) packet := by
  constructor
  · intro hagree past packet hprefix
    have hbefore := hagree.same past ((List.prefix_append past [packet]).trans hprefix)
    have hafter := hagree.same (past ++ [packet]) hprefix
    rw [relayAfter_snoc, sensorAfter_snoc, hbefore] at hafter
    exact (sensorSend_eq_iff _).1 hafter.symm
  · intro hsolicited
    have hsame : ∀ past, past <+: packets →
        (relayAfter parsers past).pairing = sensorAfter parsers negative past := by
      intro past
      induction past using List.reverseRecOn with
      | nil => exact fun _ => rfl
      | append_singleton past packet ih =>
        intro hprefix
        have hbefore := ih ((List.prefix_append past [packet]).trans hprefix)
        rw [relayAfter_snoc, sensorAfter_snoc, hbefore]
        exact ((sensorSend_eq_iff _).2 (hsolicited past packet hprefix)).symm
    have hrelay : ∀ past : List (List ℕ),
        (relayAfter parsers past).pairing = .paired ↔ PairedBy (messages parsers past) := by
      intro past
      rw [relayAfter_pairing]
      exact (state_of_messages _).2
    refine ⟨fun past _ => hrelay past, ?_, hsame, ?_⟩
    · intro past hprefix
      rw [← hsame past hprefix]
      exact hrelay past
    · intro past packet hprefix hnone
      have hstill : ∀ state, advanced parsers state packet = state := by
        intro state
        rw [advanced, hnone]
        rfl
      constructor
      · rw [relayAfter_snoc, hstill]
      · rw [sensorAfter_snoc, (sensorSend_eq_iff _).2 (hsolicited past packet hprefix), hstill]

end Runs

/-- Discovery responses and pairing responses as protobuf writes them. -/
def wire : Parsers where
  control bytes :=
    if bytes = [0x12, 0] then some .hubDiscoveryResponse
    else if bytes = [0x22, 0] then some (.hubPairingResponse .ok)
    else if bytes = [0x22, 2, 8, 1] then some (.hubPairingResponse .rejected)
    else none
  data _ := none

/-- A rejection pairs the sensor. -/
theorem rejected_not_agree : ¬ Agree wire (fun _ _ => none)
    [kControlMagic ++ [0x12, 0], kControlMagic ++ [0x22, 2, 8, 1]] := by
  intro hagree
  have hsame := hagree.same _ List.prefix_rfl
  revert hsame
  decide +kernel

end RooTesting.PairingAgreement
