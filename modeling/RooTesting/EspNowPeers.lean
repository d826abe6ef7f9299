import RooTesting.Answers
import RooTesting.EspNow
import RooTesting.KeyedLists

/-! # Peers of wireless datagrams

The peers are kept in a vector in the order in which they were added. To its callers it is a map
from addresses to peers. -/
namespace RooTesting.EspNow
open Answers KeyedLists

/-- `esp_now_peer_info_t` -/
structure PeerInfo where
  peerAddr : Mac
  lmk : Fin 16 → Byte
  channel : Byte
  ifidx : ℕ
  encrypt : Bool
  priv : ℕ
  deriving DecidableEq

/-- A null pointer is `none`; an output is given or not. -/
inductive PeerCall where
  | addPeer (peer : Option PeerInfo)
  | delPeer (address : Option Mac)
  | modPeer (peer : Option PeerInfo)
  | isPeerExist (address : Option Mac)
  | getPeer (address : Option Mac) (out : Bool)
  | getPeerNum (out : Bool)
  | deinit
  deriving DecidableEq

inductive PeerAnswer where
  | err (err : EspErr)
  | exist (exist : Bool)
  | peer (peer : PeerInfo)
  | num (totalNum encryptNum : ℤ)
  deriving DecidableEq

abbrev Peers := List PeerInfo

def sameMac (peer : PeerInfo) (address : Mac) : Bool := decide (peer.peerAddr = address)

/-- The loop of `esp_now_mod_peer`. -/
def modify (peer : PeerInfo) : Peers → Option Peers
  | [] => none
  | current :: rest =>
    if sameMac current peer.peerAddr then some (peer :: rest)
    else (modify peer rest).map (current :: ·)

def Peers.call (peers : Peers) : PeerCall → PeerAnswer × Peers
  | .addPeer none => (.err .arg, peers)
  | .addPeer (some peer) =>
    if peers.any (sameMac · peer.peerAddr) then (.err .exist, peers)
    else (.err .ok, peers ++ [peer])
  | .delPeer none => (.err .arg, peers)
  | .delPeer (some address) =>
    let rest := peers.filter fun peer => !sameMac peer address
    (.err (if rest.length = peers.length then .notFound else .ok), rest)
  | .modPeer none => (.err .arg, peers)
  | .modPeer (some peer) =>
    match modify peer peers with
    | none => (.err .notFound, peers)
    | some peers => (.err .ok, peers)
  | .isPeerExist none => (.exist false, peers)
  | .isPeerExist (some address) => (.exist (peers.any (sameMac · address)), peers)
  | .getPeer none _ => (.err .arg, peers)
  | .getPeer (some _) false => (.err .arg, peers)
  | .getPeer (some address) true =>
    match peers.find? (sameMac · address) with
    | none => (.err .notFound, peers)
    | some peer => (.peer peer, peers)
  | .getPeerNum false => (.err .arg, peers)
  | .getPeerNum true => (.num (int peers.length) (int (peers.countP (·.encrypt))), peers)
  | .deinit => (.err .ok, [])

/-- A map from addresses to peers. -/
abbrev Registry := Mac → Option PeerInfo

namespace Registry

/-- The calls on a map. A null pointer is refused and changes nothing. -/
noncomputable def call (registry : Registry) : PeerCall → PeerAnswer × Registry
  | .addPeer none | .delPeer none | .modPeer none | .getPeer none _ | .getPeer (some _) false
  | .getPeerNum false => (.err .arg, registry)
  | .addPeer (some peer) =>
    if (registry peer.peerAddr).isSome then (.err .exist, registry)
    else (.err .ok, Function.update registry peer.peerAddr (some peer))
  | .delPeer (some address) =>
    if (registry address).isSome then (.err .ok, Function.update registry address none)
    else (.err .notFound, registry)
  | .modPeer (some peer) =>
    if (registry peer.peerAddr).isSome then
      (.err .ok, Function.update registry peer.peerAddr (some peer))
    else (.err .notFound, registry)
  | .isPeerExist none => (.exist false, registry)
  | .isPeerExist (some address) => (.exist (registry address).isSome, registry)
  | .getPeer (some address) true =>
    (((registry address).map PeerAnswer.peer).getD (.err .notFound), registry)
  | .getPeerNum true =>
    (.num (int {a | (registry a).isSome}.ncard)
      (int {a | (registry a).any (·.encrypt)}.ncard), registry)
  | .deinit => (.err .ok, fun _ => none)

end Registry

/-- The vector is the map, and no address comes twice in it. -/
structure Represents (peers : Peers) (registry : Registry) : Prop where
  distinct : Distinct PeerInfo.peerAddr peers
  lookup : registry = lookup PeerInfo.peerAddr peers

theorem modify_eq (peer : PeerInfo) (peers : Peers) :
    modify peer peers =
      if (lookup PeerInfo.peerAddr peers peer.peerAddr).isSome then
        some (replace PeerInfo.peerAddr peer peers)
      else none := by
  induction peers with
  | nil => rfl
  | cons current rest ih =>
    rw [modify, lookup_cons, replace, ih]
    by_cases hsame : current.peerAddr = peer.peerAddr
    · simp [sameMac, hsame]
    · simp only [sameMac, hsame, decide_false, Bool.false_eq_true, if_false]
      split_ifs <;> rfl

theorem call_represents ⦃peers : Peers⦄ ⦃registry : Registry⦄ (c : PeerCall)
    (h : Represents peers registry) :
    (peers.call c).1 = (registry.call c).1 ∧
      Represents (peers.call c).2 (registry.call c).2 := by
  obtain ⟨hdistinct, rfl⟩ := h
  have hany : ∀ address, peers.any (sameMac · address) =
      (lookup PeerInfo.peerAddr peers address).isSome := fun address =>
    lookup_any peers address
  cases c with
  | addPeer peer =>
    cases peer with
    | none => exact ⟨rfl, hdistinct, rfl⟩
    | some peer =>
      rw [Peers.call, Registry.call, hany]
      split_ifs with hfound
      · exact ⟨rfl, hdistinct, rfl⟩
      · rw [Option.not_isSome_iff_eq_none] at hfound
        exact ⟨rfl, hdistinct.append hfound, (lookup_append hfound).symm⟩
  | delPeer address =>
    cases address with
    | none => exact ⟨rfl, hdistinct, rfl⟩
    | some address =>
      have hrest : (peers.filter fun peer => !sameMac peer address) =
          peers.filter fun peer => peer.peerAddr ≠ address := by
        simp [sameMac]
      rw [Peers.call, Registry.call, hrest]
      by_cases hfound : (lookup PeerInfo.peerAddr peers address).isSome
      · rw [if_pos hfound, if_neg]
        · exact ⟨rfl, hdistinct.filter _, (lookup_filter peers address).symm⟩
        · rw [length_filter_eq]
          exact Option.isSome_iff_ne_none.mp hfound
      · rw [if_neg hfound]
        rw [Option.not_isSome_iff_eq_none] at hfound
        rw [if_pos ((length_filter_eq peers address).mpr hfound)]
        refine ⟨rfl, hdistinct.filter _, ?_⟩
        rw [lookup_filter, ← hfound, Function.update_eq_self]
  | modPeer peer =>
    cases peer with
    | none => exact ⟨rfl, hdistinct, rfl⟩
    | some peer =>
      rw [Peers.call, Registry.call, modify_eq]
      split_ifs with hfound
      · exact ⟨rfl, hdistinct.replace, (lookup_replace hfound).symm⟩
      · exact ⟨rfl, hdistinct, rfl⟩
  | isPeerExist address =>
    cases address with
    | none => exact ⟨rfl, hdistinct, rfl⟩
    | some address =>
      rw [Peers.call, Registry.call, hany]
      exact ⟨rfl, hdistinct, rfl⟩
  | getPeer address out =>
    cases address with
    | none => exact ⟨rfl, hdistinct, rfl⟩
    | some address =>
      cases out with
      | false => exact ⟨rfl, hdistinct, rfl⟩
      | true =>
        have hfind : peers.find? (sameMac · address) =
            lookup PeerInfo.peerAddr peers address := rfl
        rw [Peers.call, Registry.call, hfind]
        cases lookup PeerInfo.peerAddr peers address <;> exact ⟨rfl, hdistinct, rfl⟩
  | getPeerNum out =>
    cases out with
    | false => exact ⟨rfl, hdistinct, rfl⟩
    | true =>
      have hall : {a | (lookup PeerInfo.peerAddr peers a).isSome} =
          {a | (lookup PeerInfo.peerAddr peers a).any fun _ => true} := by
        ext a
        cases lookup PeerInfo.peerAddr peers a <;> simp
      rw [Peers.call, Registry.call, hall, ← countP_eq_ncard hdistinct,
        ← countP_eq_ncard hdistinct, List.countP_true]
      exact ⟨rfl, hdistinct, rfl⟩
  | deinit => exact ⟨rfl, distinct_nil, rfl⟩

/-- Every list of calls is answered as a map from addresses would answer it: an address is never
there twice, what `esp_now_get_peer` gives was the last thing added or modified there, and the
numbers are those of the addresses that are in the map. -/
theorem peers_refine_registry (calls : List PeerCall) :
    (answers Peers.call [] calls).1 = (answers Registry.call (fun _ => none) calls).1 ∧
      Represents (answers Peers.call [] calls).2
        (answers Registry.call (fun _ => none) calls).2 :=
  answers_agree call_represents ⟨distinct_nil, rfl⟩ calls

end RooTesting.EspNow
