import RooTesting.WifiStreams
import RooTesting.WifiInterfaces

/-! # The events of connections and addresses

The sections of the calls and of the completions meet what the two streams ask of them, so a
run whose posts keep their order and whose attempts announce what they took away ends with the
events that its state asks for. -/
namespace RooTesting.Wifi
open Transition Threads

/-- An address of the station is a lease, which only a station with an address holds. -/
structure Leased (s : State) : Prop where
  dhcp : ∀ netif ∈ s.stationNetif, netif.dhcpStarted = true
  gotIp : s.hasStationIp = true → s.station = .gotIp

section Netif

variable (s : State)

theorem setStationUp_netif (up : Bool) :
    (s.setStationUp up).hasStationIp = s.hasStationIp ∧
    (s.setStationUp up).stationNetif.isSome = s.stationNetif.isSome ∧
    ((∀ netif ∈ s.stationNetif, netif.dhcpStarted = true) →
      ∀ netif ∈ (s.setStationUp up).stationNetif, netif.dhcpStarted = true) := by
  cases h : s.stationNetif <;>
    simp [State.setStationUp, State.setStationNetif, State.hasStationIp, h]

theorem clearStationIpLocked_netif :
    s.clearStationIpLocked.hasStationIp = false ∧
    s.clearStationIpLocked.stationNetif.isSome = s.stationNetif.isSome ∧
    ((∀ netif ∈ s.stationNetif, netif.dhcpStarted = true) →
      ∀ netif ∈ s.clearStationIpLocked.stationNetif, netif.dhcpStarted = true) := by
  rw [State.clearStationIpLocked]
  cases hip : s.hasStationIp with
  | false =>
    rw [if_neg Bool.false_ne_true]
    exact ⟨hip, rfl, id⟩
  | true =>
    rw [if_pos rfl]
    cases h : s.stationNetif <;> simp [State.hasStationIp, IpInfo.none]

theorem dropConnection_netif :
    s.dropConnection.hasStationIp = false ∧
    s.dropConnection.stationNetif.isSome = s.stationNetif.isSome ∧
    ((∀ netif ∈ s.stationNetif, netif.dhcpStarted = true) →
      ∀ netif ∈ s.dropConnection.stationNetif, netif.dhcpStarted = true) :=
  clearStationIpLocked_netif
    { s with connectGeneration := s.connectGeneration + 1, connectedAp := none }

theorem resetDriverLocked_netif (driver : DriverState) :
    (s.resetDriverLocked driver).hasStationIp = false ∧
    (s.resetDriverLocked driver).stationNetif.isSome = s.stationNetif.isSome ∧
    ((∀ netif ∈ s.stationNetif, netif.dhcpStarted = true) →
      ∀ netif ∈ (s.resetDriverLocked driver).stationNetif, netif.dhcpStarted = true) := by
  cases h : s.stationNetif <;>
    simp [State.resetDriverLocked, State.setStationNetif, State.setApUp, State.hasStationIp, h,
      IpInfo.none]

end Netif

/-- Interface events are of neither stream. -/
def Interface (posts : List Event) : Prop :=
  ∀ event ∈ posts, event = .staStart ∨ event = .staStop ∨ event = .apStart ∨ event = .apStop

/-- What a section of a call does to the connection, the address and the attempts. -/
inductive StateEffect (s : State) (call : Call) (done : Section) : Prop
  | kept (hgeneration : done.state.connectGeneration = s.connectGeneration)
      (hap : done.state.connectedAp = s.connectedAp)
      (hip : done.state.hasStationIp = s.hasStationIp) (hposts : Interface done.posts)
      (hrest : done.rest = .done)
  | ended (posts : List Event) (hsupersedes : supersedes s call = true)
      (hgeneration : done.state.connectGeneration = s.connectGeneration + 1)
      (hap : done.state.connectedAp = none) (hip : done.state.hasStationIp = false)
      (hposts : done.posts = lossPosts s ++ posts) (hinterface : Interface posts)
      (hrest : done.rest = .returning done.state.connectGeneration)
  | reset (hsupersedes : supersedes s call = true)
      (hgeneration : done.state.connectGeneration = s.connectGeneration + 1)
      (hap : done.state.connectedAp = none) (hip : done.state.hasStationIp = false)
      (hposts : done.posts = []) (hrest : done.rest = .done)
      (hrestore : s.driver = .started → call.isRestore = true)
  | replaced (pending : PendingConnection) (phase : Phase)
      (hsupersedes : supersedes s call = true)
      (hgeneration : done.state.connectGeneration = s.connectGeneration + 1)
      (hap : done.state.connectedAp = none) (hip : done.state.hasStationIp = false)
      (hposts : done.posts = []) (hrest : done.rest = .completing pending phase)
      (hpending : pending.generation = done.state.connectGeneration)
      (hlost : pending.lostPreviousIp = s.hasStationIp)
      (hphase : phase = .spawn ∨ ∃ index attempt, phase = .delay index attempt)

section Calls

variable {s : State}

theorem StateEffect.refused (s : State) (call : Call) (code : EspErr) :
    StateEffect s call (s.refuse code) :=
  .kept rfl rfl rfl (List.forall_mem_nil _) rfl

theorem modePosts_interface (started had has : Bool) {start stop : Event}
    (hstart : Interface [start]) (hstop : Interface [stop]) :
    Interface (modePosts started had has start stop) := by
  rw [modePosts]
  split_ifs
  · exact hstart
  · exact hstop
  · exact List.forall_mem_nil _

theorem Interface.append {posts posts' : List Event} (h : Interface posts) (h' : Interface posts') :
    Interface (posts ++ posts') := by
  intro event hevent
  rcases List.mem_append.mp hevent with hevent | hevent
  · exact h event hevent
  · exact h' event hevent

theorem espWifiSetMode_effect (mode : Option Mode) :
    StateEffect s (.setMode mode) (espWifiSetMode s mode) := by
  rcases mode with _ | mode
  · exact .refused s _ _
  simp only [espWifiSetMode]
  by_cases hdriver : s.driver = .uninitialized
  · rw [if_pos hdriver]
    exact .refused s _ _
  rw [if_neg hdriver]
  have hposts : Interface
      (modePosts (s.driver = .started) (hasStation s.mode) (hasStation mode) .staStart .staStop ++
        modePosts (s.driver = .started) (hasAccessPoint s.mode) (hasAccessPoint mode)
          .apStart .apStop) := by
    apply Interface.append
    · exact modePosts_interface _ _ _ (by simp [Interface]) (by simp [Interface])
    · exact modePosts_interface _ _ _ (by simp [Interface]) (by simp [Interface])
  cases hnew : hasStation mode with
  | false =>
    rw [hnew] at hposts
    have hfields := dropConnection_fields { s with mode := mode, scanInProgress := false }
    have hnetif := dropConnection_netif { s with mode := mode, scanInProgress := false }
    have hup := setStationUp_netif
      (State.dropConnection { s with mode := mode, scanInProgress := false }) false
    refine .ended _ ?_ hfields.2.2.2.1 hfields.2.2.2.2 (hup.1.trans hnetif.1) rfl hposts rfl
    simp [supersedes, hdriver, hnew]
  | true =>
    rw [hnew] at hposts
    cases hold : hasStation s.mode with
    | false =>
      rw [hold] at hposts
      have hup := setStationUp_netif { s with mode := mode } (s.driver = .started)
      exact .kept rfl rfl hup.1 hposts rfl
    | true =>
      rw [hold] at hposts
      exact .kept rfl rfl rfl hposts rfl

theorem espWifiStart_effect : StateEffect s .start (espWifiStart s) := by
  simp only [espWifiStart]
  by_cases hdriver : s.driver = .uninitialized
  · rw [if_pos hdriver]
    exact .refused s _ _
  by_cases hmode : s.mode = .null
  · rw [if_neg hdriver, if_pos hmode]
    exact .refused s _ _
  by_cases hstarted : s.driver = .started
  · rw [if_neg hdriver, if_neg hmode, if_pos hstarted]
    exact .refused s _ _
  rw [if_neg hdriver, if_neg hmode, if_neg hstarted]
  have hup := fun next : State => (setStationUp_netif next true).1
  cases hstation : hasStation s.mode <;> cases haccess : hasAccessPoint s.mode
  · exact .kept rfl rfl rfl (by simp [Interface]) rfl
  · exact .kept rfl rfl rfl (by simp [Interface]) rfl
  · exact .kept rfl rfl (hup _) (by simp [Interface]) rfl
  · exact .kept rfl rfl (hup _) (by simp [Interface]) rfl

theorem espWifiStop_effect : StateEffect s .stop (espWifiStop s) := by
  simp only [espWifiStop]
  by_cases hdriver : s.driver = .uninitialized
  · rw [if_pos hdriver]
    exact .refused s _ _
  by_cases hstopped : s.driver = .stopped
  · rw [if_neg hdriver, if_pos hstopped]
    exact .refused s _ _
  rw [if_neg hdriver, if_neg hstopped]
  have hstarted : s.driver = .started := by
    cases hd : s.driver with
    | uninitialized => exact absurd hd hdriver
    | stopped => exact absurd hd hstopped
    | started => rfl
  set next : State := { s with
    driver := .stopped
    station := if hasStation s.mode then .idle else .disabled
    scanInProgress := false }
  have hfields := dropConnection_fields next
  have hnetif := dropConnection_netif next
  have hup := setStationUp_netif next.dropConnection false
  refine .ended _ ?_ hfields.2.2.2.1 hfields.2.2.2.2 (hup.1.trans hnetif.1)
    (List.append_assoc _ _ _) ?_ rfl
  · simp [supersedes, hstarted]
  · cases hasStation s.mode <;> cases hasAccessPoint s.mode <;> simp [Interface]

theorem espWifiDisconnect_effect : StateEffect s .disconnect (espWifiDisconnect s) := by
  rw [espWifiDisconnect]
  by_cases hdriver : s.driver = .uninitialized
  · rw [if_pos hdriver]
    exact .refused s _ _
  by_cases hstarted : s.driver = .started
  swap
  · rw [if_neg hdriver, if_pos hstarted]
    exact .refused s _ _
  cases hmode : hasStation s.mode with
  | false =>
    rw [if_neg hdriver, if_neg (not_not.mpr hstarted)]
    exact .refused s _ _
  | true =>
    rw [if_neg hdriver, if_neg (not_not.mpr hstarted)]
    have hfields := dropConnection_fields s
    have hnetif := dropConnection_netif s
    refine .ended [] ?_ hfields.2.2.2.1 hfields.2.2.2.2 hnetif.1 (List.append_nil _).symm
      (List.forall_mem_nil _) rfl
    simp [supersedes, hstarted, hmode]

theorem StateEffect.reset_driver {call : Call} (driver : DriverState)
    (hsupersedes : supersedes s call = true)
    (hrestore : s.driver = .started → call.isRestore = true) :
    StateEffect s call ⟨.ok, s.resetDriverLocked driver, [], .done⟩ :=
  .reset hsupersedes rfl rfl (resetDriverLocked_netif s driver).1 rfl rfl hrestore

theorem espWifiConnect_effect (hl : Leased s) (environment : Environment)
    (attempt : ConnectionAttempt) :
    StateEffect s (.connect environment attempt) (espWifiConnect s environment attempt) := by
  rw [espWifiConnect]
  by_cases hdriver : s.driver = .uninitialized
  · rw [if_pos hdriver]
    exact .refused s _ _
  rw [if_neg hdriver]
  by_cases hstarted : s.driver = .started
  swap
  · rw [if_pos hstarted]
    exact .refused s _ _
  rw [if_neg (not_not.mpr hstarted)]
  by_cases hmode : hasStation s.mode = true
  swap
  · rw [if_pos (by simpa using hmode)]
    exact .refused s _ _
  rw [if_neg (by simp [hmode])]
  by_cases hbusy : (s.scanInProgress || s.station = .connecting) = true
  · rw [if_pos hbusy]
    exact .refused s _ _
  rw [if_neg hbusy]
  by_cases hssid : s.stationConfig.ssid = ""
  · rw [if_pos hssid]
    exact .refused s _ _
  rw [if_neg hssid]
  have hsupersedes : supersedes s (.connect environment attempt) = true := by
    simp only [Bool.or_eq_true, not_or, Bool.not_eq_true, decide_eq_true_eq] at hbusy
    simp [supersedes, hstarted, hmode, hbusy, hssid]
  have hphase : ∀ asynchronous : Bool,
      (if asynchronous then Phase.spawn else .delay 0 attempt) = .spawn ∨
        ∃ index attempt',
          (if asynchronous then Phase.spawn else .delay 0 attempt) = .delay index attempt' := by
    rintro (_ | _)
    · exact .inr ⟨0, attempt, rfl⟩
    · exact .inl rfl
  set next : State := { s with
    connectGeneration := s.connectGeneration + 1
    connectedAp := none
    station := .connecting }
  cases hnetif : s.stationNetif with
  | none =>
    have hip : s.hasStationIp = false := by rw [State.hasStationIp, hnetif]; rfl
    exact .replaced _ _ hsupersedes rfl rfl hip rfl rfl rfl hip.symm (hphase _)
  | some netif =>
    have hdhcp : (some netif).any Netif.dhcpStarted = true := hl.dhcp netif hnetif
    have hfields := clearStationIpLocked_fields next
    have hcleared := clearStationIpLocked_netif next
    rw [hdhcp]
    exact .replaced _ _ hsupersedes hfields.2.2.2.1 hfields.2.2.2.2 hcleared.1 rfl rfl rfl
      (Bool.true_and _) (hphase _)

theorem callSection_effect (hl : Leased s) {call : Call} (hcall : call.isReset = false) :
    StateEffect s call (callSection s call) := by
  cases call with
  | reset => cases hcall
  | init =>
    rw [callSection, espWifiInit]
    split_ifs with hdriver
    · exact .refused s _ _
    · have huninitialized : s.driver = .uninitialized := not_not.mp hdriver
      apply StateEffect.reset_driver
      · simp [supersedes, huninitialized]
      · simp [huninitialized]
  | deinit =>
    rw [callSection, espWifiDeinit]
    split
    · exact .refused s _ _
    · exact .refused s _ _
    · next hstopped =>
      apply StateEffect.reset_driver
      · simp [supersedes, hstopped]
      · simp [hstopped]
  | start => exact espWifiStart_effect
  | stop => exact espWifiStop_effect
  | restore =>
    rw [callSection, espWifiRestore]
    split_ifs with hdriver
    · exact .refused s _ _
    · apply StateEffect.reset_driver
      · simp [supersedes, hdriver]
      · exact fun _ => rfl
  | disconnect => exact espWifiDisconnect_effect
  | setMode mode => exact espWifiSetMode_effect mode
  | setConfig config =>
    rw [callSection, espWifiSetConfig]
    split_ifs
    · exact .refused s _ _
    · exact .refused s _ _
    · exact .refused s _ _
    · exact .kept rfl rfl rfl (List.forall_mem_nil _) rfl
  | scan inProgress => exact .kept rfl rfl rfl (List.forall_mem_nil _) rfl
  | connect environment attempt => exact espWifiConnect_effect hl environment attempt

/-- A state with no address and the interface of before. -/
theorem Leased.dropped {s' : State} (hl : Leased s) (hip : s'.hasStationIp = false)
    (hdhcp : (∀ netif ∈ s.stationNetif, netif.dhcpStarted = true) →
      ∀ netif ∈ s'.stationNetif, netif.dhcpStarted = true) : Leased s' := by
  refine ⟨hdhcp hl.dhcp, fun hheld => ?_⟩
  rw [hip] at hheld
  cases hheld

theorem Leased.noIp (hl : Leased s) (h : Related s)
    (hs : s.driver ≠ .started ∨ hasStation s.mode = false) : s.hasStationIp = false := by
  rw [Bool.eq_false_iff]
  intro hip
  have hinactive := h.inactive hs
  rw [hl.gotIp hip] at hinactive
  cases hinactive

/-- What the station holds stays a lease, on the interface that it had. -/
structure KeepsLease (s s' : State) : Prop where
  leased : Leased s'
  isSome : s'.stationNetif.isSome = s.stationNetif.isSome

theorem Leased.refused (hl : Leased s) (code : EspErr) : KeepsLease s (s.refuse code).state :=
  ⟨hl, rfl⟩

theorem Leased.driverReset (hl : Leased s) (driver : DriverState) :
    KeepsLease s (s.resetDriverLocked driver) := by
  obtain ⟨hip, hsome, hdhcp⟩ := resetDriverLocked_netif s driver
  exact ⟨hl.dropped hip hdhcp, hsome⟩

/-- The connection is dropped, and the interface goes down. -/
theorem downed_netif (s : State) :
    (s.dropConnection.setStationUp false).hasStationIp = false ∧
    (s.dropConnection.setStationUp false).stationNetif.isSome = s.stationNetif.isSome ∧
    ((∀ netif ∈ s.stationNetif, netif.dhcpStarted = true) →
      ∀ netif ∈ (s.dropConnection.setStationUp false).stationNetif, netif.dhcpStarted = true) := by
  obtain ⟨hip, hsome, hdhcp⟩ := dropConnection_netif s
  obtain ⟨hip', hsome', hdhcp'⟩ := setStationUp_netif s.dropConnection false
  exact ⟨hip'.trans hip, hsome'.trans hsome, fun hbefore => hdhcp' (hdhcp hbefore)⟩

theorem reset_leased (hl : Leased s) : KeepsLease s (reset s).state := by
  cases hnetif : s.stationNetif with
  | none =>
    constructor
    · constructor <;> simp [reset, State.setStationNetif, State.setApUp,
        State.resetDriverLocked, State.hasStationIp, hnetif]
    · simp [reset, State.setStationNetif, State.setApUp, State.resetDriverLocked, hnetif]
  | some netif =>
    have hdhcp := hl.dhcp netif hnetif
    constructor
    · constructor <;> simp [reset, State.setStationNetif, State.setApUp,
        State.resetDriverLocked, State.hasStationIp, hnetif, hdhcp, IpInfo.none]
    · simp [reset, State.setStationNetif, State.setApUp, State.resetDriverLocked, hnetif]

theorem espWifiStart_leased (h : Related s) (hl : Leased s) :
    KeepsLease s (espWifiStart s).state := by
  unfold espWifiStart
  by_cases hdriver : s.driver = .uninitialized
  · rw [if_pos hdriver]
    exact hl.refused _
  by_cases hmode : s.mode = .null
  · rw [if_neg hdriver, if_pos hmode]
    exact hl.refused _
  by_cases hstarted : s.driver = .started
  · rw [if_neg hdriver, if_neg hmode, if_pos hstarted]
    exact hl.refused _
  rw [if_neg hdriver, if_neg hmode, if_neg hstarted]
  have hip := hl.noIp h (.inl hstarted)
  have hup := fun next : State => setStationUp_netif next true
  cases hstation : hasStation s.mode <;> cases haccess : hasAccessPoint s.mode
  · exact ⟨hl.dropped hip id, rfl⟩
  · exact ⟨hl.dropped hip id, rfl⟩
  · exact ⟨hl.dropped ((hup _).1.trans hip) (hup _).2.2, (hup _).2.1⟩
  · exact ⟨hl.dropped ((hup _).1.trans hip) (hup _).2.2, (hup _).2.1⟩

theorem espWifiStop_leased (hl : Leased s) : KeepsLease s (espWifiStop s).state := by
  unfold espWifiStop
  by_cases hdriver : s.driver = .uninitialized
  · rw [if_pos hdriver]
    exact hl.refused _
  by_cases hstopped : s.driver = .stopped
  · rw [if_neg hdriver, if_pos hstopped]
    exact hl.refused _
  rw [if_neg hdriver, if_neg hstopped]
  obtain ⟨hip, hsome, hdhcp⟩ := downed_netif { s with
    driver := .stopped
    station := if hasStation s.mode then .idle else .disabled
    scanInProgress := false }
  exact ⟨hl.dropped hip hdhcp, hsome⟩

theorem espWifiSetMode_leased (h : Related s) (hl : Leased s) (mode : Option Mode) :
    KeepsLease s (espWifiSetMode s mode).state := by
  rcases mode with _ | mode
  · exact hl.refused _
  unfold espWifiSetMode
  dsimp only
  by_cases hdriver : s.driver = .uninitialized
  · rw [if_pos hdriver]
    exact hl.refused _
  rw [if_neg hdriver]
  cases hnew : hasStation mode with
  | false =>
    obtain ⟨hip, hsome, hdhcp⟩ := downed_netif { s with mode := mode, scanInProgress := false }
    exact ⟨hl.dropped hip hdhcp, hsome⟩
  | true =>
    cases hold : hasStation s.mode with
    | false =>
      have hip := hl.noIp h (.inr hold)
      obtain ⟨hip', hsome', hdhcp'⟩ := setStationUp_netif { s with mode := mode }
        (s.driver = .started)
      exact ⟨hl.dropped (hip'.trans hip) hdhcp', hsome'⟩
    | true => exact ⟨⟨hl.dhcp, hl.gotIp⟩, rfl⟩

theorem espWifiConnect_leased (hl : Leased s) (environment : Environment)
    (attempt : ConnectionAttempt) :
    KeepsLease s (espWifiConnect s environment attempt).state := by
  unfold espWifiConnect
  split_ifs with hdriver hstarted hmode hbusy hssid
  all_goals try exact hl.refused _
  all_goals
    set next : State := { s with
      connectGeneration := s.connectGeneration + 1
      connectedAp := none
      station := .connecting }
    cases hnetif : s.stationNetif with
    | none =>
      have hip : next.hasStationIp = false := by
        rw [State.hasStationIp]
        exact congrArg (Option.any _) hnetif
      exact ⟨hl.dropped hip id, rfl⟩
    | some netif =>
      have hdhcp : (some netif).any Netif.dhcpStarted = true := hl.dhcp netif hnetif
      obtain ⟨hip, hsome, hstarts⟩ := clearStationIpLocked_netif next
      rw [hdhcp]
      exact ⟨hl.dropped hip hstarts, hsome⟩

/-- The station's interface stays, and what it holds stays a lease. -/
theorem callSection_leased (h : Related s) (hl : Leased s) (call : Call) :
    Leased (callSection s call).state ∧
      (callSection s call).state.stationNetif.isSome = s.stationNetif.isSome := by
  have hkeeps : KeepsLease s (callSection s call).state := by
    cases call with
    | reset => exact reset_leased hl
    | init =>
      rw [callSection, espWifiInit]
      split_ifs
      · exact hl.refused _
      · exact hl.driverReset _
    | deinit =>
      rw [callSection, espWifiDeinit]
      split
      · exact hl.refused _
      · exact hl.refused _
      · exact hl.driverReset _
    | restore =>
      rw [callSection, espWifiRestore]
      split_ifs
      · exact hl.refused _
      · exact hl.driverReset _
    | start => exact espWifiStart_leased h hl
    | stop => exact espWifiStop_leased hl
    | disconnect =>
      rw [callSection, espWifiDisconnect]
      split_ifs
      · exact hl.refused _
      · exact hl.refused _
      · exact hl.refused _
      · obtain ⟨hip, hsome, hdhcp⟩ := dropConnection_netif s
        exact ⟨hl.dropped hip hdhcp, hsome⟩
    | setMode mode => exact espWifiSetMode_leased h hl mode
    | setConfig config =>
      rw [callSection, espWifiSetConfig]
      split_ifs
      · exact hl.refused _
      · exact hl.refused _
      · exact hl.refused _
      · exact ⟨⟨hl.dhcp, hl.gotIp⟩, rfl⟩
    | scan inProgress => exact ⟨⟨hl.dhcp, hl.gotIp⟩, rfl⟩
    | connect environment attempt => exact espWifiConnect_leased hl environment attempt
  exact ⟨hkeeps.leased, hkeeps.isSome⟩

end Calls

/-- What the streams of connections and of addresses have in common. -/
structure Stream.Regular (x : Stream) : Prop where
  interface : ∀ posts, Interface posts → posts.filterMap x.of = []
  loss : ∀ s, (lossPosts s).filterMap x.of = if x.held s then [none] else []
  congr : ∀ s s' : State, s'.connectedAp = s.connectedAp → s'.hasStationIp = s.hasStationIp →
    x.held s' = x.held s
  gone : ∀ s : State, s.connectedAp = none → s.hasStationIp = false → x.held s = false
  possible : ∀ s s' : State, s'.stationNetif.isSome = s.stationNetif.isSome →
    x.possible s' = x.possible s
  holds : ∀ s, x.held s = true → x.possible s = true
  started : ∀ s, Related s → Leased s → x.held s = true → s.driver = .started
  owes : ∀ s (pending : PendingConnection) phase,
    (phase = .spawn ∨ ∃ index attempt, phase = .delay index attempt) →
    pending.lostPreviousIp = s.hasStationIp → x.held s = true → x.owes pending phase = true

section Streams

theorem interface_filterMap {f : Event → Option (Option ℕ)} (hstaStart : f .staStart = none)
    (hstaStop : f .staStop = none) (hapStart : f .apStart = none) (hapStop : f .apStop = none)
    {posts : List Event} (h : Interface posts) : posts.filterMap f = [] := by
  rw [List.filterMap_eq_nil_iff]
  intro event hevent
  rcases h event hevent with rfl | rfl | rfl | rfl <;> assumption

theorem connection_regular : connection.Regular where
  interface _ h := interface_filterMap rfl rfl rfl rfl h
  loss s := by
    cases hap : s.connectedAp <;> cases hip : s.hasStationIp <;>
      simp [lossPosts, connection, hap, hip]
  congr s s' hap _ := by simp only [connection, hap]
  gone s hap _ := by simp only [connection, hap, Option.isSome_none]
  possible _ _ _ := rfl
  holds _ _ := rfl
  started s h _ hheld := by
    apply (h.active _).1
    rcases h.connected.mp hheld with hs | hs <;> rw [hs] <;> rfl
  owes _ _ phase hphase _ _ := by rcases hphase with rfl | ⟨index, attempt, rfl⟩ <;> rfl

theorem address_regular : address.Regular where
  interface _ h := interface_filterMap rfl rfl rfl rfl h
  loss s := by
    cases hap : s.connectedAp <;> cases hip : s.hasStationIp <;>
      simp [lossPosts, address, hap, hip]
  congr s s' _ hip := by simp only [address, hip]
  gone s _ hip := by simp only [address, hip]
  possible s s' h := by simp only [address, h]
  holds s hheld := by
    change s.hasStationIp = true at hheld
    rw [State.hasStationIp] at hheld
    cases hnetif : s.stationNetif with
    | none =>
      rw [hnetif] at hheld
      cases hheld
    | some netif => simp [address, hnetif]
  started s h hl hheld := by
    apply (h.active _).1
    rw [hl.gotIp hheld]
    rfl
  owes s pending phase hphase hlost hheld := by
    rcases hphase with rfl | ⟨index, attempt, rfl⟩ <;> exact hlost.trans hheld

variable {x : Stream} {s : State}

theorem announces_eq_head (posts : List Event) :
    x.announces posts = (posts.filterMap x.of).head? := by
  rw [Stream.announces, List.head?_filterMap]

theorem callSection_stream (hx : x.Regular) (h : Related s) (hl : Leased s) {call : Call}
    (hcall : call.isReset = false) :
    x.CallEffect s call (callSection s call) ∧
      ((callSection s call).posts.filterMap x.of).length ≤ 1 ∧
      x.possible (callSection s call).state = x.possible s := by
  have hpossible := hx.possible s _ (callSection_leased h hl call).2
  cases callSection_effect hl hcall with
  | kept hgeneration hap hip hposts hrest =>
    have hnil := hx.interface _ hposts
    refine ⟨.kept hgeneration (hx.congr _ _ hap hip) ?_ hrest, ?_, hpossible⟩
    · rw [announces_eq_head, hnil]
      rfl
    · rw [hnil]
      exact Nat.zero_le 1
  | ended posts hsupersedes hgeneration hap hip hposts hinterface hrest =>
    have hloss : (callSection s call).posts.filterMap x.of = if x.held s then [none] else [] := by
      rw [hposts, List.filterMap_append, hx.interface _ hinterface, List.append_nil, hx.loss]
    refine ⟨.ended hsupersedes hgeneration (hx.gone _ hap hip) ?_ hrest, ?_, hpossible⟩
    · rw [announces_eq_head, hloss]
      split_ifs <;> rfl
    · rw [hloss]
      split_ifs
      · exact le_refl 1
      · exact Nat.zero_le 1
  | reset hsupersedes hgeneration hap hip hposts hrest hrestore =>
    refine ⟨.reset hsupersedes hgeneration (hx.gone _ hap hip) ?_ hrest
      (fun hheld => hrestore (hx.started s h hl hheld)), ?_, hpossible⟩
    · rw [hposts]
      rfl
    · rw [hposts]
      exact Nat.zero_le 1
  | replaced pending phase hsupersedes hgeneration hap hip hposts hrest hpending hlost hphase =>
    refine ⟨.replaced pending phase hsupersedes hgeneration (hx.gone _ hap hip) ?_ hrest hpending
      (fun hheld => ⟨hx.owes s pending phase hphase hlost hheld,
        hpossible.trans (hx.holds s hheld)⟩), ?_, hpossible⟩
    · rw [hposts]
      rfl
    · rw [hposts]
      exact Nat.zero_le 1

end Streams

section Completions

variable {s : State} {pending : PendingConnection}

theorem Leased.not_gotIp (hl : Leased s) (hs : s.station ≠ .gotIp) : s.hasStationIp = false := by
  rw [Bool.eq_false_iff]
  exact fun hip => hs (hl.gotIp hip)

theorem completeConnection_leased (hl : Leased s) (retry : ConnectionAttempt) (created : Bool)
    {phase : Phase}
    (hexpects : pending.generation = s.connectGeneration → phase.Expects s.station) :
    Leased (completeConnection s pending retry created phase).state ∧
      (completeConnection s pending retry created phase).state.stationNetif.isSome =
        s.stationNetif.isSome := by
  have hconnecting : s.station = .connecting → s.hasStationIp = false := by
    intro hs
    apply hl.not_gotIp
    rw [hs]
    decide
  cases phase with
  | spawn =>
    simp only [completeConnection]
    split_ifs with hcreated hcurrent
    · exact ⟨hl, rfl⟩
    · exact ⟨hl.dropped (hconnecting (hexpects hcurrent)) id, rfl⟩
    · exact ⟨hl, rfl⟩
  | fail reason =>
    simp only [completeConnection]
    by_cases hcurrent : s.isConnectionCurrentLocked pending.generation = true
    · rw [if_pos hcurrent]
      have hip := hconnecting (hexpects (isConnectionCurrentLocked_iff.mp hcurrent).1)
      exact ⟨hl.dropped hip id, rfl⟩
    · rw [if_neg hcurrent]
      exact ⟨hl, rfl⟩
  | associate ap attempt =>
    simp only [completeConnection]
    by_cases hcurrent : s.isConnectionCurrentLocked pending.generation = true
    · rw [if_pos hcurrent]
      have hip := hconnecting (hexpects (isConnectionCurrentLocked_iff.mp hcurrent).1)
      exact ⟨hl.dropped hip id, rfl⟩
    · rw [if_neg hcurrent]
      exact ⟨hl, rfl⟩
  | lease attempt =>
    simp only [completeConnection]
    by_cases hcurrent : s.isConnectionCurrentLocked pending.generation = true
    swap
    · rw [if_neg hcurrent]
      exact ⟨hl, rfl⟩
    rw [if_pos hcurrent]
    set next : State := { s with stationNetif := s.stationNetif.map leased }
    have hdhcp : ∀ netif ∈ next.stationNetif, netif.dhcpStarted = true := by
      intro netif hnetif
      obtain ⟨before, hbefore, rfl⟩ := Option.map_eq_some_iff.mp hnetif
      exact hl.dhcp before hbefore
    have hsome : next.stationNetif.isSome = s.stationNetif.isSome := Option.isSome_map
    cases hip : next.hasStationIp with
    | true => exact ⟨⟨hdhcp, fun _ => rfl⟩, hsome⟩
    | false => exact ⟨hl.dropped hip fun _ => hdhcp, hsome⟩
  | drop attempt =>
    simp only [completeConnection]
    by_cases hcurrent : s.isConnectionCurrentLocked pending.generation = true
    · rw [if_pos hcurrent]
      obtain ⟨hip, hsome, hdhcp⟩ := clearStationIpLocked_netif { s with connectedAp := none }
      exact ⟨hl.dropped hip hdhcp, hsome⟩
    · rw [if_neg hcurrent]
      exact ⟨hl, rfl⟩
  | _ =>
    simp only [completeConnection, whenCurrent, State.refuse]
    try split_ifs
    all_goals simp [hl]

/-- A completion goes on with the same attempt or ends. -/
theorem completeConnection_rest (retry : ConnectionAttempt) (created : Bool) (phase : Phase) :
    (completeConnection s pending retry created phase).rest = .done ∨
      ∃ phase', (completeConnection s pending retry created phase).rest =
        .completing pending phase' := by
  cases phase
  all_goals
    simp only [completeConnection, whenCurrent, State.refuse]
    try split_ifs
  all_goals simp

theorem lostIpPosts_stale (hstale : pending.generation ≠ s.connectGeneration) :
    lostIpPosts s pending = [] := by
  rw [lostIpPosts, if_pos]
  simp [hstale]

theorem completeConnection_stale_posts (retry : ConnectionAttempt) (created : Bool) (phase : Phase)
    (hstale : pending.generation ≠ s.connectGeneration) :
    (completeConnection s pending retry created phase).posts = [] := by
  have hcurrent : ¬s.isConnectionCurrentLocked pending.generation = true :=
    fun hcurrent => hstale (isConnectionCurrentLocked_iff.mp hcurrent).1
  cases phase
  case spawn => cases created <;> simp [completeConnection, hstale, State.refuse]
  all_goals
    simp only [completeConnection, whenCurrent, if_neg hcurrent, lostIpPosts_stale hstale,
      State.refuse]

theorem completeConnection_few {x : Stream} (retry : ConnectionAttempt) (created : Bool)
    (phase : Phase) :
    ((completeConnection s pending retry created phase).posts.filterMap x.of).length ≤ 1 := by
  apply (List.length_filterMap_le _ _).trans
  cases phase
  all_goals
    simp only [completeConnection, whenCurrent, State.refuse, lostIpPosts]
    try split_ifs
  all_goals simp

theorem current_of_underWay (h : Related s)
    (hcurrent : pending.generation = s.connectGeneration)
    (hactive : underWay s.station = true) :
    s.isConnectionCurrentLocked pending.generation = true := by
  obtain ⟨hdriver, hmode⟩ := h.active hactive
  rw [isConnectionCurrentLocked_iff]
  refine ⟨hcurrent, hdriver, hmode, ?_, ?_⟩
  all_goals
    intro hs
    rw [hs] at hactive
    cases hactive

/-- A section of the current attempt that waits goes on. -/
theorem whenCurrent_current {next : Phase}
    (hcurrent : s.isConnectionCurrentLocked pending.generation = true) :
    whenCurrent s pending next = ⟨.ok, s, [], .completing pending next⟩ := by
  rw [whenCurrent, if_pos hcurrent]

theorem associationRound_cases (index : ℕ) (attempt retry : ConnectionAttempt) :
    (∃ ap, associationRound pending index attempt retry =
      if pending.lostPreviousIp then .lostIp ap attempt else .associate ap attempt) ∨
    associationRound pending index attempt retry = .delay (index + 1) retry ∨
    ∃ reason, associationRound pending index attempt retry = .fail reason := by
  rw [associationRound]
  cases resolveAssociation pending.environment pending.config attempt.outcome with
  | ok ap => exact .inl ⟨ap, rfl⟩
  | error reason =>
    by_cases hretry : index < pending.config.failureRetryCnt
    · exact .inr (.inl (if_pos hretry))
    · exact .inr (.inr ⟨reason, if_neg hretry⟩)

theorem associationRound_connection (index : ℕ) (attempt retry : ConnectionAttempt) :
    connection.owes pending (associationRound pending index attempt retry) = true := by
  rcases associationRound_cases index attempt retry with ⟨ap, h⟩ | h | ⟨reason, h⟩
  · rw [h]
    cases pending.lostPreviousIp <;> rfl
  · rw [h]
    rfl
  · rw [h]
    rfl

theorem associationRound_address (hlost : pending.lostPreviousIp = true) (index : ℕ)
    (attempt retry : ConnectionAttempt) :
    address.owes pending (associationRound pending index attempt retry) = true := by
  rcases associationRound_cases index attempt retry with ⟨ap, h⟩ | h | ⟨reason, h⟩
  · rw [h, hlost, if_pos rfl]
    exact hlost
  · rw [h]
    exact hlost
  · rw [h]
    exact hlost

theorem lostIpPosts_connection_announces :
    connection.announces (lostIpPosts s pending) = none := by
  rw [lostIpPosts]
  split_ifs <;> rfl

/-- The section that announces a lost address, unless there is none to lose. -/
theorem lostIp_effect {phase : Phase} {rest : Rest} {created : Bool}
    (hcurrent : pending.generation = s.connectGeneration) :
    address.CompletionEffect s pending phase created ⟨.ok, s, lostIpPosts s pending, rest⟩ := by
  cases hip : s.hasStationIp with
  | true =>
    have hnone : lostIpPosts s pending = [] := by rw [lostIpPosts, if_pos]; simp [hip]
    rw [hnone]
    refine .quiet rfl rfl fun _ hheld _ => ?_
    change s.hasStationIp = false at hheld
    rw [hip] at hheld
    cases hheld
  | false =>
    cases hnetif : s.stationNetif with
    | none =>
      have hnone : lostIpPosts s pending = [] := by rw [lostIpPosts, if_pos]; simp [hnetif]
      rw [hnone]
      refine .quiet rfl rfl fun _ _ hpossible => ?_
      change s.stationNetif.isSome = true at hpossible
      rw [hnetif] at hpossible
      cases hpossible
    | some netif =>
      have hpost : lostIpPosts s pending = [.staLostIp] := by
        rw [lostIpPosts, if_neg]
        simp [hcurrent, hnetif, hip]
      rw [hpost]
      refine .announced none rfl hip fun _ hkind => ?_
      cases hkind

/-- A section of a thread that owes nothing, in which nothing is told. -/
theorem Stream.CompletionEffect.owesNothing {x : Stream} {phase : Phase} {created : Bool}
    {done : Section} (hnot : x.owes pending phase = false)
    (hheld : x.held done.state = x.held s) (hposts : x.announces done.posts = none) :
    x.CompletionEffect s pending phase created done := by
  refine .quiet hheld hposts fun howes => ?_
  rw [hnot] at howes
  cases howes

theorem completeConnection_connection (h : Related s) (retry : ConnectionAttempt) (created : Bool)
    {phase : Phase} (hcurrent : pending.generation = s.connectGeneration)
    (hexpects : phase.Expects s.station) :
    connection.CompletionEffect s pending phase created
      (completeConnection s pending retry created phase) := by
  have hnow : underWay s.station = true → s.isConnectionCurrentLocked pending.generation = true :=
    current_of_underWay h hcurrent
  have hconnecting : s.station = .connecting → connection.held s = false := by
    intro hs
    rw [Bool.eq_false_iff]
    intro hheld
    rcases h.connected.mp hheld with hs' | hs' <;> rw [hs] at hs' <;> cases hs'
  cases phase with
  | spawn =>
    cases created with
    | true => exact .quiet rfl rfl fun _ _ _ => ⟨_, rfl, rfl⟩
    | false =>
      simp only [completeConnection, if_pos hcurrent]
      exact .failed rfl rfl rfl rfl
  | delay index attempt =>
    rw [completeConnection, whenCurrent_current (hnow (by rw [hexpects]; rfl))]
    exact .quiet rfl rfl fun _ _ _ => ⟨_, rfl, associationRound_connection index attempt retry⟩
  | fail reason =>
    rw [completeConnection, if_pos (hnow (by rw [hexpects]; rfl))]
    exact .announced none rfl (hconnecting hexpects) (fun _ hkind => by cases hkind)
  | failLostIp => exact .owesNothing rfl rfl lostIpPosts_connection_announces
  | lostIp ap attempt =>
    exact .quiet rfl lostIpPosts_connection_announces fun _ _ _ => ⟨_, rfl, rfl⟩
  | associate ap attempt =>
    rw [completeConnection, if_pos (hnow (by rw [hexpects]; rfl))]
    refine .announced (some pending.generation) rfl rfl fun generation hkind => ?_
    cases hkind
    rfl
  | dhcpDelay attempt =>
    rw [completeConnection, whenCurrent_current (hnow (by rw [hexpects]; rfl))]
    exact .owesNothing rfl rfl rfl
  | lease attempt =>
    simp only [completeConnection]
    rw [if_pos (hnow (by rw [hexpects]; rfl))]
    set next : State := { s with stationNetif := s.stationNetif.map leased }
    cases next.hasStationIp
    · exact .owesNothing rfl rfl rfl
    · exact .owesNothing rfl rfl rfl
  | connectedDelay attempt =>
    rw [completeConnection, whenCurrent_current
      (hnow (by rcases hexpects with hs | hs <;> rw [hs] <;> rfl))]
    exact .owesNothing rfl rfl rfl
  | drop attempt =>
    rw [completeConnection, if_pos (hnow (by rcases hexpects with hs | hs <;> rw [hs] <;> rfl))]
    have hfields := clearStationIpLocked_fields { s with connectedAp := none }
    refine .announced none rfl ?_ (fun _ hkind => by cases hkind)
    exact congrArg Option.isSome hfields.2.2.2.2
  | dropLostIp => exact .owesNothing rfl rfl lostIpPosts_connection_announces

theorem completeConnection_address (h : Related s) (hl : Leased s) (retry : ConnectionAttempt)
    (created : Bool) {phase : Phase} (hcurrent : pending.generation = s.connectGeneration)
    (hexpects : phase.Expects s.station) :
    address.CompletionEffect s pending phase created
      (completeConnection s pending retry created phase) := by
  have hnow : underWay s.station = true → s.isConnectionCurrentLocked pending.generation = true :=
    current_of_underWay h hcurrent
  cases phase with
  | spawn =>
    cases created with
    | true => exact .quiet rfl rfl fun howes _ _ => ⟨_, rfl, howes⟩
    | false =>
      simp only [completeConnection, if_pos hcurrent]
      exact .failed rfl rfl rfl rfl
  | delay index attempt =>
    rw [completeConnection, whenCurrent_current (hnow (by rw [hexpects]; rfl))]
    exact .quiet rfl rfl fun howes _ _ =>
      ⟨_, rfl, associationRound_address howes index attempt retry⟩
  | fail reason =>
    rw [completeConnection, if_pos (hnow (by rw [hexpects]; rfl))]
    refine .quiet rfl rfl fun howes _ _ => ⟨.failLostIp, ?_, rfl⟩
    change pending.lostPreviousIp = true at howes
    exact if_pos howes
  | failLostIp => exact lostIp_effect hcurrent
  | lostIp ap attempt => exact lostIp_effect hcurrent
  | associate ap attempt =>
    rw [completeConnection, if_pos (hnow (by rw [hexpects]; rfl))]
    exact .owesNothing rfl rfl rfl
  | dhcpDelay attempt =>
    rw [completeConnection, whenCurrent_current (hnow (by rw [hexpects]; rfl))]
    exact .owesNothing rfl rfl rfl
  | lease attempt =>
    simp only [completeConnection]
    rw [if_pos (hnow (by rw [hexpects]; rfl))]
    have hbefore : s.hasStationIp = false := by
      apply hl.not_gotIp
      rw [hexpects]
      decide
    set next : State := { s with stationNetif := s.stationNetif.map leased }
    cases hip : next.hasStationIp with
    | false => exact .owesNothing rfl (hip.trans hbefore.symm) rfl
    | true =>
      refine .announced (some pending.generation) rfl hip fun generation hkind => ?_
      cases hkind
      rfl
  | connectedDelay attempt =>
    rw [completeConnection, whenCurrent_current
      (hnow (by rcases hexpects with hs | hs <;> rw [hs] <;> rfl))]
    exact .owesNothing rfl rfl rfl
  | drop attempt =>
    rw [completeConnection, if_pos (hnow (by rcases hexpects with hs | hs <;> rw [hs] <;> rfl))]
    obtain ⟨hgone, hsome, -⟩ := clearStationIpLocked_netif { s with connectedAp := none }
    cases hip : s.hasStationIp with
    | true =>
      refine .dropped .dropLostIp hip hgone rfl ?_ rfl rfl
      exact hsome.trans (address_regular.holds s hip)
    | false => exact .owesNothing rfl (hgone.trans hip.symm) rfl
  | dropLostIp => exact lostIp_effect hcurrent

end Completions

section Runs

variable {c c' : System}

/-- The streams follow the state of the station and its threads. -/
structure InStep (c : System) : Prop where
  sound : Sound c
  leased : Leased c.shared.state
  connection : connection.Tracks c
  address : address.Tracks c

theorem commits_update {t : ℕ} (hposts : (c.thread t).posts = []) (done : Section) :
    Stream.Commits c t done ⟨(c.shared.commit done).1,
      Function.update c.thread t (c.shared.commit done).2⟩ :=
  ⟨hposts, rfl, rfl, rfl, Function.update_self _ _ _, fun _ hu => Function.update_of_ne hu _ _⟩

theorem posts_update {t : ℕ} {event : Event} {posts : List Event}
    (hposts : (c.thread t).posts = event :: posts) :
    Stream.Posts c t event posts
      ⟨{ c.shared with history := .posted event :: c.shared.history },
        Function.update c.thread t ⟨(c.thread t).number, posts, (c.thread t).rest⟩⟩ :=
  ⟨hposts, rfl, rfl, rfl, by simp, by simp, by simp, fun _ hu => Function.update_of_ne hu _ _⟩

theorem returns_update {t generation : ℕ} (hposts : (c.thread t).posts = [])
    (hrest : (c.thread t).rest = .returning generation) :
    Stream.Returns c t generation
      ⟨{ c.shared with history := .returned generation :: c.shared.history },
        Function.update c.thread t .idle⟩ :=
  ⟨hposts, hrest, rfl, rfl, rfl, Function.update_self _ _ _, fun _ hu => Function.update_of_ne hu _ _⟩

/-- Calls, completions, posts and returns keep a stream behind the state. -/
theorem tracks_step {x : Stream} (hx : x.Regular) (hsound : Sound c) (hl : Leased c.shared.state)
    (heffect : ∀ pending phase retry created,
      pending.generation = c.shared.state.connectGeneration →
      phase.Expects c.shared.state.station →
      x.CompletionEffect c.shared.state pending phase created
        (completeConnection c.shared.state pending retry created phase))
    (h : x.Tracks c) {a : ℕ × Action} (hcall : ∀ call, a.2 = .call call → call.isReset = false)
    (horderly : x.Orderly c a) (hfire : fire step c a = some c') : x.Tracks c' := by
  obtain ⟨t, action⟩ := a
  obtain ⟨s, l, hstep, rfl⟩ := fire_eq_some.mp hfire
  rcases step_cases hstep with ⟨call, hposts, hrest, hact, heq⟩ |
    ⟨retry, created, pending, phase, hposts, hrest, hact, heq⟩ |
    ⟨event, posts, hact, hposts, rfl, rfl⟩ | ⟨generation, hposts, hrest, rfl, rfl⟩
  · obtain ⟨rfl, rfl⟩ := Prod.mk.inj heq
    change action = .call call at hact
    subst hact
    obtain ⟨hcallEffect, hfew, hpossible⟩ :=
      callSection_stream hx hsound.related hl (hcall call rfl)
    exact h.call (commits_update hposts _) hrest hfew hpossible hcallEffect horderly
  · obtain ⟨rfl, rfl⟩ := Prod.mk.inj heq
    change action = .advance retry created at hact
    subst hact
    obtain ⟨-, hexpects⟩ := hsound.known t pending phase hrest
    have hdone := completeConnection_completes hsound.related retry created hexpects
    have hrest' : _ ∨ ∃ phase', (completeConnection c.shared.state pending retry created phase).rest =
        .completing pending phase' := completeConnection_rest retry created phase
    by_cases hcurrent : pending.generation = c.shared.state.connectGeneration
    · have hdistinct : ∀ u pending' phase', u ≠ t →
          (c.thread u).rest = .completing pending' phase' →
          pending'.generation ≠ pending.generation :=
        fun u pending' phase' hu hrest'' => hsound.distinct u t _ _ _ _ hu hrest'' hrest
      exact h.complete (commits_update hposts _) hrest hcurrent hdistinct hdone.generation
        (completeConnection_few retry created phase)
        (hx.possible _ _ (completeConnection_leased hl retry created hexpects).2) hrest'
        (heffect pending phase retry created hcurrent (hexpects hcurrent)) horderly
    · exact h.stale (commits_update hposts _) hrest hcurrent (hdone.stale hcurrent)
        (completeConnection_stale_posts retry created phase hcurrent) hrest'
  · change action = .post at hact
    subst hact
    exact h.post (posts_update hposts) horderly
  · exact h.ret (returns_update hposts hrest)

theorem leased_step (hsound : Sound c) (hl : Leased c.shared.state) {a : ℕ × Action}
    (hfire : fire step c a = some c') : Leased c'.shared.state := by
  obtain ⟨s, l, hstep, rfl⟩ := fire_eq_some.mp hfire
  rcases step_cases hstep with ⟨call, -, -, -, heq⟩ |
    ⟨retry, created, pending, phase, -, hrest, -, heq⟩ | ⟨event, posts, -, -, rfl, -⟩ |
    ⟨generation, -, -, rfl, -⟩
  · obtain ⟨rfl, -⟩ := Prod.mk.inj heq
    exact (callSection_leased hsound.related hl call).1
  · obtain ⟨rfl, -⟩ := Prod.mk.inj heq
    exact (completeConnection_leased hl retry created (hsound.known a.1 pending phase hrest).2).1
  · exact hl
  · exact hl

/-- The posts of both streams keep their order, and nothing owed is forgotten. -/
def Orderly (c : System) (a : ℕ × Action) : Prop :=
  Wifi.connection.Orderly c a ∧ Wifi.address.Orderly c a

theorem inStep_step {a : ℕ × Action} (h : InStep c)
    (hcall : ∀ call, a.2 = .call call → call.isReset = false) (horderly : Orderly c a)
    (hfire : fire step c a = some c') : InStep c' where
  sound := sound_step hfire h.sound
  leased := leased_step h.sound h.leased hfire
  connection := tracks_step connection_regular h.sound h.leased
    (fun _ _ retry created hcurrent hexpects =>
      completeConnection_connection h.sound.related retry created hcurrent hexpects)
    h.connection hcall horderly.1 hfire
  address := tracks_step address_regular h.sound h.leased
    (fun _ _ retry created hcurrent hexpects =>
      completeConnection_address h.sound.related h.leased retry created hcurrent hexpects)
    h.address hcall horderly.2 hfire

theorem start_tracks {x : Stream} {stationNetif apNetif : Option Netif}
    (hheld : x.held (start stationNetif apNetif).shared.state = false) :
    x.Tracks (start stationNetif apNetif) := by
  have hnone : ∀ {t kind}, x.announces ((start stationNetif apNetif).thread t).posts = some kind →
      False := by
    intro t kind h
    cases h
  constructor
  case few => exact fun _ => Nat.zero_le 1
  case earlier => exact fun t hposts => absurd rfl hposts
  case decided =>
    exact ⟨false, ⟨fun _ _ hu => (hnone hu).elim, fun _ => rfl⟩, .inl hheld.symm⟩
  case current => exact fun _ _ hu => (hnone hu).elim
  case owner => exact fun _ _ _ _ _ _ hu => (hnone hu).elim
  case returning =>
    intro t generation hrest
    cases hrest
  case returned =>
    intro generation hmem
    cases hmem
  case waits => exact fun _ _ _ hu => (hnone hu).elim
  case unreturned => exact fun _ _ hu => (hnone hu).elim
  case prompt => trivial

theorem start_inStep {stationNetif apNetif : Option Netif}
    (hnetif : ∀ netif ∈ stationNetif, netif.dhcpStarted = true ∧ netif.ipInfo.ip = 0) :
    InStep (start stationNetif apNetif) := by
  have hip : (start stationNetif apNetif).shared.state.hasStationIp = false := by
    cases stationNetif with
    | none => rfl
    | some netif => simp [start, State.hasStationIp, (hnetif netif rfl).2]
  refine ⟨start_sound stationNetif apNetif, ⟨fun netif h => (hnetif netif h).1, ?_⟩,
    start_tracks rfl, start_tracks hip⟩
  intro hheld
  rw [hip] at hheld
  cases hheld

/-- No call and no completion is in progress. -/
def Quiescent (c : System) : Prop := ∀ t, (c.thread t).posts = [] ∧ (c.thread t).rest = .done

theorem Stream.Tracks.quiescent {x : Stream} (h : x.Tracks c) (hquiet : Quiescent c) :
    x.lastBegan c.shared.history = x.held c.shared.state := by
  obtain ⟨began, hdecided, hbegan⟩ := h.decided
  have hlast : x.lastBegan c.shared.history = began := by
    apply hdecided.posted
    intro t kind ht
    rw [(hquiet t).1] at ht
    cases ht
  rcases hbegan with hbegan | ⟨-, -, -, t, pending, phase, hrest, -⟩
  · exact hlast.trans hbegan
  · rw [(hquiet t).2] at hrest
    cases hrest

theorem Stream.Prompt.of_append {x : Stream} {later earlier : List Entry} {event : Event}
    {generation : ℕ} (h : x.Prompt (later ++ .posted event :: earlier))
    (hof : x.of event = some (some generation)) : Entry.returned (generation + 1) ∉ earlier := by
  induction later with
  | nil => exact h.1 generation hof
  | cons entry later ih =>
    cases entry with
    | posted event' => exact ih h.2
    | returned generation' => exact ih h

end Runs

/-- In a run whose posts keep their order and whose attempts announce what they took away: once
no call and no completion is in progress, the last event of a connection and the last event of
an address are beginnings exactly when the state has a connection and a leased address, and no
event of the beginning of a connection or of an address comes behind the return of the call
that moved the generation on from its attempt. -/
theorem events_match {stationNetif apNetif : Option Netif}
    (hnetif : ∀ netif ∈ stationNetif, netif.dhcpStarted = true ∧ netif.ipInfo.ip = 0)
    {actions : List (ℕ × Action)}
    (hcalls : ∀ t call, (t, .call call) ∈ actions → call.isReset = false)
    (horderly : Meets (fire step) Orderly (start stationNetif apNetif) actions) {c : System}
    (hrun : run (fire step) (start stationNetif apNetif) actions = some c) :
    (Quiescent c →
      (connection.lastBegan c.shared.history = true ↔ c.shared.state.connectedAp.isSome = true) ∧
      (address.lastBegan c.shared.history = true ↔ c.shared.state.hasStationIp = true)) ∧
    ∀ later event earlier generation, c.shared.history = later ++ .posted event :: earlier →
      connection.of event = some (some generation) ∨ address.of event = some (some generation) →
      Entry.returned (generation + 1) ∉ earlier := by
  have hcalls' : Meets (fire step)
      (fun _ (a : ℕ × Action) => ∀ call, a.2 = .call call → call.isReset = false)
      (start stationNetif apNetif) actions := by
    apply Meets.of_forall
    rintro ⟨t, action⟩ hmem call rfl
    exact hcalls t call hmem
  have hkeeps : PreservesWhen (fire step) (fun c a =>
      Orderly c a ∧ ∀ call, a.2 = .call call → call.isReset = false) InStep :=
    fun _ _ _ hok hfire h => inStep_step h hok.2 hok.1 hfire
  have h : InStep c := hkeeps.run (horderly.and hcalls') hrun (start_inStep hnetif)
  refine ⟨fun hquiet => ⟨?_, ?_⟩, ?_⟩
  · rw [h.connection.quiescent hquiet]
    exact Iff.rfl
  · rw [h.address.quiescent hquiet]
    exact Iff.rfl
  · rintro later event earlier generation hhistory (hof | hof)
    · have hprompt := h.connection.prompt
      rw [hhistory] at hprompt
      exact hprompt.of_append hof
    · have hprompt := h.address.prompt
      rw [hhistory] at hprompt
      exact hprompt.of_append hof

section Alone

/-- A step of the only thread that is at work: a call that puts an end to all attempts is made
when nothing has begun, and every task is created. -/
def alone (c : System) (a : ℕ × Action) : Bool :=
  a.1 = 0 && match a.2 with
    | .call call => !supersedes c.shared.state call ||
        (c.thread 0).posts.isEmpty && !connection.lastBegan c.shared.history &&
          !address.lastBegan c.shared.history && !call.isRestore
    | .post => true
    | .advance _ created => created

variable {x : Stream} {c : System}

theorem not_owed_alone (hothers : ∀ u, u ≠ 0 → (c.thread u).posts = [])
    (hposts : (c.thread 0).posts = []) (hlast : x.lastBegan c.shared.history = false) :
    ¬x.Owed c := by
  rintro ⟨hdecided, -⟩
  have hbegan : x.lastBegan c.shared.history = true := by
    apply hdecided.posted
    intro u kind hu
    by_cases hu0 : u = 0
    · rw [hu0, hposts] at hu
      cases hu
    · rw [hothers u hu0] at hu
      cases hu
  rw [hlast] at hbegan
  cases hbegan

theorem inOrder_alone (hothers : ∀ u, u ≠ 0 → (c.thread u).posts = []) : x.InOrder c 0 := by
  intro event posts kind hposts hof u kind' hu hkind
  by_cases hu0 : u = 0
  · rw [hu0, hposts, Stream.announces_cons_some hof] at hu
    cases hu
    exact absurd rfl hkind
  · rw [hothers u hu0] at hu
    cases hu

theorem orderly_alone (hothers : ∀ u, u ≠ 0 → (c.thread u).posts = []) {a : ℕ × Action}
    (ha : alone c a = true) : Orderly c a := by
  obtain ⟨t, action⟩ := a
  obtain ⟨ht, haction⟩ := Bool.and_eq_true_iff.mp ha
  obtain rfl : t = 0 := of_decide_eq_true ht
  cases action with
  | call call =>
    simp only [Bool.or_eq_true, Bool.not_eq_true', Bool.and_eq_true, List.isEmpty_iff] at haction
    have hcall : ∀ {x : Stream}, (c.thread 0).posts = [] →
        x.lastBegan c.shared.history = false → call.isRestore = false →
        ¬x.Owed c ∧ (call.isRestore = true → x.held c.shared.state = false) := by
      intro x hposts hlast hrestore
      refine ⟨not_owed_alone hothers hposts hlast, fun hrestore' => ?_⟩
      rw [hrestore] at hrestore'
      cases hrestore'
    rcases haction with hnot | ⟨⟨⟨hposts, hconnection⟩, haddress⟩, hrestore⟩
    · constructor
      all_goals
        intro hsupersedes
        rw [hsupersedes] at hnot
        cases hnot
    · exact ⟨fun _ => hcall hposts hconnection hrestore, fun _ => hcall hposts haddress hrestore⟩
  | post => exact ⟨inOrder_alone hothers, inOrder_alone hothers⟩
  | advance retry created =>
    change created = true at haction
    subst haction
    constructor
    all_goals
      intro hcreated
      cases hcreated

theorem others_alone {c' : System} (hothers : ∀ u, u ≠ 0 → (c.thread u).posts = [])
    {a : ℕ × Action} (ha : alone c a = true) (hfire : fire step c a = some c') :
    ∀ u, u ≠ 0 → (c'.thread u).posts = [] := by
  intro u hu
  have ht : a.1 = 0 := of_decide_eq_true (Bool.and_eq_true_iff.mp ha).1
  obtain ⟨s, l, -, rfl⟩ := fire_eq_some.mp hfire
  have hsame : Function.update c.thread a.1 l u = c.thread u := Function.update_of_ne (ht ▸ hu) _ _
  change (Function.update c.thread a.1 l u).posts = []
  rw [hsame]
  exact hothers u hu

end Alone

/-- A connection at once ends with both events. -/
theorem events_match_bringUp :
    ∃ c, run (fire step) (start (some defaultNetif) none) bringUp = some c ∧
      ∀ later event earlier generation, c.shared.history = later ++ .posted event :: earlier →
        connection.of event = some (some generation) ∨ address.of event = some (some generation) →
        Entry.returned (generation + 1) ∉ earlier := by
  have hend : (run (fire step) (start (some defaultNetif) none) bringUp).isSome = true := by
    decide +kernel
  obtain ⟨c, hrun⟩ := Option.isSome_iff_exists.mp hend
  have hcheck : check (fire step) alone (start (some defaultNetif) none) bringUp = true := by
    decide +kernel
  have horderly : Meets (fire step) Orderly (start (some defaultNetif) none) bringUp :=
    Meets.of_check (I := fun c => ∀ u, u ≠ 0 → (c.thread u).posts = [])
      (fun _ _ _ hothers ha hfire => others_alone hothers ha hfire)
      (fun _ _ hothers => orderly_alone hothers) (fun _ _ => rfl) hcheck
  have hcalls : ∀ t call, (t, .call call) ∈ bringUp → call.isReset = false := by
    intro t call hmem
    simp only [bringUp, List.mem_cons, Prod.mk.injEq, Action.call.injEq, reduceCtorEq, and_false,
      List.not_mem_nil, or_false, false_or] at hmem
    rcases hmem with ⟨-, rfl⟩ | ⟨-, rfl⟩ | ⟨-, rfl⟩ | ⟨-, rfl⟩ <;> rfl
  have hnetif : ∀ netif ∈ some defaultNetif, netif.dhcpStarted = true ∧ netif.ipInfo.ip = 0 := by
    intro netif hmem
    cases hmem
    exact ⟨rfl, rfl⟩
  exact ⟨c, hrun, (events_match hnetif hcalls horderly hrun).2⟩

/-- Threads that take no step stay as they were. -/
theorem run_others {c d : System} {actions : List (ℕ × Action)}
    (hrun : run (fire step) c actions = some d) {t : ℕ} (ht : ∀ a ∈ actions, a.1 ≠ t) :
    d.thread t = c.thread t := by
  induction actions generalizing c with
  | nil =>
    cases hrun
    rfl
  | cons a actions ih =>
    obtain ⟨c', hfire, hrest⟩ := run_cons_eq_some.mp hrun
    obtain ⟨s, l, -, rfl⟩ := fire_eq_some.mp hfire
    rw [ih hrest fun b hb => ht b (List.mem_cons_of_mem _ hb)]
    exact Function.update_of_ne (ht a List.mem_cons_self).symm _ _

def slow : ConnectionAttempt := ⟨.automatic, 100, 0, 0⟩

def replaced : List (ℕ × Action) :=
  bringUp ++ [(0, .call (.connect [homeAp] slow)), (0, .advance slow true), (1, .call .disconnect),
    (1, .advance slow true), (0, .advance slow true)]

def Local.isIdle (l : Local) : Bool :=
  l.posts.isEmpty && match l.rest with
    | .done => true
    | _ => false

theorem Local.isIdle_iff {l : Local} : l.isIdle = true ↔ l.posts = [] ∧ l.rest = .done := by
  obtain ⟨number, posts, rest⟩ := l
  cases posts <;> cases rest <;> simp [Local.isIdle]

/-- A station that was connected reconnects and is disconnected while the new attempt is under
way: nobody is told that its connection and its address are gone. -/
theorem events_match_replaced :
    ∃ c, run (fire step) (start (some defaultNetif) none) replaced = some c ∧ Quiescent c ∧
      connection.lastBegan c.shared.history = true ∧ c.shared.state.connectedAp = none ∧
      address.lastBegan c.shared.history = true ∧ c.shared.state.hasStationIp = false := by
  have hend : (run (fire step) (start (some defaultNetif) none) replaced).map
      (fun c => ((c.thread 0).isIdle && (c.thread 1).isIdle, connection.lastBegan c.shared.history,
        c.shared.state.connectedAp.isSome, address.lastBegan c.shared.history,
        c.shared.state.hasStationIp)) = some (true, true, false, true, false) := by
    decide +kernel
  obtain ⟨c, hrun, hfinal⟩ := Option.map_eq_some_iff.mp hend
  simp only [Prod.mk.injEq, Bool.and_eq_true, Option.isSome_eq_false_iff,
    Option.isNone_iff_eq_none] at hfinal
  obtain ⟨⟨hzero, hone⟩, hfinal⟩ := hfinal
  refine ⟨c, hrun, fun t => ?_, hfinal⟩
  rcases t with _ | _ | t
  · exact Local.isIdle_iff.mp hzero
  · exact Local.isIdle_iff.mp hone
  · have hactions : ∀ a ∈ replaced, a.1 ≠ t + 2 := by
      intro a ha
      have hle : ∀ a ∈ replaced, a.1 ≤ 1 := by
        have hall : replaced.all (fun a => decide (a.1 ≤ 1)) = true := by decide +kernel
        exact fun a ha => of_decide_eq_true (List.all_eq_true.mp hall a ha)
      have hone := hle a ha
      omega
    rw [run_others hrun hactions]
    exact ⟨rfl, rfl⟩

end RooTesting.Wifi
