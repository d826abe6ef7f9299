import RooTesting.WifiStates

/-! # The interfaces and the driver

Calls made one after another, with the sections of connections that complete in tasks of their
own between them. A mode change never touches the access point's interface, and a restore
posts nothing: away from these two the flags of both interfaces, and the last start and stop
events, follow the driver. -/
namespace RooTesting.Wifi
open Transition Threads

/-- A call from its section to its last post, one step behind a call, or the creation of a
default interface. -/
inductive Item where
  | createStation
  | createAp
  | call (t : ℕ) (c : Call)
  | post (t : ℕ)
  | advance (t : ℕ) (retry : ConnectionAttempt) (created : Bool)

def createDefaultWifiSta (s : State) : State :=
  { s with stationNetif := some ⟨s.driver = .started && hasStation s.mode, .none, true⟩ }

def createDefaultWifiAp (s : State) : State :=
  { s with apNetif := some ⟨s.driver = .started && hasAccessPoint s.mode,
    ⟨0x0104A8C0, 0x00FFFFFF, 0x0104A8C0⟩, false⟩ }

def System.setState (c : System) (s : State) : System :=
  { c with shared := { c.shared with state := s } }

/-- The steps of the system that an item stands for. -/
def sequence (c : System) : Item → Option System
  | .createStation => some (c.setState (createDefaultWifiSta c.shared.state))
  | .createAp => some (c.setState (createDefaultWifiAp c.shared.state))
  | .call t call =>
    (fire step c (t, .call call)).bind fun c =>
      run (fire step) c (List.replicate (c.thread t).posts.length (t, .post))
  | .post t => fire step c (t, .post)
  | .advance t retry created => fire step c (t, .advance retry created)

/-- The last of two kinds of events that was posted is the first kind. -/
def startedBy (start stop : Event) : List Entry → Bool
  | [] => false
  | .posted event :: history =>
    if event = start then true else if event = stop then false else startedBy start stop history
  | .returned _ :: history => startedBy start stop history

def State.stationUp (s : State) : Option Bool := s.stationNetif.map Netif.up
def State.apUp (s : State) : Option Bool := s.apNetif.map Netif.up

/-- The flags of both interfaces, and the events posted for them, say what the driver does. -/
structure Follows (s : State) (history : List Entry) : Prop where
  station : s.stationUp = some (s.driver = .started && hasStation s.mode)
  ap : s.apUp = some (s.driver = .started && hasAccessPoint s.mode)
  stationEvents : startedBy .staStart .staStop history =
    (s.driver = .started && hasStation s.mode)
  apEvents : startedBy .apStart .apStop history =
    (s.driver = .started && hasAccessPoint s.mode)

/-- The calls that a started driver follows: mode changes that leave the access point as it is,
and restores in station mode. -/
def Proper (s : State) : Call → Prop
  | .setMode (some mode) => s.driver = .started → hasAccessPoint mode = hasAccessPoint s.mode
  | .restore => s.driver = .started → s.mode = .sta
  | _ => True

def Call.isReset : Call → Bool
  | .reset => true
  | _ => false

def ProperItem (c : System) : Item → Prop
  | .call _ call => Proper c.shared.state call
  | _ => True

section Events

variable {start stop : Event} {history : List Entry}

/-- The flag behind some posts. -/
def flagAfter (start stop : Event) (flag : Bool) (posts : List Event) : Bool :=
  posts.foldl (fun flag event => if event = start then true else if event = stop then false
    else flag) flag

def postedAll (posts : List Event) (history : List Entry) : List Entry :=
  (posts.map Entry.posted).reverse ++ history

theorem postedAll_cons (event : Event) (posts : List Event) (history : List Entry) :
    postedAll (event :: posts) history = postedAll posts (.posted event :: history) := by
  simp [postedAll]

theorem startedBy_postedAll (posts : List Event) (history : List Entry) :
    startedBy start stop (postedAll posts history) =
      flagAfter start stop (startedBy start stop history) posts := by
  induction posts generalizing history with
  | nil => rfl
  | cons event posts ih =>
    rw [postedAll_cons, ih]
    rfl

theorem flagAfter_append (flag : Bool) (posts posts' : List Event) :
    flagAfter start stop flag (posts ++ posts') =
      flagAfter start stop (flagAfter start stop flag posts) posts' :=
  List.foldl_append

/-- Events of other kinds leave the flag. -/
theorem flagAfter_other {flag : Bool} {posts : List Event}
    (h : ∀ event ∈ posts, event ≠ start ∧ event ≠ stop) :
    flagAfter start stop flag posts = flag := by
  induction posts with
  | nil => rfl
  | cons event posts ih =>
    obtain ⟨hstart, hstop⟩ := h event List.mem_cons_self
    have hrest := ih fun event hevent => h event (List.mem_cons_of_mem _ hevent)
    simp only [flagAfter, List.foldl_cons, if_neg hstart, if_neg hstop] at hrest ⊢
    exact hrest

/-- An event that neither starts nor stops an interface. -/
def Event.isConnection : Event → Bool
  | .staStart | .staStop | .apStart | .apStop => false
  | _ => true

theorem flagAfter_connection {flag : Bool} {posts : List Event} {start stop : Event}
    (hstart : start.isConnection = false) (hstop : stop.isConnection = false)
    (h : ∀ event ∈ posts, event.isConnection = true) : flagAfter start stop flag posts = flag := by
  apply flagAfter_other
  intro event hevent
  have hconnection := h event hevent
  constructor
  · rintro rfl
    rw [hstart] at hconnection
    cases hconnection
  · rintro rfl
    rw [hstop] at hconnection
    cases hconnection

theorem lossPosts_connection (s : State) : ∀ event ∈ lossPosts s, event.isConnection = true := by
  intro event hevent
  rw [lossPosts, List.mem_append] at hevent
  rcases hevent with h | h <;> split_ifs at h <;> simp at h <;> rw [h] <;> rfl

theorem flagAfter_modePosts {flag : Bool} (hne : start ≠ stop) (started had has : Bool) :
    flagAfter start stop flag (modePosts started had has start stop) =
      if started && had ≠ has then has else flag := by
  rw [modePosts]
  by_cases h : (started && had ≠ has) = true
  · rw [if_pos h, if_pos h]
    cases has
    · simp [flagAfter, hne.symm]
    · simp [flagAfter]
  · rw [if_neg h, if_neg h]
    rfl

/-- The events of the other interface leave the flag. -/
theorem flagAfter_modePosts_other {flag : Bool} {start' stop' : Event} (started had has : Bool)
    (h : start' ≠ start ∧ start' ≠ stop ∧ stop' ≠ start ∧ stop' ≠ stop) :
    flagAfter start stop flag (modePosts started had has start' stop') = flag := by
  apply flagAfter_other
  intro event hevent
  rw [modePosts] at hevent
  split_ifs at hevent
  · simp only [List.mem_singleton] at hevent
    subst hevent
    exact ⟨h.1, h.2.1⟩
  · simp only [List.mem_singleton] at hevent
    subst hevent
    exact ⟨h.2.2.1, h.2.2.2⟩
  · cases hevent

end Events

theorem lossPosts_flags (s : State) (flag : Bool) :
    flagAfter .staStart .staStop flag (lossPosts s) = flag ∧
      flagAfter .apStart .apStop flag (lossPosts s) = flag :=
  ⟨flagAfter_connection rfl rfl (lossPosts_connection s),
    flagAfter_connection rfl rfl (lossPosts_connection s)⟩

section Flags

variable (s : State)

@[simp] theorem setStationNetif_flags (up : Bool) (f : IpInfo → IpInfo) :
    (s.setStationNetif up f).stationUp = s.stationUp.map (fun _ => up) ∧
    (s.setStationNetif up f).apUp = s.apUp := by
  constructor
  · rw [State.stationUp, State.stationUp, State.setStationNetif, Option.map_map, Option.map_map]
    rfl
  · rfl

@[simp] theorem setStationUp_flags (up : Bool) :
    (s.setStationUp up).stationUp = s.stationUp.map (fun _ => up) ∧
    (s.setStationUp up).apUp = s.apUp := setStationNetif_flags s up id

@[simp] theorem setApUp_flags (up : Bool) :
    (s.setApUp up).apUp = s.apUp.map (fun _ => up) ∧ (s.setApUp up).stationUp = s.stationUp := by
  constructor
  · rw [State.apUp, State.apUp, State.setApUp, Option.map_map, Option.map_map]
    rfl
  · rfl

@[simp] theorem clearStationIpLocked_flags :
    s.clearStationIpLocked.stationUp = s.stationUp ∧ s.clearStationIpLocked.apUp = s.apUp := by
  rw [State.clearStationIpLocked]
  split_ifs
  · refine ⟨?_, rfl⟩
    rw [State.stationUp, State.stationUp, Option.map_map]
    rfl
  · exact ⟨rfl, rfl⟩

@[simp] theorem dropConnection_flags :
    s.dropConnection.stationUp = s.stationUp ∧ s.dropConnection.apUp = s.apUp :=
  clearStationIpLocked_flags
    { s with connectGeneration := s.connectGeneration + 1, connectedAp := none }

end Flags

section Sections

variable {s : State} {history : List Entry}

/-- What the flags and the events of a section say, told by the state before. -/
theorem Follows.postedAll_iff {s' : State} {posts : List Event} (h : Follows s history) :
    Follows s' (postedAll posts history) ↔
      s'.stationUp = some (s'.driver = .started && hasStation s'.mode) ∧
      s'.apUp = some (s'.driver = .started && hasAccessPoint s'.mode) ∧
      flagAfter .staStart .staStop (s.driver = .started && hasStation s.mode) posts =
        (s'.driver = .started && hasStation s'.mode) ∧
      flagAfter .apStart .apStop (s.driver = .started && hasAccessPoint s.mode) posts =
        (s'.driver = .started && hasAccessPoint s'.mode) := by
  rw [← h.stationEvents, ← h.apEvents, ← startedBy_postedAll, ← startedBy_postedAll]
  constructor
  · intro hs
    exact ⟨hs.station, hs.ap, hs.stationEvents, hs.apEvents⟩
  · rintro ⟨hstation, hap, hstationEvents, hapEvents⟩
    exact ⟨hstation, hap, hstationEvents, hapEvents⟩

theorem Follows.refused (h : Follows s history) : Follows s (postedAll [] history) := h

/-- A reset of the driver posts nothing, so what was started has to stay as it was. -/
theorem resetDriverLocked_follows (h : Follows s history) (driver : DriverState) :
    Follows (s.resetDriverLocked driver) (postedAll [] history) ↔
      (s.driver = .started && hasStation s.mode) = decide (driver = .started) ∧
      (s.driver = .started && hasAccessPoint s.mode) = false := by
  have hstation : (s.resetDriverLocked driver).stationUp = some (decide (driver = .started)) := by
    rw [State.resetDriverLocked, (setApUp_flags _ false).2, (setStationNetif_flags _ _ _).1]
    exact congrArg (Option.map fun _ => decide (driver = .started)) h.station
  have hap : (s.resetDriverLocked driver).apUp = some false := by
    rw [State.resetDriverLocked, (setApUp_flags _ false).1, (setStationNetif_flags _ _ _).2]
    exact congrArg (Option.map fun _ => false) h.ap
  rw [h.postedAll_iff, hstation, hap]
  cases driver <;> simp [flagAfter, hasStation, hasAccessPoint]

theorem espWifiStart_follows (h : Follows s history) :
    Follows (espWifiStart s).state (postedAll (espWifiStart s).posts history) := by
  simp only [espWifiStart]
  by_cases hdriver : s.driver = .uninitialized
  · rw [if_pos hdriver]
    exact h.refused
  by_cases hmode : s.mode = .null
  · rw [if_neg hdriver, if_pos hmode]
    exact h.refused
  by_cases hstarted : s.driver = .started
  · rw [if_neg hdriver, if_neg hmode, if_pos hstarted]
    exact h.refused
  rw [if_neg hdriver, if_neg hmode, if_neg hstarted, h.postedAll_iff]
  set next : State := { s with
    driver := .started
    station := if hasStation s.mode then .idle else .disabled }
  have hnextDriver : next.driver = .started := rfl
  have hnextMode : next.mode = s.mode := rfl
  have hs : next.stationUp = some false := h.station.trans (by simp [hstarted])
  have ha : next.apUp = some false := h.ap.trans (by simp [hstarted])
  clear_value next
  cases hstation : hasStation s.mode <;> cases haccess : hasAccessPoint s.mode
  all_goals simp [hs, ha, hstarted, hstation, haccess, hnextDriver, hnextMode, flagAfter]

theorem espWifiStop_follows (h : Follows s history) :
    Follows (espWifiStop s).state (postedAll (espWifiStop s).posts history) := by
  simp only [espWifiStop]
  by_cases hdriver : s.driver = .uninitialized
  · rw [if_pos hdriver]
    exact h.refused
  by_cases hstopped : s.driver = .stopped
  · rw [if_neg hdriver, if_pos hstopped]
    exact h.refused
  rw [if_neg hdriver, if_neg hstopped, h.postedAll_iff]
  set next : State := { s with
    driver := .stopped
    station := if hasStation s.mode then .idle else .disabled
    scanInProgress := false }
  have hnextDriver : next.driver = .stopped := rfl
  have hnextMode : next.mode = s.mode := rfl
  have hs : next.stationUp = some (s.driver = .started && hasStation s.mode) := h.station
  have ha : next.apUp = some (s.driver = .started && hasAccessPoint s.mode) := h.ap
  have hstarted : s.driver = .started := by
    cases hd : s.driver with
    | uninitialized => exact absurd hd hdriver
    | stopped => exact absurd hd hstopped
    | started => rfl
  clear_value next
  simp only [flagAfter_append, (lossPosts_flags s _).1, (lossPosts_flags s _).2]
  cases hstation : hasStation s.mode <;> cases haccess : hasAccessPoint s.mode
  all_goals simp [hs, ha, hstarted, hstation, haccess, hnextDriver, hnextMode, flagAfter]

/-- A mode change leaves the access point's interface as it is. -/
theorem espWifiSetMode_flags (mode : Mode) (hdriver : s.driver ≠ .uninitialized)
    (h : s.stationUp = some (s.driver = .started && hasStation s.mode)) :
    (espWifiSetMode s (some mode)).state.driver = s.driver ∧
    (espWifiSetMode s (some mode)).state.mode = mode ∧
    (espWifiSetMode s (some mode)).state.apUp = s.apUp ∧
    (espWifiSetMode s (some mode)).state.stationUp =
      some (s.driver = .started && hasStation mode) := by
  simp only [espWifiSetMode, if_neg hdriver]
  cases hnew : hasStation mode with
  | false =>
    have hflags := dropConnection_flags { s with mode := mode, scanInProgress := false }
    have hup := setStationUp_flags
      (State.dropConnection { s with mode := mode, scanInProgress := false }) false
    have hnext : s.stationUp.map (fun _ => false) = some false := by rw [h]; rfl
    refine ⟨?_, ?_, ?_, ?_⟩
    · simp
    · simp
    · exact hup.2.trans hflags.2
    · rw [Bool.and_false]
      exact hup.1.trans ((congrArg _ hflags.1).trans hnext)
  | true =>
    cases hold : hasStation s.mode with
    | false =>
      have hup := setStationUp_flags { s with mode := mode } (s.driver = .started)
      have hnext : s.stationUp.map (fun _ => decide (s.driver = .started)) =
          some (decide (s.driver = .started)) := by rw [h]; rfl
      refine ⟨rfl, rfl, hup.2, ?_⟩
      rw [Bool.and_true]
      exact hup.1.trans hnext
    | true =>
      refine ⟨rfl, rfl, rfl, ?_⟩
      rw [hold] at h
      exact h

theorem espWifiSetMode_posts (mode : Mode) (hdriver : s.driver ≠ .uninitialized) :
    ∃ losses, (∀ event ∈ losses, event.isConnection = true) ∧
      (espWifiSetMode s (some mode)).posts = losses ++
        (modePosts (s.driver = .started) (hasStation s.mode) (hasStation mode) .staStart .staStop ++
          modePosts (s.driver = .started) (hasAccessPoint s.mode) (hasAccessPoint mode)
            .apStart .apStop) := by
  simp only [espWifiSetMode, if_neg hdriver]
  cases hasStation mode with
  | false => exact ⟨lossPosts s, lossPosts_connection s, by simp⟩
  | true =>
    refine ⟨[], by simp, ?_⟩
    cases hasStation s.mode <;> rfl

theorem espWifiSetMode_follows (h : Follows s history) (mode : Option Mode) :
    Follows (espWifiSetMode s mode).state (postedAll (espWifiSetMode s mode).posts history) ↔
      Proper s (.setMode mode) := by
  rcases mode with _ | mode
  · exact iff_of_true h.refused trivial
  by_cases hdriver : s.driver = .uninitialized
  · simp only [espWifiSetMode, if_pos hdriver]
    apply iff_of_true h.refused
    intro hstarted
    rw [hdriver] at hstarted
    cases hstarted
  obtain ⟨hdriver', hmode', hap, hstation⟩ := espWifiSetMode_flags mode hdriver h.station
  obtain ⟨losses, hlosses, hposts⟩ := espWifiSetMode_posts mode hdriver
  rw [h.postedAll_iff, hdriver', hmode', hap, hstation, h.ap, hposts]
  have hstationLosses : ∀ flag, flagAfter .staStart .staStop flag losses = flag :=
    fun flag => flagAfter_connection rfl rfl hlosses
  have hapLosses : ∀ flag, flagAfter .apStart .apStop flag losses = flag :=
    fun flag => flagAfter_connection rfl rfl hlosses
  simp only [flagAfter_append, hstationLosses, hapLosses]
  rw [flagAfter_modePosts (by decide), flagAfter_modePosts (by decide),
    flagAfter_modePosts_other _ _ _ (by decide), flagAfter_modePosts_other _ _ _ (by decide)]
  have hproper : Proper s (.setMode (some mode)) ↔
      (s.driver = .started → hasAccessPoint mode = hasAccessPoint s.mode) := Iff.rfl
  rw [hproper]
  by_cases hstarted : s.driver = .started <;> cases hasStation mode <;> cases hasStation s.mode <;>
    cases hasAccessPoint mode <;> cases hasAccessPoint s.mode <;> simp [hstarted]

theorem espWifiRestore_follows (h : Follows s history) :
    Follows (espWifiRestore s).state (postedAll (espWifiRestore s).posts history) ↔
      Proper s .restore := by
  have hproper : Proper s .restore ↔ (s.driver = .started → s.mode = .sta) := Iff.rfl
  rw [espWifiRestore, hproper]
  by_cases hdriver : s.driver = .uninitialized
  · rw [if_pos hdriver]
    apply iff_of_true h.refused
    intro hstarted
    rw [hdriver] at hstarted
    cases hstarted
  rw [if_neg hdriver]
  change Follows (s.resetDriverLocked s.driver) (postedAll [] history) ↔ _
  rw [resetDriverLocked_follows h]
  by_cases hstarted : s.driver = .started
  · cases hmode : s.mode <;> simp [hstarted, hasStation, hasAccessPoint]
  · simp [hstarted]

/-- A section that leaves the driver and the flags as they are and posts no interface event. -/
theorem Follows.unchanged (h : Follows s history) {s' : State} {posts : List Event}
    (hdriver : s'.driver = s.driver) (hmode : s'.mode = s.mode)
    (hstation : s'.stationUp = s.stationUp) (hap : s'.apUp = s.apUp)
    (hposts : ∀ event ∈ posts, event.isConnection = true) :
    Follows s' (postedAll posts history) := by
  rw [h.postedAll_iff, hdriver, hmode, hstation, hap, flagAfter_connection rfl rfl hposts,
    flagAfter_connection rfl rfl hposts]
  exact ⟨h.station, h.ap, rfl, rfl⟩

theorem espWifiDisconnect_follows (h : Follows s history) :
    Follows (espWifiDisconnect s).state (postedAll (espWifiDisconnect s).posts history) := by
  rw [espWifiDisconnect]
  split_ifs
  · exact h.refused
  · exact h.refused
  · exact h.refused
  · have hfields := dropConnection_fields s
    have hflags := dropConnection_flags s
    exact h.unchanged hfields.1 hfields.2.2.1 hflags.1 hflags.2 (lossPosts_connection s)

theorem espWifiConnect_follows (h : Follows s history) (environment : Environment)
    (attempt : ConnectionAttempt) :
    Follows (espWifiConnect s environment attempt).state
      (postedAll (espWifiConnect s environment attempt).posts history) := by
  rw [espWifiConnect]
  split_ifs
  all_goals try exact h.refused
  all_goals
    set next : State := { s with
      connectGeneration := s.connectGeneration + 1
      connectedAp := none
      station := .connecting }
    have hfields := clearStationIpLocked_fields next
    have hflags := clearStationIpLocked_flags next
    cases s.stationNetif.any Netif.dhcpStarted
    · exact h.unchanged rfl rfl rfl rfl (List.forall_mem_nil _)
    · exact h.unchanged hfields.1 hfields.2.2.1 hflags.1 hflags.2 (List.forall_mem_nil _)

/-- A call in the list of the interface's functions keeps the interfaces behind the driver
exactly when it is a proper one. -/
theorem callSection_follows (h : Follows s history) {call : Call} (hcall : call.isReset = false) :
    Follows (callSection s call).state (postedAll (callSection s call).posts history) ↔
      Proper s call := by
  cases call with
  | reset => cases hcall
  | init =>
    apply iff_of_true _ trivial
    rw [callSection, espWifiInit]
    split_ifs with hdriver
    · exact h.refused
    · have huninitialized : s.driver = .uninitialized := not_not.mp hdriver
      change Follows (s.resetDriverLocked .stopped) (postedAll [] history)
      rw [resetDriverLocked_follows h]
      rw [huninitialized]
      exact ⟨rfl, rfl⟩
  | deinit =>
    apply iff_of_true _ trivial
    rw [callSection, espWifiDeinit]
    split
    · exact h.refused
    · exact h.refused
    · next hstopped =>
      change Follows (s.resetDriverLocked .uninitialized) (postedAll [] history)
      rw [resetDriverLocked_follows h]
      rw [hstopped]
      exact ⟨rfl, rfl⟩
  | start => exact iff_of_true (espWifiStart_follows h) trivial
  | stop => exact iff_of_true (espWifiStop_follows h) trivial
  | restore => exact espWifiRestore_follows h
  | disconnect => exact iff_of_true (espWifiDisconnect_follows h) trivial
  | setMode mode => exact espWifiSetMode_follows h mode
  | setConfig config =>
    apply iff_of_true _ trivial
    rw [callSection, espWifiSetConfig]
    split_ifs
    · exact h.refused
    · exact h.refused
    · exact h.refused
    · exact h.unchanged rfl rfl rfl rfl (List.forall_mem_nil _)
  | scan inProgress => exact iff_of_true (h.unchanged rfl rfl rfl rfl (List.forall_mem_nil _)) trivial
  | connect environment attempt =>
    exact iff_of_true (espWifiConnect_follows h environment attempt) trivial

theorem lostIpPosts_connection (s : State) (pending : PendingConnection) :
    ∀ event ∈ lostIpPosts s pending, event.isConnection = true := by
  intro event hevent
  rw [lostIpPosts] at hevent
  split_ifs at hevent
  · cases hevent
  · simp only [List.mem_singleton] at hevent
    rw [hevent]
    rfl

theorem completeConnection_posts (pending : PendingConnection) (retry : ConnectionAttempt)
    (created : Bool) (phase : Phase) :
    ∀ event ∈ (completeConnection s pending retry created phase).posts,
      event.isConnection = true := by
  intro event hevent
  cases phase
  all_goals simp only [completeConnection, whenCurrent, State.refuse] at hevent
  all_goals try exact lostIpPosts_connection s pending event hevent
  all_goals
    split_ifs at hevent
    all_goals simp only [List.mem_singleton, List.not_mem_nil] at hevent
    all_goals
      rw [hevent]
      rfl

/-- A lease puts the station's interface up, which it is by then. -/
theorem completeConnection_flags (h : Follows s history) (pending : PendingConnection)
    (retry : ConnectionAttempt) (created : Bool) (phase : Phase) :
    (completeConnection s pending retry created phase).state.driver = s.driver ∧
    (completeConnection s pending retry created phase).state.mode = s.mode ∧
    (completeConnection s pending retry created phase).state.stationUp = s.stationUp ∧
    (completeConnection s pending retry created phase).state.apUp = s.apUp := by
  cases phase
  case lease attempt =>
    simp only [completeConnection]
    by_cases hcurrent : s.isConnectionCurrentLocked pending.generation = true
    swap
    · rw [if_neg hcurrent]
      exact ⟨rfl, rfl, rfl, rfl⟩
    rw [if_pos hcurrent]
    obtain ⟨-, hdriver, hmode, -⟩ := isConnectionCurrentLocked_iff.mp hcurrent
    have hup : s.stationUp = some true := h.station.trans (by simp [hdriver, hmode])
    set next : State := { s with stationNetif := s.stationNetif.map leased }
    have hleased : next.stationUp = s.stationUp.map fun _ => true := by
      rw [State.stationUp, State.stationUp, Option.map_map, Option.map_map]
      rfl
    rw [hup] at hleased
    rw [hup]
    cases next.hasStationIp <;> exact ⟨rfl, rfl, hleased, rfl⟩
  case drop attempt =>
    simp only [completeConnection]
    by_cases hcurrent : s.isConnectionCurrentLocked pending.generation = true
    · rw [if_pos hcurrent]
      have hfields := clearStationIpLocked_fields { s with connectedAp := none }
      have hflags := clearStationIpLocked_flags { s with connectedAp := none }
      exact ⟨hfields.1, hfields.2.2.1, hflags.1, hflags.2⟩
    · rw [if_neg hcurrent]
      exact ⟨rfl, rfl, rfl, rfl⟩
  all_goals simp only [completeConnection, whenCurrent, State.refuse]
  all_goals try split_ifs
  all_goals simp [State.stationUp, State.apUp]

end Sections

section Runs

variable {c c' : System}

/-- A thread that makes all its posts. -/
theorem run_posts {t number : ℕ} {posts : List Event} {rest : Rest}
    (hthread : c.thread t = ⟨number, posts, rest⟩) :
    run (fire step) c (List.replicate posts.length (t, .post)) =
      some ⟨{ c.shared with history := postedAll posts c.shared.history },
        Function.update c.thread t ⟨number, [], rest⟩⟩ := by
  induction posts generalizing c with
  | nil =>
    rw [← hthread, Function.update_eq_self]
    rfl
  | cons event posts ih =>
    have hfire : fire step c (t, .post) =
        some ⟨{ c.shared with history := .posted event :: c.shared.history },
          Function.update c.thread t ⟨number, posts, rest⟩⟩ := by
      simp [fire, hthread, step]
    rw [List.length_cons, List.replicate_succ, run_cons, hfire, Option.bind_some,
      ih (by simp), postedAll_cons]
    simp

theorem step_call {call : Call} {s : Shared} {l : Local} {r : Shared × Local}
    (h : step (.call call) s l = some r) : r = s.commit (callSection s.state call) := by
  obtain ⟨number, posts, rest⟩ := l
  rcases posts with _ | ⟨event, posts⟩ <;> cases rest <;> simp [step] at h
  exact h.symm

/-- What an item does: it creates an interface, makes a whole call, or takes one step behind
a call. -/
theorem sequence_cases {i : Item} (h : sequence c i = some c') :
    (i = .createStation ∧ c' = c.setState (createDefaultWifiSta c.shared.state)) ∨
    (i = .createAp ∧ c' = c.setState (createDefaultWifiAp c.shared.state)) ∨
    (∃ t call, i = .call t call ∧
      c' = ⟨{ c.shared with
          state := (callSection c.shared.state call).state
          sections := c.shared.sections + 1
          history := postedAll (callSection c.shared.state call).posts c.shared.history },
        Function.update c.thread t
          ⟨c.shared.sections, [], (callSection c.shared.state call).rest⟩⟩) ∨
    (∃ a, ((∃ t, i = .post t) ∨ ∃ t retry created, i = .advance t retry created) ∧
      (∀ call, a.2 ≠ .call call) ∧ fire step c a = some c') := by
  cases i with
  | createStation => exact .inl ⟨rfl, (Option.some.inj h).symm⟩
  | createAp => exact .inr (.inl ⟨rfl, (Option.some.inj h).symm⟩)
  | call t call =>
    obtain ⟨d, hcall, hposts⟩ := Option.bind_eq_some_iff.mp h
    obtain ⟨s, l, hstep, rfl⟩ := fire_eq_some.mp hcall
    obtain ⟨rfl, rfl⟩ := Prod.mk.inj (step_call hstep)
    refine .inr (.inr (.inl ⟨t, call, rfl, ?_⟩))
    set d : System := ⟨(c.shared.commit (callSection c.shared.state call)).1,
      Function.update c.thread t (c.shared.commit (callSection c.shared.state call)).2⟩ with hd
    have hthread : d.thread t = ⟨c.shared.sections, (callSection c.shared.state call).posts,
        (callSection c.shared.state call).rest⟩ := Function.update_self ..
    change run (fire step) d (List.replicate (d.thread t).posts.length (t, .post)) = some c'
      at hposts
    have hlength : (d.thread t).posts.length = (callSection c.shared.state call).posts.length := by
      rw [hthread]
    rw [hlength, run_posts hthread] at hposts
    cases hposts
    simp [hd, Shared.commit]
  | post t => exact .inr (.inr (.inr ⟨(t, .post), .inl ⟨t, rfl⟩, by simp, h⟩))
  | advance t retry created =>
    exact .inr (.inr (.inr ⟨(t, .advance retry created), .inr ⟨t, retry, created, rfl⟩,
      by simp, h⟩))

/-- The posts that threads still have to make between calls are those of completions. -/
def Settled (c : System) : Prop :=
  ∀ t, ∀ event ∈ (c.thread t).posts, event.isConnection = true

theorem Settled.update (h : Settled c) {t : ℕ} {s : Shared} {l : Local}
    (hl : ∀ event ∈ l.posts, event.isConnection = true) :
    Settled ⟨s, Function.update c.thread t l⟩ := by
  intro u
  by_cases hu : u = t
  · subst hu
    simpa using hl
  · simpa [hu] using h u

/-- What a step behind a call does to the variables and the history. -/
theorem advance_cases {a : ℕ × Action} (hsettled : Settled c) (ha : ∀ call, a.2 ≠ .call call)
    (h : fire step c a = some c') :
    Settled c' ∧
    ((∃ pending retry created phase, c'.shared.history = c.shared.history ∧
        c'.shared.state =
          (completeConnection c.shared.state pending retry created phase).state) ∨
      (∃ event, event.isConnection = true ∧ c'.shared.state = c.shared.state ∧
        c'.shared.history = .posted event :: c.shared.history) ∨
      (∃ generation, c'.shared.state = c.shared.state ∧
        c'.shared.history = .returned generation :: c.shared.history)) := by
  obtain ⟨s, l, hstep, rfl⟩ := fire_eq_some.mp h
  rcases step_cases hstep with ⟨call, -, -, hcall, -⟩ |
    ⟨retry, created, pending, phase, -, -, -, heq⟩ | ⟨event, posts, -, hposts, rfl, rfl⟩ |
    ⟨generation, -, -, rfl, rfl⟩
  · exact absurd hcall (ha call)
  · obtain ⟨rfl, rfl⟩ := Prod.mk.inj heq
    exact ⟨hsettled.update (completeConnection_posts pending retry created phase),
      .inl ⟨pending, retry, created, phase, rfl, rfl⟩⟩
  · have hevents := hsettled a.1
    rw [hposts] at hevents
    exact ⟨hsettled.update fun event' hevent' => hevents event' (List.mem_cons_of_mem _ hevent'),
      .inr (.inl ⟨event, hevents event List.mem_cons_self, rfl, rfl⟩)⟩
  · exact ⟨hsettled.update (List.forall_mem_nil _), .inr (.inr ⟨generation, rfl, rfl⟩)⟩

theorem sequence_settled : Preserves sequence Settled := by
  intro c i c' h hsettled
  rcases sequence_cases h with ⟨-, rfl⟩ | ⟨-, rfl⟩ | ⟨t, call, -, rfl⟩ | ⟨a, -, ha, hfire⟩
  · exact hsettled
  · exact hsettled
  · exact hsettled.update (List.forall_mem_nil _)
  · exact (advance_cases hsettled ha hfire).1

def Item.isReset : Item → Bool
  | .call _ c => c.isReset
  | _ => false

/-- An item keeps the interfaces behind the driver exactly when it is a proper one. -/
theorem sequence_follows {i : Item} (hi : i.isReset = false) (hsettled : Settled c)
    (h : Follows c.shared.state c.shared.history) (hseq : sequence c i = some c') :
    Follows c'.shared.state c'.shared.history ↔ ProperItem c i := by
  rcases sequence_cases hseq with ⟨rfl, rfl⟩ | ⟨rfl, rfl⟩ | ⟨t, call, rfl, rfl⟩ |
    ⟨a, hkind, ha, hfire⟩
  · exact iff_of_true ⟨rfl, h.ap, h.stationEvents, h.apEvents⟩ trivial
  · exact iff_of_true ⟨h.station, rfl, h.stationEvents, h.apEvents⟩ trivial
  · exact callSection_follows h hi
  · have hproper : ProperItem c i := by
      rcases hkind with ⟨t, rfl⟩ | ⟨t, retry, created, rfl⟩ <;> trivial
    apply iff_of_true _ hproper
    rcases (advance_cases hsettled ha hfire).2 with
      ⟨pending, retry, created, phase, hhistory, hstate⟩ | ⟨event, hevent, hstate, hhistory⟩ |
      ⟨generation, hstate, hhistory⟩
    · obtain ⟨hdriver, hmode, hstation, hap⟩ :=
        completeConnection_flags h pending retry created phase
      rw [hstate, hhistory]
      exact h.unchanged hdriver hmode hstation hap (List.forall_mem_nil _)
    · rw [hstate, hhistory]
      have hposts : ∀ posted ∈ [event], posted.isConnection = true := by simpa using hevent
      have hfollows := h.unchanged rfl rfl rfl rfl hposts
      exact hfollows
    · rw [hstate, hhistory]
      exact ⟨h.station, h.ap, h.stationEvents, h.apEvents⟩

end Runs

section Waiting

variable {s : State} {history : List Entry} {c c' : System}

/-- Nothing has been started, and no interface is up. -/
structure Waiting (s : State) : Prop where
  driver : s.driver ≠ .started
  station : s.stationUp ≠ some true
  ap : s.apUp ≠ some true

/-- Nothing was announced either. -/
def Silent (history : List Entry) : Prop :=
  startedBy .staStart .staStop history = false ∧ startedBy .apStart .apStop history = false

theorem Waiting.follows (h : Waiting s) (hsilent : Silent history)
    (hstation : s.stationUp.isSome = true) (hap : s.apUp.isSome = true) : Follows s history := by
  have hdriver : decide (s.driver = .started) = false := decide_eq_false h.driver
  have hdown : ∀ {up : Option Bool}, up ≠ some true → up.isSome = true → up = some false := by
    rintro (_ | _ | _) <;> simp
  constructor
  · rw [hdown h.station hstation, hdriver]
    rfl
  · rw [hdown h.ap hap, hdriver]
    rfl
  · rw [hsilent.1, hdriver]
    rfl
  · rw [hsilent.2, hdriver]
    rfl

theorem Silent.posted (h : Silent history) {posts : List Event}
    (hposts : ∀ event ∈ posts, event.isConnection = true) : Silent (postedAll posts history) := by
  constructor
  · rw [startedBy_postedAll, h.1]
    exact flagAfter_connection rfl rfl hposts
  · rw [startedBy_postedAll, h.2]
    exact flagAfter_connection rfl rfl hposts

theorem Waiting.unchanged (h : Waiting s) {s' : State} (hdriver : s'.driver = s.driver)
    (hstation : s'.stationUp = s.stationUp) (hap : s'.apUp = s.apUp) : Waiting s' :=
  ⟨hdriver ▸ h.driver, hstation ▸ h.station, hap ▸ h.ap⟩

theorem map_false_ne (up : Option Bool) : up.map (fun _ => false) ≠ some true := by
  cases up <;> simp

theorem resetDriverLocked_waiting (s : State) {driver : DriverState} (hdriver : driver ≠ .started) :
    Waiting (s.resetDriverLocked driver) := by
  refine ⟨hdriver, ?_, ?_⟩
  · rw [State.resetDriverLocked, (setApUp_flags _ false).2, (setStationNetif_flags _ _ _).1,
      decide_eq_false hdriver]
    exact map_false_ne _
  · rw [State.resetDriverLocked, (setApUp_flags _ false).1]
    exact map_false_ne _

theorem modePosts_waiting (had has : Bool) (start stop : Event) :
    modePosts false had has start stop = [] := rfl

theorem espWifiSetMode_waiting (h : Waiting s) (mode : Option Mode) :
    Waiting (espWifiSetMode s mode).state ∧
      ∀ event ∈ (espWifiSetMode s mode).posts, event.isConnection = true := by
  rcases mode with _ | mode
  · exact ⟨h, List.forall_mem_nil _⟩
  by_cases hdriver : s.driver = .uninitialized
  · simp only [espWifiSetMode, if_pos hdriver]
    exact ⟨h, List.forall_mem_nil _⟩
  have hstarted : decide (s.driver = .started) = false := decide_eq_false h.driver
  constructor
  · simp only [espWifiSetMode, if_neg hdriver, hstarted]
    cases hasStation mode with
    | false =>
      have hflags := dropConnection_flags { s with mode := mode, scanInProgress := false }
      have hup := setStationUp_flags
        (State.dropConnection { s with mode := mode, scanInProgress := false }) false
      have hfields := dropConnection_fields { s with mode := mode, scanInProgress := false }
      refine ⟨?_, ?_, ?_⟩
      · exact fun hnext => h.driver (hfields.1.symm.trans hnext)
      · exact fun hnext => map_false_ne _ (hup.1.symm.trans hnext)
      · exact fun hnext => h.ap ((hup.2.trans hflags.2).symm.trans hnext)
    | true =>
      cases hasStation s.mode with
      | false =>
        have hup := setStationUp_flags { s with mode := mode } false
        refine ⟨h.driver, ?_, h.ap⟩
        exact fun hnext => map_false_ne _ (hup.1.symm.trans hnext)
      | true => exact h.unchanged rfl rfl rfl
  · obtain ⟨losses, hlosses, hposts⟩ := espWifiSetMode_posts mode hdriver
    rw [hposts, hstarted, modePosts_waiting, modePosts_waiting, List.append_nil, List.append_nil]
    exact hlosses

def Item.isEarly : Item → Bool
  | .call _ .start | .call _ .reset => false
  | _ => true

theorem callSection_waiting (h : Waiting s) {call : Call} {t : ℕ}
    (hcall : (Item.call t call).isEarly = true) :
    Waiting (callSection s call).state ∧
      ∀ event ∈ (callSection s call).posts, event.isConnection = true := by
  have hrefused : ∀ code, Waiting (s.refuse code).state ∧
      ∀ event ∈ (s.refuse code).posts, event.isConnection = true :=
    fun _ => ⟨h, List.forall_mem_nil _⟩
  cases call with
  | reset => cases hcall
  | start => cases hcall
  | init =>
    rw [callSection, espWifiInit]
    split_ifs
    · exact hrefused _
    · exact ⟨resetDriverLocked_waiting s (by decide), List.forall_mem_nil _⟩
  | deinit =>
    rw [callSection, espWifiDeinit]
    split
    · exact hrefused _
    · exact hrefused _
    · exact ⟨resetDriverLocked_waiting s (by decide), List.forall_mem_nil _⟩
  | stop =>
    rw [callSection, espWifiStop]
    cases hdriver : s.driver with
    | uninitialized => exact hrefused _
    | stopped => exact hrefused _
    | started => exact absurd hdriver h.driver
  | restore =>
    rw [callSection, espWifiRestore]
    split_ifs
    · exact hrefused _
    · exact ⟨resetDriverLocked_waiting s h.driver, List.forall_mem_nil _⟩
  | disconnect =>
    rw [callSection, espWifiDisconnect, if_pos h.driver]
    split_ifs
    · exact hrefused _
    · exact hrefused _
  | setMode mode => exact espWifiSetMode_waiting h mode
  | setConfig config =>
    rw [callSection, espWifiSetConfig]
    split_ifs
    · exact hrefused _
    · exact hrefused _
    · exact hrefused _
    · exact ⟨h.unchanged rfl rfl rfl, List.forall_mem_nil _⟩
  | scan inProgress => exact ⟨h.unchanged rfl rfl rfl, List.forall_mem_nil _⟩
  | connect environment attempt =>
    rw [callSection, espWifiConnect, if_pos h.driver]
    split_ifs
    · exact hrefused _
    · exact hrefused _

/-- No section of a completion is entered before the first start: what a stale one may do is
post nothing and touch no interface. -/
theorem completeConnection_waiting (h : Waiting s) (pending : PendingConnection)
    (retry : ConnectionAttempt) (created : Bool) (phase : Phase) :
    Waiting (completeConnection s pending retry created phase).state := by
  have hcurrent : ¬s.isConnectionCurrentLocked pending.generation = true := by
    intro hcurrent
    exact h.driver (isConnectionCurrentLocked_iff.mp hcurrent).2.1
  cases phase
  case spawn =>
    simp only [completeConnection]
    split_ifs
    all_goals exact h.unchanged rfl rfl rfl
  all_goals
    simp only [completeConnection, whenCurrent, if_neg hcurrent]
    exact h.unchanged rfl rfl rfl

theorem sequence_waiting {i : Item} (hi : i.isEarly = true) (hsettled : Settled c)
    (h : Waiting c.shared.state ∧ Silent c.shared.history) (hseq : sequence c i = some c') :
    Waiting c'.shared.state ∧ Silent c'.shared.history := by
  obtain ⟨hwaiting, hsilent⟩ := h
  have hstarted : decide (c.shared.state.driver = .started) = false :=
    decide_eq_false hwaiting.driver
  rcases sequence_cases hseq with ⟨-, rfl⟩ | ⟨-, rfl⟩ | ⟨t, call, rfl, rfl⟩ | ⟨a, -, ha, hfire⟩
  · refine ⟨⟨hwaiting.driver, ?_, hwaiting.ap⟩, hsilent⟩
    simp [System.setState, createDefaultWifiSta, State.stationUp, hstarted]
  · refine ⟨⟨hwaiting.driver, hwaiting.station, ?_⟩, hsilent⟩
    simp [System.setState, createDefaultWifiAp, State.apUp, hstarted]
  · obtain ⟨hnext, hposts⟩ := callSection_waiting hwaiting hi
    exact ⟨hnext, hsilent.posted hposts⟩
  · rcases (advance_cases hsettled ha hfire).2 with
      ⟨pending, retry, created, phase, hhistory, hstate⟩ | ⟨event, hevent, hstate, hhistory⟩ |
      ⟨generation, hstate, hhistory⟩
    · rw [hstate, hhistory]
      exact ⟨completeConnection_waiting hwaiting pending retry created phase, hsilent⟩
    · rw [hstate, hhistory]
      have hposts : ∀ posted ∈ [event], posted.isConnection = true := by simpa using hevent
      have hnext := hsilent.posted hposts
      exact ⟨hwaiting, hnext⟩
    · rw [hstate, hhistory]
      exact ⟨hwaiting, hsilent⟩

end Waiting

/-- Before the first call, with no interface. -/
def boot : System := start none none

theorem boot_early {before : List Item} (hbefore : ∀ i ∈ before, i.isEarly = true) {c : System}
    (hrun : run sequence boot before = some c) :
    Settled c ∧ Waiting c.shared.state ∧ Silent c.shared.history := by
  have hmeets : Meets sequence (fun _ i => i.isEarly = true) boot before := .of_forall hbefore
  have hstep : PreservesWhen sequence (fun _ i => i.isEarly = true)
      (fun c => Settled c ∧ Waiting c.shared.state ∧ Silent c.shared.history) := by
    rintro c i c' hi hseq ⟨hsettled, hwaiting⟩
    exact ⟨sequence_settled hseq hsettled, sequence_waiting hi hsettled hwaiting hseq⟩
  apply hstep.run hmeets hrun
  refine ⟨?_, ⟨?_, ?_, ?_⟩, rfl, rfl⟩
  · intro t event hevent
    cases hevent
  all_goals simp [boot, start, State.stationUp, State.apUp]

/-- Once both default interfaces exist, and they do before the first start, their flags and the
start and stop events agree with the driver after every call exactly when no mode change of a
started driver adds or drops the access point and no started driver is restored in a mode
other than that of a station alone. -/
theorem interfaces_follow {before items : List Item} {c d : System}
    (hbefore : ∀ i ∈ before, i.isEarly = true) (hcreation : run sequence boot before = some c)
    (hstation : c.shared.state.stationNetif.isSome = true)
    (hap : c.shared.state.apNetif.isSome = true)
    (hcalls : ∀ i ∈ items, i.isReset = false) (hrun : run sequence c items = some d) :
    (∀ n c', run sequence c (items.take n) = some c' →
      Follows c'.shared.state c'.shared.history) ↔ Meets sequence ProperItem c items := by
  obtain ⟨hsettled, hwaiting, hsilent⟩ := boot_early hbefore hcreation
  have hfollows : Follows c.shared.state c.shared.history := by
    apply hwaiting.follows hsilent
    · rwa [State.stationUp, Option.isSome_map]
    · rwa [State.apUp, Option.isSome_map]
  exact always_iff_meets (I := fun c => Follows c.shared.state c.shared.history)
    sequence_settled (fun _ _ _ hi hsettled h => sequence_follows (hcalls _ hi) hsettled h) hrun hsettled
    hfollows

def creation : List Item := [.call 0 .init, .createStation, .createAp]

theorem creation_run : ∃ c, run sequence boot creation = some c ∧
    c.shared.state.stationNetif.isSome = true ∧ c.shared.state.apNetif.isSome = true := by
  have hend : (run sequence boot creation).map
      (fun c => c.shared.state.stationNetif.isSome && c.shared.state.apNetif.isSome) =
      some true := by decide +kernel
  obtain ⟨c, hrun, hboth⟩ := Option.map_eq_some_iff.mp hend
  exact ⟨c, hrun, Bool.and_eq_true_iff.mp hboth⟩

theorem interfaces_follow_started :
    ∃ c d, run sequence boot creation = some c ∧
      run sequence c [.call 0 .start, .call 0 .stop] = some d ∧
      Follows d.shared.state d.shared.history := by
  obtain ⟨c, hcreation, hstation, hap⟩ := creation_run
  have hend : ((run sequence boot creation).bind fun c =>
      run sequence c [.call 0 .start, .call 0 .stop]).isSome = true := by decide +kernel
  rw [hcreation, Option.bind_some] at hend
  obtain ⟨d, hrun⟩ := Option.isSome_iff_exists.mp hend
  have hiff := interfaces_follow (by decide) hcreation hstation hap (by decide) hrun
  exact ⟨c, d, hcreation, hrun, hiff.mpr ⟨trivial, fun _ _ => ⟨trivial, fun _ _ => trivial⟩⟩ 2 d hrun⟩

/-- The started driver gets an access point, and its interface stays down. -/
theorem interfaces_follow_apsta :
    ∃ c, run sequence boot (creation ++ [.call 0 .start, .call 0 (.setMode (some .apsta))]) =
        some c ∧
      c.shared.state.driver = .started ∧ hasAccessPoint c.shared.state.mode = true ∧
      startedBy .apStart .apStop c.shared.history = true ∧ c.shared.state.apUp = some false := by
  have hend : (run sequence boot
      (creation ++ [.call 0 .start, .call 0 (.setMode (some .apsta))])).map
      (fun c => (c.shared.state.driver, hasAccessPoint c.shared.state.mode,
        startedBy .apStart .apStop c.shared.history, c.shared.state.apUp)) =
      some (.started, true, true, some false) := by decide +kernel
  obtain ⟨c, hrun, hfinal⟩ := Option.map_eq_some_iff.mp hend
  simp only [Prod.mk.injEq] at hfinal
  exact ⟨c, hrun, hfinal⟩

end RooTesting.Wifi
