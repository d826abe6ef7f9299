import RooTesting.WifiDriver
import Mathlib.Algebra.Group.Nat.Defs

/-! # The relations between the variables of the station

Every section keeps the relations. A completion of the current attempt finds the station in
the state that its phase expects: whatever takes the station out of that state, except the
completion itself, also moves the generation on. -/
namespace RooTesting.Wifi
open Transition Threads

/-- An attempt is under way or has succeeded. -/
def underWay : StationState → Bool
  | .connecting | .associated | .gotIp => true
  | _ => false

/-- What holds between the variables whenever the mutex is free. -/
structure Related (s : State) : Prop where
  connected : s.connectedAp.isSome = true ↔ s.station = .associated ∨ s.station = .gotIp
  disabled : s.station = .disabled ↔ s.driver = .uninitialized ∨ hasStation s.mode = false
  active : underWay s.station = true → s.driver = .started ∧ hasStation s.mode = true

/-- The station's state in which a completion of the current attempt enters a section. -/
def Phase.Expects : Phase → StationState → Prop
  | .spawn, station | .delay _ _, station | .fail _, station | .lostIp _ _, station
  | .associate _ _, station => station = .connecting
  | .dhcpDelay _, station | .lease _, station => station = .associated
  | .connectedDelay _, station | .drop _, station => station = .associated ∨ station = .gotIp
  | .failLostIp, _ | .dropLostIp, _ => True

theorem Phase.Expects.of_inactive {phase : Phase} {station : StationState}
    (h : phase.Expects station) (hinactive : underWay station = false)
    (station' : StationState) : phase.Expects station' := by
  cases phase <;> simp only [Phase.Expects] at h ⊢
  all_goals
    first
      | (subst h; cases hinactive)
      | (rcases h with rfl | rfl <;> cases hinactive)

section Fields

variable (s : State)

@[simp] theorem setStationUp_fields (up : Bool) :
    (s.setStationUp up).driver = s.driver ∧ (s.setStationUp up).station = s.station ∧
    (s.setStationUp up).mode = s.mode ∧
    (s.setStationUp up).connectGeneration = s.connectGeneration ∧
    (s.setStationUp up).connectedAp = s.connectedAp := ⟨rfl, rfl, rfl, rfl, rfl⟩

@[simp] theorem setApUp_fields (up : Bool) :
    (s.setApUp up).driver = s.driver ∧ (s.setApUp up).station = s.station ∧
    (s.setApUp up).mode = s.mode ∧ (s.setApUp up).connectGeneration = s.connectGeneration ∧
    (s.setApUp up).connectedAp = s.connectedAp := ⟨rfl, rfl, rfl, rfl, rfl⟩

@[simp] theorem clearStationIpLocked_fields :
    s.clearStationIpLocked.driver = s.driver ∧ s.clearStationIpLocked.station = s.station ∧
    s.clearStationIpLocked.mode = s.mode ∧
    s.clearStationIpLocked.connectGeneration = s.connectGeneration ∧
    s.clearStationIpLocked.connectedAp = s.connectedAp := by
  rw [State.clearStationIpLocked]
  split_ifs <;> exact ⟨rfl, rfl, rfl, rfl, rfl⟩

@[simp] theorem dropConnection_fields :
    s.dropConnection.driver = s.driver ∧ s.dropConnection.station = s.station ∧
    s.dropConnection.mode = s.mode ∧
    s.dropConnection.connectGeneration = s.connectGeneration + 1 ∧
    s.dropConnection.connectedAp = none := by
  obtain ⟨hdriver, hstation, hmode, hgeneration, hap⟩ := clearStationIpLocked_fields
    { s with connectGeneration := s.connectGeneration + 1, connectedAp := none }
  exact ⟨hdriver, hstation, hmode, hgeneration, hap⟩

@[simp] theorem resetDriverLocked_fields (driver : DriverState) :
    (s.resetDriverLocked driver).driver = driver ∧
    (s.resetDriverLocked driver).station =
      (if driver = .uninitialized then .disabled else .idle) ∧
    (s.resetDriverLocked driver).mode = (if driver = .uninitialized then .null else .sta) ∧
    (s.resetDriverLocked driver).connectGeneration = s.connectGeneration + 1 ∧
    (s.resetDriverLocked driver).connectedAp = none := ⟨rfl, rfl, rfl, rfl, rfl⟩

end Fields

section Sections

/-- What a section of a call does to the station and the attempts: nothing, an end to all
attempts, or a change from a state in which none is under way. -/
structure Keeps (s s' : State) : Prop where
  related : Related s'
  others : s'.connectGeneration = s.connectGeneration + 1 ∨
    s'.connectGeneration = s.connectGeneration ∧
      (s'.station = s.station ∨ underWay s.station = false)

variable {s : State}

theorem Keeps.refl (h : Related s) : Keeps s s := ⟨h, .inr ⟨rfl, .inl rfl⟩⟩

theorem Related.reset (s : State) (driver : DriverState) : Related (s.resetDriverLocked driver) := by
  cases driver <;> constructor <;> simp [underWay, hasStation]

/-- A section that ends all attempts and leaves the station without a connection. -/
theorem Keeps.superseded {s' : State} (hgeneration : s'.connectGeneration = s.connectGeneration + 1)
    (hap : s'.connectedAp = none) (hstation : underWay s'.station = false)
    (hdisabled : s'.station = .disabled ↔ s'.driver = .uninitialized ∨ hasStation s'.mode = false) :
    Keeps s s' := by
  refine ⟨⟨?_, hdisabled, ?_⟩, .inl hgeneration⟩
  · rw [hap]
    constructor
    · intro h
      cases h
    · rintro (h | h) <;> rw [h] at hstation <;> cases hstation
  · intro h
    rw [hstation] at h
    cases h

theorem Keeps.reset (s : State) (driver : DriverState) : Keeps s (s.resetDriverLocked driver) :=
  ⟨.reset s driver, .inl (by simp)⟩

/-- No attempt is under way while the driver is not started or the mode has no station. -/
theorem Related.inactive (h : Related s) (hs : s.driver ≠ .started ∨ hasStation s.mode = false) :
    underWay s.station = false := by
  rw [Bool.eq_false_iff]
  intro hactive
  obtain ⟨hdriver, hmode⟩ := h.active hactive
  rcases hs with hs | hs
  · exact hs hdriver
  · rw [hmode] at hs
    cases hs

theorem Related.noAp (h : Related s) (hs : underWay s.station = false) : s.connectedAp = none := by
  rw [← Option.isNone_iff_eq_none, ← Option.not_isSome, Bool.not_eq_true', Bool.eq_false_iff]
  intro hap
  rcases h.connected.mp hap with hst | hst <;> rw [hst] at hs <;> cases hs

theorem espWifiSetMode_keeps (h : Related s) (mode : Option Mode) :
    Keeps s (espWifiSetMode s mode).state := by
  rcases mode with _ | mode
  · exact .refl h
  simp only [espWifiSetMode]
  by_cases hdriver : s.driver = .uninitialized
  · rw [if_pos hdriver]
    exact .refl h
  rw [if_neg hdriver]
  cases hnew : hasStation mode with
  | false =>
    apply Keeps.superseded
    all_goals simp [underWay, hnew]
  | true =>
    cases hold : hasStation s.mode with
    | false =>
      have hinactive := h.inactive (.inr hold)
      refine ⟨⟨?_, ?_, ?_⟩, .inr ⟨by simp, .inr hinactive⟩⟩
      all_goals simp [hnew, hdriver, underWay, h.noAp hinactive]
    | true =>
      have hdisabled := h.disabled
      have hactive := h.active
      simp only [hold, hdriver, or_self, Bool.true_eq_false] at hdisabled
      refine ⟨⟨?_, ?_, ?_⟩, .inr ⟨by simp, .inl (by simp)⟩⟩
      · simpa [hold] using h.connected
      · simpa [hold, hnew, hdriver] using hdisabled
      · simpa [hold, hnew] using fun hs => (hactive hs).1

theorem espWifiStart_keeps (h : Related s) : Keeps s (espWifiStart s).state := by
  simp only [espWifiStart]
  by_cases hdriver : s.driver = .uninitialized
  · rw [if_pos hdriver]
    exact .refl h
  by_cases hmode : s.mode = .null
  · rw [if_neg hdriver, if_pos hmode]
    exact .refl h
  by_cases hstarted : s.driver = .started
  · rw [if_neg hdriver, if_neg hmode, if_pos hstarted]
    exact .refl h
  rw [if_neg hdriver, if_neg hmode, if_neg hstarted]
  have hinactive := h.inactive (.inl hstarted)
  have hap := h.noAp hinactive
  cases hstation : hasStation s.mode <;> cases haccess : hasAccessPoint s.mode
  all_goals
    refine ⟨⟨?_, ?_, ?_⟩, .inr ⟨by simp, .inr hinactive⟩⟩
    all_goals simp [hstation, hap, underWay]

theorem espWifiStop_keeps (h : Related s) : Keeps s (espWifiStop s).state := by
  simp only [espWifiStop]
  by_cases hdriver : s.driver = .uninitialized
  · rw [if_pos hdriver]
    exact .refl h
  by_cases hstopped : s.driver = .stopped
  · rw [if_neg hdriver, if_pos hstopped]
    exact .refl h
  rw [if_neg hdriver, if_neg hstopped]
  cases hstation : hasStation s.mode <;> apply Keeps.superseded <;> simp [hstation, underWay]

theorem espWifiDisconnect_keeps (h : Related s) : Keeps s (espWifiDisconnect s).state := by
  rw [espWifiDisconnect]
  split_ifs with hdriver hstarted hmode
  · exact .refl h
  · exact .refl h
  · exact .refl h
  apply Keeps.superseded
  all_goals simp_all [underWay]

theorem espWifiConnect_keeps (h : Related s) (environment : Environment)
    (attempt : ConnectionAttempt) : Keeps s (espWifiConnect s environment attempt).state := by
  rw [espWifiConnect]
  split_ifs with hdriver hstarted hmode hbusy hssid
  all_goals try exact .refl h
  all_goals
    cases hdhcp : s.stationNetif.any Netif.dhcpStarted
    all_goals
      refine ⟨⟨?_, ?_, ?_⟩, .inl ?_⟩
      all_goals simp_all [underWay]

theorem callSection_keeps (h : Related s) (c : Call) : Keeps s (callSection s c).state := by
  cases c with
  | reset =>
    have hkeeps := Keeps.reset s .uninitialized
    exact ⟨⟨hkeeps.related.connected, hkeeps.related.disabled, hkeeps.related.active⟩, hkeeps.others⟩
  | init =>
    simp only [callSection, espWifiInit]
    split_ifs
    · exact .refl h
    · exact .reset s _
  | deinit =>
    simp only [callSection, espWifiDeinit]
    split
    · exact .refl h
    · exact .refl h
    · exact .reset s _
  | start => exact espWifiStart_keeps h
  | stop => exact espWifiStop_keeps h
  | restore =>
    simp only [callSection, espWifiRestore]
    split_ifs
    · exact .refl h
    · exact .reset s _
  | disconnect => exact espWifiDisconnect_keeps h
  | setMode mode => exact espWifiSetMode_keeps h mode
  | setConfig config =>
    simp only [callSection, espWifiSetConfig]
    split_ifs
    all_goals exact ⟨⟨h.connected, h.disabled, h.active⟩, .inr ⟨rfl, .inl rfl⟩⟩
  | scan inProgress => exact ⟨⟨h.connected, h.disabled, h.active⟩, .inr ⟨rfl, .inl rfl⟩⟩
  | connect environment attempt => exact espWifiConnect_keeps h environment attempt

/-- Only a connect leaves an attempt behind: one of a new generation. -/
theorem callSection_completing {c : Call} {pending : PendingConnection} {phase : Phase}
    (hrest : (callSection s c).rest = .completing pending phase) :
    pending.generation = s.connectGeneration + 1 ∧
      (callSection s c).state.connectGeneration = s.connectGeneration + 1 ∧
      phase.Expects (callSection s c).state.station := by
  cases c with
  | connect environment attempt =>
    simp only [callSection, espWifiConnect] at hrest ⊢
    by_cases hdriver : s.driver = .uninitialized
    · simp [hdriver, State.refuse] at hrest
    by_cases hstarted : s.driver = .started
    swap
    · simp [hdriver, hstarted, State.refuse] at hrest
    by_cases hmode : hasStation s.mode = true
    swap
    · simp [hstarted, hmode, State.refuse] at hrest
    by_cases hbusy : (s.scanInProgress || s.station = .connecting) = true
    · simp [hstarted, hmode, hbusy, State.refuse] at hrest
    by_cases hssid : s.stationConfig.ssid = ""
    · simp [hstarted, hmode, hbusy, hssid, State.refuse] at hrest
    simp only [hstarted, hmode, hbusy, hssid, reduceCtorEq, if_false, ne_eq, not_true, Bool.not_true,
      Bool.false_eq_true, Rest.completing.injEq] at hrest ⊢
    obtain ⟨rfl, rfl⟩ := hrest
    cases hdhcp : s.stationNetif.any Netif.dhcpStarted <;>
      cases hasync : isAsynchronous s.stationConfig attempt <;>
      simp [Phase.Expects]
  | setMode mode =>
    simp only [callSection] at hrest
    rcases mode with _ | mode
    · cases hrest
    · simp only [espWifiSetMode] at hrest
      split_ifs at hrest
      cases hrest
  | deinit =>
    simp only [callSection, espWifiDeinit] at hrest
    split at hrest <;> cases hrest
  | _ =>
    simp only [callSection, reset, espWifiInit, espWifiStart, espWifiStop, espWifiRestore,
      espWifiSetConfig, espWifiDisconnect, State.refuse] at hrest
    try split_ifs at hrest
    all_goals cases hrest

/-- What a section of a completion does: it acts on the station only while it is the current
one, and finds the state that it expects at its next section. -/
structure Completes (s : State) (pending : PendingConnection) (done : Section) : Prop where
  related : Related done.state
  generation : done.state.connectGeneration = s.connectGeneration
  stale : pending.generation ≠ s.connectGeneration → done.state = s
  next : ∀ pending' phase, done.rest = .completing pending' phase →
    pending' = pending ∧
      (pending.generation = s.connectGeneration → phase.Expects done.state.station)

variable {pending : PendingConnection}

theorem Completes.unchanged (h : Related s) (code : EspErr) (posts : List Event) {rest : Rest}
    (hnext : ∀ pending' phase, rest = .completing pending' phase → pending' = pending ∧
      (pending.generation = s.connectGeneration → phase.Expects s.station)) :
    Completes s pending ⟨code, s, posts, rest⟩ :=
  ⟨h, rfl, fun _ => rfl, hnext⟩

theorem Completes.finished (h : Related s) (code : EspErr) (posts : List Event) :
    Completes s pending ⟨code, s, posts, .done⟩ := by
  apply Completes.unchanged h
  intro _ _ hrest
  cases hrest

theorem isConnectionCurrentLocked_iff {generation : ℕ} :
    s.isConnectionCurrentLocked generation = true ↔ generation = s.connectGeneration ∧
      s.driver = .started ∧ hasStation s.mode = true ∧ s.station ≠ .idle ∧
      s.station ≠ .disabled := by
  simp [State.isConnectionCurrentLocked, and_assoc]

theorem whenCurrent_completes (h : Related s) {next : Phase}
    (hnext : pending.generation = s.connectGeneration → next.Expects s.station) :
    Completes s pending (whenCurrent s pending next) := by
  rw [whenCurrent]
  split_ifs with hcurrent
  · apply Completes.unchanged h
    intro _ _ hrest
    cases hrest
    exact ⟨rfl, hnext⟩
  · exact .finished h .ok []

/-- A section of the current attempt that moves the station on. -/
theorem Completes.moved {done : Section} (hrelated : Related done.state)
    (hgeneration : done.state.connectGeneration = s.connectGeneration)
    (hcurrent : pending.generation = s.connectGeneration)
    (hnext : ∀ pending' phase, done.rest = .completing pending' phase →
      pending' = pending ∧ phase.Expects done.state.station) :
    Completes s pending done :=
  ⟨hrelated, hgeneration, fun hne => absurd hcurrent hne,
    fun pending' phase hrest => ⟨(hnext pending' phase hrest).1, fun _ => (hnext pending' phase hrest).2⟩⟩

/-- The station is idle, with no access point, after an attempt that failed or ended. -/
theorem Related.idle {s' : State} (h : Related s) (hactive : underWay s.station = true)
    (hdriver : s'.driver = s.driver) (hmode : s'.mode = s.mode) (hap : s'.connectedAp = none)
    (hstation : s'.station = .idle) : Related s' := by
  obtain ⟨hstarted, hhas⟩ := h.active hactive
  refine ⟨?_, ?_, ?_⟩
  · rw [hap, hstation]
    simp
  · rw [hstation, hdriver, hmode, hstarted, hhas]
    simp
  · rw [hstation]
    intro hidle
    cases hidle

/-- The station is associated, and keeps its mode and driver. -/
theorem Related.linked {s' : State} (h : Related s) (hactive : underWay s.station = true)
    (hdriver : s'.driver = s.driver) (hmode : s'.mode = s.mode) (hap : s'.connectedAp.isSome = true)
    (hstation : s'.station = .associated ∨ s'.station = .gotIp) : Related s' := by
  obtain ⟨hstarted, hhas⟩ := h.active hactive
  refine ⟨?_, ?_, ?_⟩
  · rw [hap]
    exact ⟨fun _ => hstation, fun _ => rfl⟩
  · rw [hdriver, hmode, hstarted, hhas]
    rcases hstation with hs | hs <;> simp [hs]
  · intro _
    rw [hdriver, hmode]
    exact ⟨hstarted, hhas⟩

/-- A section of an attempt that is no longer the current one changes nothing. -/
theorem current_completes (h : Related s) {done : Section}
    (hdone : pending.generation = s.connectGeneration → Completes s pending done) :
    Completes s pending
      (if s.isConnectionCurrentLocked pending.generation then done else s.refuse .ok) := by
  split_ifs with hcurrent
  · exact hdone (isConnectionCurrentLocked_iff.mp hcurrent).1
  · exact .finished h _ []

/-- A station that is still connecting has no access point. -/
theorem Related.connecting (h : Related s) (hconnecting : s.station = .connecting) :
    underWay s.station = true ∧ s.connectedAp = none := by
  have hap := h.connected
  rw [hconnecting] at hap ⊢
  exact ⟨rfl, by simpa using hap⟩

section Phases
variable (retry : ConnectionAttempt) (created : Bool)

theorem spawn_completes (h : Related s)
    (hexpects : pending.generation = s.connectGeneration → s.station = .connecting) :
    Completes s pending (completeConnection s pending retry created .spawn) := by
  simp only [completeConnection]
  split_ifs with hcreated hcurrent
  · apply Completes.unchanged h
    intro _ _ hrest
    cases hrest
    exact ⟨rfl, hexpects⟩
  · obtain ⟨hactive, hap⟩ := h.connecting (hexpects hcurrent)
    refine .moved (h.idle hactive rfl rfl hap rfl) rfl hcurrent ?_
    intro _ _ hrest
    cases hrest
  · exact .finished h _ []

theorem fail_completes (h : Related s) (reason : Reason)
    (hexpects : pending.generation = s.connectGeneration → s.station = .connecting) :
    Completes s pending (completeConnection s pending retry created (.fail reason)) := by
  apply current_completes h
  intro hgeneration
  obtain ⟨hactive, hap⟩ := h.connecting (hexpects hgeneration)
  refine .moved (h.idle hactive rfl rfl hap rfl) rfl hgeneration ?_
  intro _ _ hrest
  dsimp only at hrest
  split_ifs at hrest
  cases hrest
  exact ⟨rfl, trivial⟩

theorem associate_completes (h : Related s) (ap : AccessPoint) (attempt : ConnectionAttempt)
    (hexpects : pending.generation = s.connectGeneration → s.station = .connecting) :
    Completes s pending (completeConnection s pending retry created (.associate ap attempt)) := by
  apply current_completes h
  intro hgeneration
  obtain ⟨hactive, -⟩ := h.connecting (hexpects hgeneration)
  refine .moved (h.linked hactive rfl rfl rfl (.inl rfl)) rfl hgeneration ?_
  intro _ _ hrest
  dsimp only at hrest
  split_ifs at hrest
  cases hrest
  exact ⟨rfl, rfl⟩

/-- The lease is recorded, and the address obtained where the netif takes one. -/
theorem lease_completes (h : Related s) (attempt : ConnectionAttempt)
    (hexpects : pending.generation = s.connectGeneration → s.station = .associated) :
    Completes s pending (completeConnection s pending retry created (.lease attempt)) := by
  apply current_completes h
  intro hgeneration
  have hassociated : s.station = .associated := hexpects hgeneration
  have hactive : underWay s.station = true := by rw [hassociated]; rfl
  have hap : s.connectedAp.isSome = true := h.connected.mpr (.inl hassociated)
  set next : State := { s with stationNetif := s.stationNetif.map leased } with hnextState
  have hstation : (if next.hasStationIp then { next with station := .gotIp } else next).station =
      .associated ∨
      (if next.hasStationIp then { next with station := .gotIp } else next).station = .gotIp := by
    split_ifs
    · exact .inr rfl
    · exact .inl hassociated
  refine .moved (h.linked hactive ?_ ?_ ?_ hstation) ?_ hgeneration ?_
  · split_ifs <;> rfl
  · split_ifs <;> rfl
  · split_ifs <;> exact hap
  · split_ifs <;> rfl
  · intro _ _ hrest
    simp only at hrest
    split_ifs at hrest
    cases hrest
    exact ⟨rfl, hstation⟩

/-- The link is lost, with the access point and the address. -/
theorem drop_completes (h : Related s) (attempt : ConnectionAttempt)
    (hexpects : pending.generation = s.connectGeneration →
      s.station = .associated ∨ s.station = .gotIp) :
    Completes s pending (completeConnection s pending retry created (.drop attempt)) := by
  apply current_completes h
  intro hgeneration
  have hactive : underWay s.station = true := by
    rcases hexpects hgeneration with hs | hs <;> rw [hs] <;> rfl
  refine .moved (h.idle hactive ?_ ?_ ?_ rfl) ?_ hgeneration ?_
  all_goals try simp
  intro _ _ hrest
  split_ifs at hrest
  cases hrest
  exact ⟨rfl, trivial⟩

end Phases

theorem completeConnection_completes (h : Related s) (retry : ConnectionAttempt) (created : Bool)
    {phase : Phase} (hexpects : pending.generation = s.connectGeneration → phase.Expects s.station) :
    Completes s pending (completeConnection s pending retry created phase) := by
  cases phase with
  | spawn => exact spawn_completes retry created h hexpects
  | delay index attempt =>
    apply whenCurrent_completes h
    intro hcurrent
    rw [associationRound]
    split
    · split_ifs <;> exact hexpects hcurrent
    · split_ifs <;> exact hexpects hcurrent
  | fail reason => exact fail_completes retry created h reason hexpects
  | failLostIp => exact .finished h _ _
  | lostIp ap attempt =>
    apply Completes.unchanged h
    intro _ _ hrest
    cases hrest
    exact ⟨rfl, hexpects⟩
  | associate ap attempt => exact associate_completes retry created h ap attempt hexpects
  | dhcpDelay attempt => exact whenCurrent_completes h hexpects
  | lease attempt => exact lease_completes retry created h attempt hexpects
  | connectedDelay attempt => exact whenCurrent_completes h hexpects
  | drop attempt => exact drop_completes retry created h attempt hexpects
  | dropLostIp => exact .finished h _ _

end Sections

section Runs

/-- The generations of completions differ, and each finds what it expects. -/
structure Sound (c : System) : Prop where
  related : Related c.shared.state
  known : ∀ t pending phase, (c.thread t).rest = .completing pending phase →
    pending.generation ≤ c.shared.state.connectGeneration ∧
      (pending.generation = c.shared.state.connectGeneration →
        phase.Expects c.shared.state.station)
  distinct : ∀ t u pending phase pending' phase', t ≠ u →
    (c.thread t).rest = .completing pending phase →
    (c.thread u).rest = .completing pending' phase' → pending.generation ≠ pending'.generation

/-- What a step can do: a section of a call, a section of a completion, a post, or a return. -/
theorem step_cases {a : Action} {s s' : Shared} {l l' : Local} (h : step a s l = some (s', l')) :
    (∃ c, l.posts = [] ∧ l.rest = .done ∧ a = .call c ∧
      (s', l') = s.commit (callSection s.state c)) ∨
    (∃ retry created pending phase, l.posts = [] ∧ l.rest = .completing pending phase ∧
      a = .advance retry created ∧
      (s', l') = s.commit (completeConnection s.state pending retry created phase)) ∨
    (∃ event posts, a = .post ∧ l.posts = event :: posts ∧
      s' = { s with history := .posted event :: s.history } ∧ l' = ⟨l.number, posts, l.rest⟩) ∨
    (∃ generation, l.posts = [] ∧ l.rest = .returning generation ∧
      s' = { s with history := .returned generation :: s.history } ∧ l' = .idle) := by
  obtain ⟨number, posts, rest⟩ := l
  cases a with
  | call c =>
    rcases posts with _ | ⟨event, posts⟩ <;> cases rest <;> simp [step] at h
    exact .inl ⟨c, rfl, rfl, rfl, h.symm⟩
  | post =>
    rcases posts with _ | ⟨event, posts⟩
    · simp [step] at h
    · simp only [step, Option.some.injEq, Prod.mk.injEq] at h
      obtain ⟨rfl, rfl⟩ := h
      exact .inr (.inr (.inl ⟨event, posts, rfl, rfl, rfl, rfl⟩))
  | advance retry created =>
    rcases posts with _ | ⟨event, posts⟩
    swap
    · cases rest <;> simp [step] at h
    cases rest with
    | done => simp [step] at h
    | returning generation =>
      simp only [step, Option.some.injEq, Prod.mk.injEq] at h
      obtain ⟨rfl, rfl⟩ := h
      exact .inr (.inr (.inr ⟨generation, rfl, rfl, rfl, rfl⟩))
    | completing pending phase =>
      simp only [step, Option.some.injEq] at h
      exact .inr (.inl ⟨retry, created, pending, phase, rfl, rfl, rfl, h.symm⟩)

variable {c c' : System}

theorem rest_update {f : ℕ → Local} {t u : ℕ} {l : Local} {pending : PendingConnection}
    {phase : Phase} (h : (Function.update f t l u).rest = .completing pending phase) :
    (u = t ∧ l.rest = .completing pending phase) ∨
      (u ≠ t ∧ (f u).rest = .completing pending phase) := by
  by_cases hu : u = t
  · subst hu
    exact .inl ⟨rfl, by simpa using h⟩
  · exact .inr ⟨hu, by simpa [hu] using h⟩

/-- A thread that goes on with the completion that it had, or with none, keeps the system sound
as long as the state serves everybody else. -/
theorem Sound.replace (h : Sound c) {t : ℕ} {s : Shared} {l : Local} (hrelated : Related s.state)
    (hothers : ∀ u pending phase, u ≠ t → (c.thread u).rest = .completing pending phase →
      pending.generation ≤ s.state.connectGeneration ∧
        (pending.generation = s.state.connectGeneration → phase.Expects s.state.station))
    (hself : ∀ pending phase, l.rest = .completing pending phase →
      (pending.generation ≤ s.state.connectGeneration ∧
        (pending.generation = s.state.connectGeneration → phase.Expects s.state.station)) ∧
      ∀ u pending' phase', u ≠ t → (c.thread u).rest = .completing pending' phase' →
        pending.generation ≠ pending'.generation) :
    Sound ⟨s, Function.update c.thread t l⟩ := by
  refine ⟨hrelated, ?_, ?_⟩
  · intro u pending phase hrest
    rcases rest_update hrest with ⟨-, hrest⟩ | ⟨hu, hrest⟩
    · exact (hself pending phase hrest).1
    · exact hothers u pending phase hu hrest
  · intro u v pending phase pending' phase' hne hrest hrest'
    rcases rest_update hrest with ⟨rfl, hl⟩ | ⟨hu, hl⟩
    · rcases rest_update hrest' with ⟨rfl, -⟩ | ⟨hv, hl'⟩
      · exact absurd rfl hne
      · exact (hself pending phase hl).2 v pending' phase' hv hl'
    · rcases rest_update hrest' with ⟨rfl, hl'⟩ | ⟨hv, hl'⟩
      · exact ((hself pending' phase' hl').2 u pending phase hu hl).symm
      · exact h.distinct u v pending phase pending' phase' hne hl hl'

theorem sound_call (h : Sound c) {t : ℕ} (call : Call) :
    Sound ⟨(c.shared.commit (callSection c.shared.state call)).1,
      Function.update c.thread t (c.shared.commit (callSection c.shared.state call)).2⟩ := by
  have hkeeps := callSection_keeps h.related call
  apply h.replace hkeeps.related
  · intro u pending phase _ hrest
    obtain ⟨hle, hexpects⟩ := h.known u pending phase hrest
    rcases hkeeps.others with hlt | ⟨heq, hstation⟩
    · exact ⟨by change _ ≤ (callSection _ _).state.connectGeneration; omega,
        fun hcurrent => by change _ = (callSection _ _).state.connectGeneration at hcurrent; omega⟩
    · refine ⟨hle.trans (le_of_eq heq.symm), fun hcurrent => ?_⟩
      have hphase := hexpects (hcurrent.trans heq)
      rcases hstation with hsame | hinactive
      · exact hsame.symm ▸ hphase
      · exact hphase.of_inactive hinactive _
  · intro pending phase hrest
    obtain ⟨hgeneration, hstate, hphase⟩ := callSection_completing hrest
    refine ⟨⟨le_of_eq (hgeneration.trans hstate.symm), fun _ => hphase⟩, ?_⟩
    intro u pending' phase' _ hrest'
    have hle := (h.known u pending' phase' hrest').1
    omega

theorem sound_complete (h : Sound c) {t : ℕ} {pending : PendingConnection} {phase : Phase}
    (hrest : (c.thread t).rest = .completing pending phase) (retry : ConnectionAttempt)
    (created : Bool) :
    Sound ⟨(c.shared.commit (completeConnection c.shared.state pending retry created phase)).1,
      Function.update c.thread t
        (c.shared.commit (completeConnection c.shared.state pending retry created phase)).2⟩ := by
  obtain ⟨hle, hexpects⟩ := h.known t pending phase hrest
  have hdone := completeConnection_completes h.related retry created hexpects
  apply h.replace hdone.related
  · intro u pending' phase' hu hrest'
    obtain ⟨hle', hexpects'⟩ := h.known u pending' phase' hrest'
    refine ⟨hle'.trans (le_of_eq hdone.generation.symm), fun hcurrent => ?_⟩
    have hcurrent' : pending'.generation = c.shared.state.connectGeneration :=
      hcurrent.trans hdone.generation
    -- the section belongs to another attempt, which is then a stale one
    have hstale : pending.generation ≠ c.shared.state.connectGeneration := by
      intro hgeneration
      exact h.distinct t u pending phase pending' phase' hu.symm hrest hrest'
        (hgeneration.trans hcurrent'.symm)
    change phase'.Expects (completeConnection c.shared.state pending retry created phase).state.station
    rw [hdone.stale hstale]
    exact hexpects' hcurrent'
  · intro pending' phase' hrest'
    obtain ⟨rfl, hnext⟩ := hdone.next pending' phase' hrest'
    refine ⟨⟨hle.trans (le_of_eq hdone.generation.symm),
      fun hcurrent => hnext (hcurrent.trans hdone.generation)⟩, ?_⟩
    intro u pending'' phase'' hu hrest''
    exact h.distinct t u _ _ _ _ hu.symm hrest hrest''

theorem sound_step : Preserves (fire step) Sound := by
  intro c a c' hfire h
  obtain ⟨s, l, hstep, rfl⟩ := fire_eq_some.mp hfire
  rcases step_cases hstep with ⟨call, -, -, -, heq⟩ |
    ⟨retry, created, pending, phase, -, hrest, -, heq⟩ | ⟨event, posts, -, hposts, rfl, rfl⟩ |
    ⟨generation, -, -, rfl, rfl⟩
  · obtain ⟨rfl, rfl⟩ := Prod.mk.inj heq
    exact sound_call h call
  · obtain ⟨rfl, rfl⟩ := Prod.mk.inj heq
    exact sound_complete h hrest retry created
  · refine h.replace ?_ ?_ ?_
    · exact h.related
    · exact fun u pending phase _ hrest => h.known u pending phase hrest
    · intro pending phase hrest
      exact ⟨h.known a.1 pending phase hrest,
        fun u pending' phase' hu hrest' => h.distinct a.1 u _ _ _ _ hu.symm hrest hrest'⟩
  · refine h.replace ?_ ?_ ?_
    · exact h.related
    · exact fun u pending phase _ hrest => h.known u pending phase hrest
    · intro pending phase hrest
      cases hrest

/-- The generation moves on by at most one. -/
theorem generation_step {a : ℕ × Action} (h : Sound c) (hfire : fire step c a = some c') :
    c'.shared.state.connectGeneration ≤ c.shared.state.connectGeneration + 1 := by
  obtain ⟨s, l, hstep, rfl⟩ := fire_eq_some.mp hfire
  rcases step_cases hstep with ⟨call, -, -, -, heq⟩ |
    ⟨retry, created, pending, phase, -, hrest, -, heq⟩ | ⟨event, posts, -, -, rfl, rfl⟩ |
    ⟨generation, -, -, rfl, rfl⟩
  · obtain ⟨rfl, -⟩ := Prod.mk.inj heq
    rcases (callSection_keeps h.related call).others with hnext | ⟨hsame, -⟩
    · exact hnext.le
    · exact hsame.le.trans (Nat.le_succ _)
  · obtain ⟨rfl, -⟩ := Prod.mk.inj heq
    have hdone := completeConnection_completes h.related retry created
      (h.known a.1 pending phase hrest).2
    exact hdone.generation.le.trans (Nat.le_succ _)
  · exact Nat.le_succ _
  · exact Nat.le_succ _

theorem start_sound (stationNetif apNetif : Option Netif) : Sound (start stationNetif apNetif) := by
  refine ⟨⟨?_, ?_, ?_⟩, ?_, ?_⟩
  · simp [start]
  · simp [start]
  · simp [start, underWay]
  · intro t pending phase hrest
    cases hrest
  · intro t u pending phase pending' phase' _ hrest
    cases hrest

/-- The generations are `uint64_t`: none that is compared has wrapped in a run of fewer steps. -/
theorem generations_unwrapped (stationNetif apNetif : Option Netif) {actions : List (ℕ × Action)}
    (hrun : run (fire step) (start stationNetif apNetif) actions = some c)
    (hlength : actions.length < 2 ^ 64) :
    c.shared.state.connectGeneration < 2 ^ 64 ∧ ∀ t pending phase,
      (c.thread t).rest = .completing pending phase → pending.generation < 2 ^ 64 := by
  have hstart := start_sound stationNetif apNetif
  have hle : c.shared.state.connectGeneration ≤ 0 + actions.length :=
    sound_step.run_le (fun _ _ _ h => generation_step h) hrun hstart
  refine ⟨by omega, fun t pending phase hrest => ?_⟩
  have hknown := ((sound_step.run hrun hstart).known t pending phase hrest).1
  omega

end Runs

/-- In every state of every run: an access point is recorded exactly while the station is
associated or has an address, the station is disabled exactly while the driver is not
initialised or the mode has no station, an attempt or a connection needs a started driver and
a station, and a section of an attempt that is not the current one changes nothing. -/
theorem station_states (stationNetif apNetif : Option Netif) (actions : List (ℕ × Action))
    {c : System} (hrun : run (fire step) (start stationNetif apNetif) actions = some c) :
    (c.shared.state.connectedAp.isSome = true ↔
      c.shared.state.station = .associated ∨ c.shared.state.station = .gotIp) ∧
    (c.shared.state.station = .disabled ↔
      c.shared.state.driver = .uninitialized ∨ hasStation c.shared.state.mode = false) ∧
    (c.shared.state.station = .connecting ∨ c.shared.state.station = .associated ∨
      c.shared.state.station = .gotIp →
      c.shared.state.driver = .started ∧ hasStation c.shared.state.mode = true) ∧
    ∀ t pending phase, (c.thread t).rest = .completing pending phase →
      pending.generation ≠ c.shared.state.connectGeneration →
      ∀ action c', fire step c (t, action) = some c' → c'.shared.state = c.shared.state := by
  have h : Sound c := sound_step.run hrun (start_sound stationNetif apNetif)
  refine ⟨h.related.connected, h.related.disabled, ?_, ?_⟩
  · intro hstation
    apply h.related.active
    rcases hstation with hs | hs | hs <;> rw [hs] <;> rfl
  · intro t pending phase hrest hstale action c' hfire
    obtain ⟨s, l, hstep, rfl⟩ := fire_eq_some.mp hfire
    rcases step_cases hstep with ⟨call, -, hidle, -, -⟩ |
      ⟨retry, created, pending', phase', -, hrest', -, heq⟩ | ⟨event, posts, -, -, rfl, -⟩ |
      ⟨generation, -, -, rfl, -⟩
    · rw [hrest] at hidle
      cases hidle
    · rw [hrest] at hrest'
      cases hrest'
      obtain ⟨rfl, -⟩ := Prod.mk.inj heq
      exact (completeConnection_completes h.related retry created
        (fun hcurrent => absurd hcurrent hstale)).stale hstale
    · rfl
    · rfl

def homeAp : AccessPoint := ⟨1, "home", "secret", -40, 6⟩
def homeConfig : StationConfig := ⟨"home", none, "secret", 0⟩
def atOnce : ConnectionAttempt := ⟨.automatic, 0, 0, 0⟩
def defaultNetif : Netif := ⟨false, .none, true⟩

def bringUp : List (ℕ × Action) :=
  [(0, .call .init), (0, .call (.setConfig homeConfig)), (0, .call .start), (0, .post),
    (0, .call (.connect [homeAp] atOnce)), (0, .advance atOnce true), (0, .advance atOnce true),
    (0, .post), (0, .advance atOnce true), (0, .advance atOnce true), (0, .post)]

theorem station_states_gotIp :
    ∃ c, run (fire step) (start (some defaultNetif) none) bringUp = some c ∧
      c.shared.state.station = .gotIp ∧ c.shared.state.connectedAp.isSome = true := by
  have hend : (run (fire step) (start (some defaultNetif) none) bringUp).map
      (fun c => decide (c.shared.state.station = .gotIp)) = some true := by decide +kernel
  obtain ⟨c, hrun, hstation⟩ := Option.map_eq_some_iff.mp hend
  have hgotIp := of_decide_eq_true hstation
  exact ⟨c, hrun, hgotIp, (station_states _ _ _ hrun).1.mpr (.inr hgotIp)⟩

end RooTesting.Wifi
