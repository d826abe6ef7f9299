import RooTesting.WifiEvents

/-! # A static address of the station

With its DHCP client stopped the station keeps the address it was given, as far as connections are
concerned. Of the sections that drop a lease only the one of a new connection looks at the client. -/
namespace RooTesting.Wifi
open Transition Threads

/-- The client is stopped and the address is set. -/
def StaticIp (address : IpInfo) (s : State) : Prop :=
  ∃ netif, s.stationNetif = some netif ∧ netif.dhcpStarted = false ∧ netif.ipInfo = address

/-- Neither the address nor the client is touched by the application. -/
def Action.isLink : Action → Bool
  | .call (.connect _ _) | .call .disconnect | .call .start | .call .stop => true
  | .call _ => false
  | _ => true

/-- An association that completes its address step reports the address. -/
def Reports (address : IpInfo) (c : System) (a : ℕ × Action) (c' : System) : Prop :=
  ∀ number pending attempt retry created, a.2 = .advance retry created →
    c.thread a.1 = ⟨number, [], .completing pending (.lease attempt)⟩ →
    c.shared.state.isConnectionCurrentLocked pending.generation = true →
    (c'.thread a.1).posts = [.staGotIp pending.generation address]

/-- The step does not disconnect a started station, does not stop a started driver and is not the
loss of the current link. -/
def Spares (c : System) (a : ℕ × Action) : Prop :=
  match a.2, (c.thread a.1).rest with
  | .call .disconnect, _ =>
      c.shared.state.driver = .started → hasStation c.shared.state.mode = false
  | .call .stop, _ => c.shared.state.driver ≠ .started
  | .advance _ _, .completing pending (.drop _) =>
      c.shared.state.isConnectionCurrentLocked pending.generation = false
  | _, _ => True

/-- The address stays in every state of the run, and every address step reports it. -/
structure AddressKept (address : IpInfo) (c : System) (actions : List (ℕ × Action)) : Prop where
  stays : ∀ n c', run (fire step) c (actions.take n) = some c' → StaticIp address c'.shared.state
  reports : ∀ n c' a c'', run (fire step) c (actions.take n) = some c' → actions[n]? = some a →
    fire step c' a = some c'' → Reports address c' a c''

section Sections
variable {address : IpInfo} {s : State}

theorem StaticIp.hasStationIp (h : StaticIp address s) (haddress : address.ip ≠ 0) :
    s.hasStationIp = true := by
  obtain ⟨netif, hnetif, -, rfl⟩ := h
  simp [State.hasStationIp, hnetif, haddress]

theorem StaticIp.setStationUp (h : StaticIp address s) (up : Bool) :
    StaticIp address (s.setStationUp up) := by
  obtain ⟨netif, hnetif, hdhcp, hip⟩ := h
  refine ⟨{ netif with up := up }, ?_, hdhcp, hip⟩
  rw [State.setStationUp, State.setStationNetif, hnetif]
  rfl

theorem not_staticIp (haddress : address.ip ≠ 0) (h : s.hasStationIp = false) :
    ¬ StaticIp address s := by
  intro hstatic
  rw [hstatic.hasStationIp haddress] at h
  cases h

theorem espWifiStart_static (h : StaticIp address s) : StaticIp address (espWifiStart s).state := by
  unfold espWifiStart
  split
  · exact h
  · split
    · exact h
    · split
      · exact h
      · have hstarted : StaticIp address
            (if hasStation s.mode then State.setStationUp { s with
                driver := .started
                station := if hasStation s.mode then .idle else .disabled } true
              else { s with
                driver := .started
                station := if hasStation s.mode then .idle else .disabled }) := by
          split
          · exact StaticIp.setStationUp h true
          · exact h
        simp only
        split
        · exact hstarted
        · exact hstarted

theorem espWifiConnect_static (h : StaticIp address s) (environment : Environment)
    (attempt : ConnectionAttempt) :
    StaticIp address (espWifiConnect s environment attempt).state := by
  have hdhcp : ¬ s.stationNetif.any Netif.dhcpStarted = true := by
    obtain ⟨netif, hnetif, hstopped, -⟩ := h
    rw [hnetif, Option.any_some, hstopped]
    decide
  unfold espWifiConnect
  simp only [if_neg hdhcp]
  split_ifs <;> exact h

theorem espWifiDisconnect_static_iff (haddress : address.ip ≠ 0) (h : StaticIp address s) :
    StaticIp address (espWifiDisconnect s).state ↔
      (s.driver = .started → hasStation s.mode = false) := by
  unfold espWifiDisconnect
  split_ifs with hinit hstarted hmode
  · exact iff_of_true h fun hdriver => by rw [hdriver] at hinit; cases hinit
  · exact iff_of_true h fun hdriver => absurd hdriver hstarted
  · exact iff_of_true h fun _ => by simpa using hmode
  · refine iff_of_false ?_ ?_
    · exact not_staticIp haddress (dropConnection_netif s).1
    · intro hnone
      rw [hnone (not_not.1 hstarted)] at hmode
      exact hmode rfl

theorem espWifiStop_static_iff (haddress : address.ip ≠ 0) (h : StaticIp address s) :
    StaticIp address (espWifiStop s).state ↔ s.driver ≠ .started := by
  by_cases hinit : s.driver = .uninitialized
  · rw [espWifiStop, if_pos hinit]
    exact iff_of_true h (by rw [hinit]; decide)
  by_cases hstopped : s.driver = .stopped
  · rw [espWifiStop, if_neg hinit, if_pos hstopped]
    exact iff_of_true h (by rw [hstopped]; decide)
  · rw [espWifiStop, if_neg hinit, if_neg hstopped]
    refine iff_of_false ?_ ?_
    · apply not_staticIp haddress
      have hdropped := (dropConnection_netif { s with
        driver := .stopped
        station := if hasStation s.mode then .idle else .disabled
        scanInProgress := false }).1
      rw [← (setStationUp_netif _ false).1] at hdropped
      exact hdropped
    · intro hne
      cases hdriver : s.driver with
      | uninitialized => exact hinit hdriver
      | stopped => exact hstopped hdriver
      | started => exact hne hdriver

/-- Of a completion only the loss of the current link takes the address away. -/
theorem completeConnection_static_iff (haddress : address.ip ≠ 0) (h : StaticIp address s)
    (pending : PendingConnection) (retry : ConnectionAttempt) (created : Bool) (phase : Phase) :
    StaticIp address (completeConnection s pending retry created phase).state ↔
      ∀ attempt, phase = .drop attempt → s.isConnectionCurrentLocked pending.generation = false := by
  cases phase with
  | drop attempt =>
    by_cases hcurrent : s.isConnectionCurrentLocked pending.generation = true
    · rw [completeConnection, if_pos hcurrent]
      refine iff_of_false ?_ ?_
      · exact not_staticIp haddress (clearStationIpLocked_netif { s with connectedAp := none }).1
      · intro hnot
        rw [hnot attempt rfl] at hcurrent
        cases hcurrent
    · rw [completeConnection, if_neg hcurrent]
      exact iff_of_true h fun _ _ => by simpa using hcurrent
  | lease attempt =>
    refine iff_of_true ?_ fun _ hphase => by cases hphase
    have hleased : StaticIp address { s with stationNetif := s.stationNetif.map leased } := by
      obtain ⟨netif, hnetif, hdhcp, hip⟩ := h
      refine ⟨leased netif, ?_, hdhcp, ?_⟩
      · rw [hnetif]
        rfl
      · rw [leased, hdhcp]
        exact hip
    by_cases hcurrent : s.isConnectionCurrentLocked pending.generation = true
    · rw [completeConnection, if_pos hcurrent]
      simp only
      split
      · exact hleased
      · exact hleased
    · rw [completeConnection, if_neg hcurrent]
      exact h
  | _ =>
    refine iff_of_true ?_ fun _ hphase => by cases hphase
    simp only [completeConnection, whenCurrent]
    repeat' split
    all_goals exact h

/-- A completed address step of a station with a static address. -/
theorem lease_reports (haddress : address.ip ≠ 0) (h : StaticIp address s)
    (pending : PendingConnection) (retry attempt : ConnectionAttempt) (created : Bool)
    (hcurrent : s.isConnectionCurrentLocked pending.generation = true) :
    (completeConnection s pending retry created (.lease attempt)).posts =
      [.staGotIp pending.generation address] := by
  obtain ⟨netif, hnetif, hdhcp, rfl⟩ := h
  simp [completeConnection, hcurrent, hnetif, leased, hdhcp, State.hasStationIp, haddress]

end Sections

section Runs
variable {address : IpInfo} {c c' : System} {a : ℕ × Action}

/-- A step of a run that leaves the address to the station. -/
theorem step_static_iff (haddress : address.ip ≠ 0) (hlink : a.2.isLink = true)
    (hstatic : StaticIp address c.shared.state) (hstep : fire step c a = some c') :
    StaticIp address c'.shared.state ↔ Spares c a := by
  obtain ⟨s, l, heffect, rfl⟩ := fire_eq_some.mp hstep
  obtain ⟨t, action⟩ := a
  rw [Spares]
  simp only at heffect ⊢
  obtain ⟨before, hbefore⟩ : ∃ before, before = c.thread t := ⟨_, rfl⟩
  rw [← hbefore] at heffect ⊢
  obtain ⟨number, posts, rest⟩ := before
  cases action with
  | call call =>
    obtain ⟨rfl, -⟩ := Prod.mk.inj (step_call heffect)
    cases call with
    | connect environment attempt =>
      exact iff_of_true (espWifiConnect_static hstatic environment attempt) trivial
    | disconnect => exact espWifiDisconnect_static_iff haddress hstatic
    | start => exact iff_of_true (espWifiStart_static hstatic) trivial
    | stop => exact espWifiStop_static_iff haddress hstatic
    | _ => cases hlink
  | post =>
    cases posts with
    | nil => cases heffect
    | cons event posts =>
      cases heffect
      exact iff_of_true hstatic trivial
  | advance retry created =>
    cases posts with
    | cons event posts => cases heffect
    | nil =>
      cases rest with
      | done => cases heffect
      | returning generation =>
        cases heffect
        exact iff_of_true hstatic trivial
      | completing pending phase =>
        cases heffect
        have hphase := completeConnection_static_iff haddress hstatic pending retry created phase
        cases phase with
        | drop attempt =>
          refine hphase.trans ⟨fun h => h attempt rfl, fun h _ _ => h⟩
        | _ => exact iff_of_true (hphase.2 fun _ heq => by cases heq) trivial

theorem step_reports (haddress : address.ip ≠ 0) (hstatic : StaticIp address c.shared.state)
    (hstep : fire step c a = some c') : Reports address c a c' := by
  intro number pending attempt retry created haction hthread hcurrent
  obtain ⟨s, l, heffect, rfl⟩ := fire_eq_some.mp hstep
  rw [haction, hthread] at heffect
  cases heffect
  simp only [Function.update_self]
  exact lease_reports haddress hstatic pending retry attempt created hcurrent

/-- A static address stays, and every association that completes its address step reports it,
exactly when the run has no effective disconnect or stop and no loss of the current link. -/
theorem address_kept_iff {actions : List (ℕ × Action)} (haddress : address.ip ≠ 0)
    (hstatic : StaticIp address c.shared.state) (hlink : ∀ a ∈ actions, a.2.isLink = true)
    (hrun : run (fire step) c actions = some c') :
    AddressKept address c actions ↔ Meets (fire step) Spares c actions := by
  have hone : ∀ ⦃d a d'⦄, a ∈ actions → True → StaticIp address d.shared.state →
      fire step d a = some d' → (StaticIp address d'.shared.state ↔ Spares d a) := by
    intro d a d' ha _ hd hstep
    exact step_static_iff haddress (hlink a ha) hd hstep
  have hstates := always_iff_meets (J := fun _ => True) (fun _ _ _ _ _ => trivial) hone hrun
    trivial hstatic
  constructor
  · intro hkept
    exact hstates.1 hkept.stays
  · intro hmeets
    have hstays := hstates.2 hmeets
    refine ⟨hstays, ?_⟩
    intro n d a d' hd _ hstep
    exact step_reports haddress (hstays n d hd) hstep

end Runs

def staticAddress : IpInfo := ⟨0x3201A8C0, 0x00FFFFFF, 0x0101A8C0⟩

/-- A started station with a static address. -/
def staticStation : System :=
  ⟨⟨⟨.started, .idle, .sta, homeConfig, false, 3, none,
    some ⟨true, staticAddress, false⟩, none⟩, [], 0⟩, fun _ => .idle⟩

/-- A connection up to the report of the address. -/
def connecting : List (ℕ × Action) :=
  (0, .call (.connect [homeAp] atOnce)) ::
    [.advance atOnce true, .advance atOnce true, .post, .advance atOnce true, .advance atOnce true,
      .post].map fun action => (0, action)

theorem address_kept_connecting : ∃ c', run (fire step) staticStation connecting = some c' ∧
    (AddressKept staticAddress staticStation connecting ↔
      Meets (fire step) Spares staticStation connecting) :=
  ⟨_, rfl, address_kept_iff (by decide) ⟨_, rfl, rfl, rfl⟩ (by decide) rfl⟩

/-- The call that ends the connection ends the address. -/
theorem disconnect_not_kept :
    ¬ AddressKept staticAddress staticStation [(0, .call .disconnect)] := by
  intro hkept
  obtain ⟨netif, hnetif, -, hip⟩ := hkept.stays 1 _ rfl
  cases hnetif
  cases hip

end RooTesting.Wifi
