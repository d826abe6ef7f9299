import RooTesting.WifiScans

/-! # What becomes of a scan

The life of one scan, as its marks in the log allow it, and the invariant that ties every life
to the variables of the driver and to the threads at work on the scan. A scan takes effect
without a second look at the driver, and one that gives up takes away whatever scan is in
progress: where neither meets another scan or another state, every accepted scan is answered
once. -/
namespace RooTesting.WifiScans
open Transition Threads Lifecycles
open Wifi hiding step start Action Entry Shared System

/-- A scan may be in progress. -/
def Startable (s : State) : Prop :=
  s.driver = .started ∧ hasStation s.mode = true ∧ s.station ≠ .connecting

def Mark.isEnd : Mark → Bool
  | .failed | .completed _ | .stopped | .ended => true
  | _ => false

/-- The marks on a scan. -/
def marks (c : System) (scan : ℕ) : List Mark := marksOf scan c.shared.log

/-- The scan has begun, and nothing has put an end to it. -/
def InProgress (ms : List Mark) : Prop :=
  (∃ results, .began results ∈ ms) ∧ ∀ m ∈ ms, m.isEnd = false

def Mark.scanDone? : Mark → Option (ℕ × ℕ)
  | .scanDone status number => some (status, number)
  | _ => none

/-- The events that were posted for a scan, latest first. -/
def dones (ms : List Mark) : List (ℕ × ℕ) := ms.filterMap Mark.scanDone?

/-- The event goes with the scan's own results, or with the call that stopped it. -/
def Own (ms : List Mark) (event : ℕ × ℕ) : Prop :=
  (∃ results, .began results ∈ ms ∧ .completed results ∈ ms ∧
    event = (0, results.length % 2 ^ 16)) ∨ .stopped ∈ ms ∧ event.1 = 1

/-- Where a scan is that was started with success. -/
inductive Answered (c : System) (scan : ℕ) : Prop where
  | waiting (t : ℕ) (block : Bool) (results : List ApRecord)
      (hthread : c.thread t = .waiting scan block) (hscan : InProgress (marks c scan))
      (hbegan : .began results ∈ marks c scan)
      (hnext : (completeAndPostScan c.shared scan block).2 =
        .posting scan 0 (results.length % 2 ^ 16) block)
      (hnone : dones (marks c scan) = [])
  | posting (t status number : ℕ) (block : Bool)
      (hthread : c.thread t = .posting scan status number block)
      (hown : Own (marks c scan) (status, number)) (hnone : dones (marks c scan) = [])
  | posted (event : ℕ × ℕ) (hown : Own (marks c scan) event) (hone : dones (marks c scan) = [event])
  | ended (hended : .ended ∈ marks c scan) (hnone : dones (marks c scan) = [])

/-- What the driver promises of its scans. -/
structure ScansKept (c : System) : Prop where
  startable : c.shared.scanInProgress = true → Startable c.shared.state
  flag : c.shared.scanInProgress = true ↔ ∃ scan, InProgress (marks c scan)
  single : ∀ scan scan', InProgress (marks c scan) → InProgress (marks c scan') → scan = scan'
  answered : ∀ scan, .returned ∈ marks c scan → Answered c scan
  silent : ∀ scan, .ended ∈ marks c scan → dones (marks c scan) = []

/-- What the checks of a scan found still holds when it takes effect, and a scan that is given
up without memory takes no other scan away. -/
def Undisturbed (c : System) : ℕ × Action → Prop
  | (_, .beginScan _) => scanStartCode c.shared.state = .ok
  | (t, .create false) => ∀ scan, c.thread t = .creating scan →
      c.shared.scanInProgress = true → scan = c.shared.scanGeneration
  | _ => True

section Lives

/-- The life of one scan. -/
inductive Life where
  | unborn
  | running (results : List ApRecord) (returned : Bool)
  | owing (status number : ℕ)
  | posted (status number : ℕ)
  | ended
  | failed
  deriving DecidableEq

def Life.next : Life → Mark → Option Life
  | .unborn, .began results => some (.running results false)
  | .running results _, .returned => some (.running results true)
  | .running _ false, .failed => some .failed
  | .running results _, .completed published =>
    if published = results then some (.owing 0 (results.length % 2 ^ 16)) else none
  | .running _ _, .stopped => some (.owing 1 0)
  | .running _ _, .ended => some .ended
  | .owing status number, .scanDone status' number' =>
    if status' = status ∧ number' = number then some (.posted status number) else none
  | .owing status number, .returned => some (.owing status number)
  | .owing status number, .failed => some (.owing status number)
  | .posted status number, .returned => some (.posted status number)
  | .posted status number, .failed => some (.posted status number)
  | .ended, .returned => some .ended
  | .ended, .failed => some .ended
  | _, _ => none

/-- The marks that a life goes with. -/
def Life.Fits (ms : List Mark) : Life → Prop
  | .unborn => ms = []
  | .running results returned =>
    .began results ∈ ms ∧ (∀ m ∈ ms, m.isEnd = false) ∧ dones ms = [] ∧
      (.returned ∈ ms → returned = true)
  | .owing status number =>
    Own ms (status, number) ∧ (∃ m ∈ ms, m.isEnd = true) ∧ .ended ∉ ms ∧ dones ms = []
  | .posted status number =>
    Own ms (status, number) ∧ (∃ m ∈ ms, m.isEnd = true) ∧ .ended ∉ ms ∧
      dones ms = [(status, number)]
  | .ended => .ended ∈ ms ∧ dones ms = []
  | .failed => .failed ∈ ms ∧ .ended ∉ ms ∧ .returned ∉ ms

variable {ms : List Mark} {m : Mark}

theorem dones_cons (h : m.scanDone? = none) : dones (m :: ms) = dones ms :=
  List.filterMap_cons_none h

theorem Own.cons {event : ℕ × ℕ} (h : Own ms event) : Own (m :: ms) event := by
  obtain ⟨results, hbegan, hcompleted, hevent⟩ | ⟨hstopped, hevent⟩ := h
  · exact .inl ⟨results, List.mem_cons_of_mem _ hbegan, List.mem_cons_of_mem _ hcompleted, hevent⟩
  · exact .inr ⟨List.mem_cons_of_mem _ hstopped, hevent⟩

theorem not_mem_of_ends (h : ∀ m ∈ ms, m.isEnd = false) (hm : m.isEnd = true) : m ∉ ms := by
  intro hmem
  rw [h m hmem] at hm
  cases hm

/-- A call that has its answer already leaves the rest of the life as it is. -/
theorem Life.Fits.answer {life : Life} (h : life.Fits ms) (hm : m = .returned ∨ m = .failed)
    (hlife : life = .ended ∨ (∃ status number, life = .owing status number) ∨
      ∃ status number, life = .posted status number) : life.Fits (m :: ms) := by
  have hnone : m.scanDone? = none := by obtain rfl | rfl := hm <;> rfl
  have hended : Mark.ended ∉ ms → Mark.ended ∉ m :: ms := by
    obtain rfl | rfl := hm <;> simp
  obtain rfl | ⟨status, number, rfl⟩ | ⟨status, number, rfl⟩ := hlife
  · obtain ⟨hmem, hdones⟩ := h
    exact ⟨List.mem_cons_of_mem _ hmem, (dones_cons hnone).trans hdones⟩
  · obtain ⟨hown, ⟨e, he, hend⟩, hnot, hdones⟩ := h
    exact ⟨hown.cons, ⟨e, List.mem_cons_of_mem _ he, hend⟩, hended hnot,
      (dones_cons hnone).trans hdones⟩
  · obtain ⟨hown, ⟨e, he, hend⟩, hnot, hdones⟩ := h
    exact ⟨hown.cons, ⟨e, List.mem_cons_of_mem _ he, hend⟩, hended hnot,
      (dones_cons hnone).trans hdones⟩

/-- A mark that ends a running scan. -/
theorem Life.Fits.over {results : List ApRecord} {returned : Bool}
    (h : (Life.running results returned).Fits ms) (event : ℕ × ℕ) (hm : m.isEnd = true) (hne : m ≠ .ended)
    (hnone : m.scanDone? = none) (hown : Own (m :: ms) event) :
    (Life.owing event.1 event.2).Fits (m :: ms) := by
  obtain ⟨-, hends, hdones, -⟩ := h
  refine ⟨hown, ⟨m, List.mem_cons_self, hm⟩, ?_, (dones_cons hnone).trans hdones⟩
  rw [List.mem_cons, not_or]
  exact ⟨hne.symm, not_mem_of_ends hends rfl⟩

theorem Life.fits_next {life life' : Life} (h : life.Fits ms) (hnext : life.next m = some life') :
    life'.Fits (m :: ms) := by
  cases life with
  | unborn =>
    obtain rfl := h
    cases m with
    | began results =>
      obtain rfl := Option.some.inj hnext
      simp [Life.Fits, Mark.isEnd, dones, Mark.scanDone?]
    | _ => cases hnext
  | running results returned =>
    have hfits := h
    obtain ⟨hbegan, hends, hdones, hreturned⟩ := h
    cases m with
    | returned =>
      obtain rfl := Option.some.inj hnext
      exact ⟨List.mem_cons_of_mem _ hbegan, List.forall_mem_cons.mpr ⟨rfl, hends⟩,
        (dones_cons rfl).trans hdones, fun _ => rfl⟩
    | failed =>
      cases returned with
      | true => cases hnext
      | false =>
        obtain rfl := Option.some.inj hnext
        refine ⟨List.mem_cons_self, ?_, ?_⟩
        · rw [List.mem_cons, not_or]
          exact ⟨nofun, not_mem_of_ends hends rfl⟩
        · rw [List.mem_cons, not_or]
          exact ⟨nofun, fun hmem => by cases hreturned hmem⟩
    | completed published =>
      simp only [Life.next] at hnext
      split at hnext
      · rename_i hown
        subst hown
        obtain rfl := Option.some.inj hnext
        exact hfits.over (0, _) rfl nofun rfl
          (.inl ⟨published, List.mem_cons_of_mem _ hbegan, List.mem_cons_self, rfl⟩)
      · cases hnext
    | stopped =>
      obtain rfl := Option.some.inj hnext
      exact hfits.over (1, 0) rfl nofun rfl (.inr ⟨List.mem_cons_self, rfl⟩)
    | ended =>
      obtain rfl := Option.some.inj hnext
      exact ⟨List.mem_cons_self, (dones_cons rfl).trans hdones⟩
    | began | scanDone => cases hnext
  | owing status number =>
    cases m with
    | scanDone status' number' =>
      obtain ⟨hown, ⟨e, he, hend⟩, hended, hdones⟩ := h
      simp only [Life.next] at hnext
      split at hnext
      · rename_i hsame
        obtain ⟨rfl, rfl⟩ := hsame
        obtain rfl := Option.some.inj hnext
        refine ⟨hown.cons, ⟨e, List.mem_cons_of_mem _ he, hend⟩, ?_, ?_⟩
        · rw [List.mem_cons, not_or]
          exact ⟨nofun, hended⟩
        · change (status', number') :: dones ms = _
          rw [hdones]
      · cases hnext
    | returned | failed =>
      obtain rfl := Option.some.inj hnext
      exact h.answer (by simp) (by simp)
    | _ => cases hnext
  | posted status number =>
    cases m with
    | returned | failed =>
      obtain rfl := Option.some.inj hnext
      exact h.answer (by simp) (by simp)
    | _ => cases hnext
  | ended =>
    cases m with
    | returned | failed =>
      obtain rfl := Option.some.inj hnext
      exact h.answer (by simp) (by simp)
    | _ => cases hnext
  | failed => cases m <;> cases hnext

/-- The life of a scan that the marks spell. -/
abbrev lifeOf (ms : List Mark) : Option Life := replay Life.next .unborn ms

theorem fits_of_lifeOf {life : Life} (h : lifeOf ms = some life) : life.Fits ms :=
  replay_induction (P := fun ms life => life.Fits ms) rfl (fun _ _ _ _ => Life.fits_next) h

/-- A scan is in progress exactly when its life is running. -/
theorem inProgress_iff {life : Life} (h : lifeOf ms = some life) :
    InProgress ms ↔ ∃ results returned, life = .running results returned := by
  have hfits := fits_of_lifeOf h
  constructor
  · rintro ⟨⟨results, hbegan⟩, hends⟩
    cases life with
    | running results returned => exact ⟨results, returned, rfl⟩
    | unborn =>
      rw [show ms = [] from hfits] at hbegan
      cases hbegan
    | owing | posted =>
      obtain ⟨-, ⟨e, he, hend⟩, -⟩ := hfits
      rw [hends e he] at hend
      cases hend
    | ended | failed => exact absurd hfits.1 (not_mem_of_ends hends rfl)
  · rintro ⟨results, returned, rfl⟩
    exact ⟨⟨results, hfits.1⟩, hfits.2.1⟩

end Lives

section Driver

variable {s : State}

theorem scanStartCode_eq_ok : scanStartCode s = .ok ↔ Startable s ∧ s.scanInProgress = false := by
  simp only [scanStartCode, Startable]
  constructor
  · intro h
    split at h
    · cases h
    split at h
    · cases h
    split at h
    · cases h
    split at h
    · cases h
    rename_i hstarted hmode hstate
    rw [not_or] at hstate
    refine ⟨⟨not_not.mp hstarted, ?_, hstate.1⟩, by simpa using hstate.2⟩
    cases hmode' : s.mode <;> simp_all [hasStation]
  · rintro ⟨⟨hdriver, hmode, hstation⟩, hscan⟩
    rw [if_neg (by simp [hdriver]), if_neg (by simp [hdriver]), if_neg, if_neg (by simp [hstation, hscan])]
    rintro ⟨hsta, hapsta⟩
    cases hmode' : s.mode <;> simp_all [hasStation]

@[simp] theorem setStationNetif_scan (up : Bool) (f : IpInfo → IpInfo) :
    (s.setStationNetif up f).scanInProgress = s.scanInProgress := rfl

@[simp] theorem setStationUp_scan (up : Bool) :
    (s.setStationUp up).scanInProgress = s.scanInProgress := rfl

@[simp] theorem setApUp_scan (up : Bool) : (s.setApUp up).scanInProgress = s.scanInProgress := rfl

@[simp] theorem clearStationIpLocked_scan :
    s.clearStationIpLocked.scanInProgress = s.scanInProgress := by
  rw [State.clearStationIpLocked]
  split_ifs <;> rfl

@[simp] theorem dropConnection_scan : s.dropConnection.scanInProgress = s.scanInProgress :=
  clearStationIpLocked_scan

@[simp] theorem resetDriverLocked_scan (driver : DriverState) :
    (s.resetDriverLocked driver).scanInProgress = false := rfl

theorem espWifiSetMode_scan (mode : Option Mode) :
    (espWifiSetMode s mode).state.scanInProgress =
      (s.scanInProgress && !endsScan s (.setMode mode)) := by
  cases mode with
  | none => simp [espWifiSetMode, endsScan, resetsDriver, State.refuse]
  | some mode =>
    simp only [espWifiSetMode, endsScan]
    split
    · rename_i hdriver
      simp [State.refuse, hdriver]
    · rename_i hdriver
      cases hmode : hasStation mode with
      | false => simp [hdriver]
      | true =>
        simp only [Bool.not_true, Bool.false_eq_true, if_false, Bool.and_false, Bool.not_false,
          Bool.and_true]
        split <;> rfl

theorem espWifiStop_scan :
    (espWifiStop s).state.scanInProgress = (s.scanInProgress && !endsScan s .stop) := by
  cases hdriver : s.driver <;> simp [espWifiStop, endsScan, hdriver, State.refuse]

theorem espWifiConnect_scan (environment : Environment) (attempt : ConnectionAttempt) :
    (espWifiConnect s environment attempt).state.scanInProgress = s.scanInProgress := by
  simp only [espWifiConnect]
  split_ifs <;> simp [State.refuse]

/-- A call of the rest of the driver ends the scan or leaves it in progress. -/
theorem callSection_scan {c : Call} (hc : ∀ b, c ≠ .scan b) :
    (callSection s c).state.scanInProgress = (s.scanInProgress && !endsScan s c) := by
  cases c with
  | scan b => exact absurd rfl (hc b)
  | reset => simp [callSection, reset, endsScan, resetsDriver]
  | init =>
    by_cases hdriver : s.driver = .uninitialized <;>
      simp [callSection, espWifiInit, endsScan, resetsDriver, hdriver, State.refuse]
  | deinit =>
    cases hdriver : s.driver <;>
      simp [callSection, espWifiDeinit, endsScan, resetsDriver, hdriver, State.refuse]
  | start =>
    simp only [callSection, espWifiStart, endsScan, resetsDriver]
    split_ifs <;> simp [State.refuse]
  | stop => exact espWifiStop_scan
  | restore =>
    by_cases hdriver : s.driver = .uninitialized <;>
      simp [callSection, espWifiRestore, endsScan, resetsDriver, hdriver, State.refuse]
  | disconnect =>
    simp only [callSection, espWifiDisconnect, endsScan, resetsDriver]
    split_ifs <;> simp [State.refuse]
  | setMode mode => exact espWifiSetMode_scan mode
  | setConfig config =>
    simp only [callSection, espWifiSetConfig, endsScan, resetsDriver]
    split_ifs <;> simp [State.refuse]
  | connect environment attempt =>
    simpa [callSection, endsScan, resetsDriver] using espWifiConnect_scan environment attempt

theorem idle_ne_connecting : StationState.idle ≠ .connecting :=
  StationState.noConfusion

theorem associated_ne_connecting : StationState.associated ≠ .connecting :=
  StationState.noConfusion

theorem gotIp_ne_connecting : StationState.gotIp ≠ .connecting :=
  StationState.noConfusion

/-- A call that does not end the scan leaves the driver as a scan needs it. -/
theorem callSection_startable {c : Call} (hc : ∀ b, c ≠ .scan b) (h : Startable s)
    (hscan : s.scanInProgress = true) (hends : endsScan s c = false) :
    Startable (callSection s c).state := by
  have hs := h
  obtain ⟨hdriver, hmode, hstation⟩ := h
  cases c with
  | scan b => exact absurd rfl (hc b)
  | reset => simp [endsScan, resetsDriver] at hends
  | restore => simp [endsScan, resetsDriver, hdriver] at hends
  | stop => simp [endsScan, hdriver] at hends
  | init => simpa [callSection, espWifiInit, hdriver, State.refuse] using hs
  | deinit => simpa [callSection, espWifiDeinit, hdriver, State.refuse] using hs
  | start =>
    simp only [callSection, espWifiStart, hdriver]
    split_ifs <;> exact hs
  | disconnect =>
    simp only [callSection, espWifiDisconnect]
    split_ifs
    · exact hs
    · exact hs
    · exact hs
    · exact ⟨by simpa using hdriver, by simpa using hmode, idle_ne_connecting⟩
  | setMode mode =>
    cases mode with
    | none => exact hs
    | some mode =>
      have hstays : hasStation mode = true := by simpa [endsScan, hdriver] using hends
      have hnext : (espWifiSetMode s (some mode)).state = { s with mode := mode } := by
        simp [espWifiSetMode, hdriver, hmode, hstays]
      exact hnext ▸ ⟨hdriver, hstays, hstation⟩
  | setConfig config =>
    simp only [callSection, espWifiSetConfig]
    split_ifs <;> exact hs
  | connect environment attempt =>
    simpa [callSection, espWifiConnect, hdriver, hmode, hscan, State.refuse] using hs

/-- A section of a completion that can run while a scan does leaves the driver as the scan
needs it. -/
theorem completeConnection_startable (pending : PendingConnection) (retry : ConnectionAttempt)
    (created : Bool) (phase : Phase) :
    (completeConnection s pending retry created phase).state.scanInProgress = s.scanInProgress ∧
    (Startable s → Startable (completeConnection s pending retry created phase).state) := by
  have hwhen : ∀ next, (whenCurrent s pending next).state = s := by
    intro next
    simp only [whenCurrent]
    split_ifs <;> rfl
  have hidle : Startable s → Startable { s with station := .idle } :=
    fun h => ⟨h.1, h.2.1, idle_ne_connecting⟩
  cases phase with
  | spawn =>
    simp only [completeConnection]
    split_ifs
    · exact ⟨rfl, id⟩
    · exact ⟨rfl, hidle⟩
    · exact ⟨rfl, id⟩
  | delay | dhcpDelay | connectedDelay =>
    simp only [completeConnection]
    rw [hwhen]
    exact ⟨rfl, id⟩
  | fail reason =>
    simp only [completeConnection]
    split_ifs
    · exact ⟨rfl, hidle⟩
    · exact ⟨rfl, hidle⟩
    · exact ⟨rfl, id⟩
  | failLostIp | lostIp | dropLostIp => exact ⟨rfl, id⟩
  | associate ap attempt =>
    simp only [completeConnection]
    split_ifs
    · exact ⟨rfl, fun h => ⟨h.1, h.2.1, associated_ne_connecting⟩⟩
    · exact ⟨rfl, fun h => ⟨h.1, h.2.1, associated_ne_connecting⟩⟩
    · exact ⟨rfl, id⟩
  | lease attempt =>
    simp only [completeConnection]
    split
    · dsimp only
      split_ifs
      · exact ⟨rfl, fun h => ⟨h.1, h.2.1, gotIp_ne_connecting⟩⟩
      · exact ⟨rfl, id⟩
    · exact ⟨rfl, id⟩
  | drop attempt =>
    simp only [completeConnection]
    split
    · exact ⟨clearStationIpLocked_scan,
        fun h => ⟨by simpa using h.1, by simpa using h.2.1, idle_ne_connecting⟩⟩
    · exact ⟨rfl, id⟩

end Driver

section Threads

/-- A thread that still decides on the end of the scan. -/
def workOf (scan : ℕ) : Task → ℕ
  | .creating scan' | .waiting scan' _ => if scan' = scan then 1 else 0
  | _ => 0

/-- A thread that owes the event of the scan. -/
def postOf (scan : ℕ) : Task → ℕ
  | .posting scan' _ _ _ => if scan' = scan then 1 else 0
  | _ => 0

def Life.isRunning : Life → Bool
  | .running _ _ => true
  | _ => false

def Life.isOwing : Life → Bool
  | .owing _ _ => true
  | _ => false

/-- Begun, and not given up. -/
def Life.Lived (life : Life) : Prop := life ≠ .unborn ∧ life ≠ .failed

/-- What a thread at work on the scan knows of its life. -/
def Task.Knows (scan : ℕ) (life : Life) : Task → Prop
  | .creating scan' => scan' = scan → life.Lived ∧ ∀ results, life ≠ .running results true
  | .waiting scan' _ => scan' = scan → life.Lived
  | .posting scan' status number _ => scan' = scan → life = .owing status number
  | _ => True

/-- The scan and its life, in a state of the driver and its threads. -/
structure Tracks (s : Scans) (f : ℕ → Task) (scan : ℕ) (life : Life) : Prop where
  marks : lifeOf (marksOf scan s.log) = some life
  fresh : s.scanGeneration < scan → life = .unborn
  current : ∀ results returned, life = .running results returned →
    s.scanInProgress = true ∧ scan = s.scanGeneration ∧ s.pendingScanResults = results
  worker : ∃ held, Held (workOf scan) f held ∧ (life.isRunning = true → held = true)
  poster : Held (postOf scan) f life.isOwing
  knows : ∀ t, (f t).Knows scan life

/-- The invariant: every scan has a life, and the flag stands for the one that runs. -/
structure Sound (c : System) : Prop where
  startable : c.shared.scanInProgress = true → Startable c.shared.state
  progress : c.shared.scanInProgress = true → ∃ returned,
    Tracks c.shared c.thread c.shared.scanGeneration
      (.running c.shared.pendingScanResults returned)
  tracks : ∀ scan, ∃ life, Tracks c.shared c.thread scan life

variable {s s' : Scans} {f : ℕ → Task} {t scan : ℕ} {task : Task} {life life' : Life}

theorem Tracks.unique (h : Tracks s f scan life) (h' : Tracks s f scan life') : life = life' :=
  Option.some.inj (h.marks.symm.trans h'.marks)

theorem Task.Knows.of_work (h : task.Knows scan life) (hwork : workOf scan task = 0)
    (hpost : ∀ status number, life = .owing status number → life' = .owing status number) :
    task.Knows scan life' := by
  cases task with
  | radio | accepted => trivial
  | creating scan' | waiting scan' block =>
    intro heq
    simp [workOf, heq] at hwork
  | posting scan' status number block => exact fun heq => hpost status number (h heq)

theorem Task.Knows.of_post (hpost : postOf scan task = 0) (hlived : life.Lived)
    (hrunning : ∀ results, life ≠ .running results true) : task.Knows scan life := by
  cases task with
  | radio | accepted => trivial
  | creating scan' => exact fun _ => ⟨hlived, hrunning⟩
  | waiting scan' block => exact fun _ => hlived
  | posting scan' status number block =>
    intro heq
    simp [postOf, heq] at hpost

/-- A step that leaves the scan alone. -/
theorem Tracks.keep (h : Tracks s f scan life)
    (hmarks : marksOf scan s'.log = marksOf scan s.log)
    (hgeneration : s.scanGeneration ≤ s'.scanGeneration)
    (hcurrent : life.isRunning = true → s'.scanInProgress = true ∧
      s'.scanGeneration = s.scanGeneration ∧ s'.pendingScanResults = s.pendingScanResults)
    (hwork : workOf scan task = workOf scan (f t)) (hpost : postOf scan task = postOf scan (f t))
    (hknows : task.Knows scan life) : Tracks s' (Function.update f t task) scan life := by
  refine ⟨?_, ?_, ?_, ?_, h.poster.keep hpost, ?_⟩
  · rw [hmarks]
    exact h.marks
  · intro hlt
    exact h.fresh (by omega)
  · rintro results returned rfl
    obtain ⟨hflag, hscan, hpending⟩ := h.current _ _ rfl
    obtain ⟨hflag', hscan', hpending'⟩ := hcurrent rfl
    exact ⟨hflag', hscan.trans hscan'.symm, hpending'.trans hpending⟩
  · obtain ⟨held, hheld, hrunning⟩ := h.worker
    exact ⟨held, hheld.keep hwork, hrunning⟩
  · exact forall_update.mpr ⟨hknows, fun u _ => h.knows u⟩

/-- The task has to do with this scan at most. -/
def Task.On (scan : ℕ) (task : Task) : Prop :=
  ∀ other, other ≠ scan →
    workOf other task = 0 ∧ postOf other task = 0 ∧ ∀ life, task.Knows other life

theorem on_radio (scan : ℕ) (l : Local) : (Task.radio l).On scan :=
  fun _ _ => ⟨rfl, rfl, fun _ => trivial⟩

theorem on_accepted (scan : ℕ) (config : Option ScanConfig) (block : Bool) :
    (Task.accepted config block).On scan :=
  fun _ _ => ⟨rfl, rfl, fun _ => trivial⟩

theorem on_creating (scan : ℕ) : (Task.creating scan).On scan :=
  fun _ hne => ⟨if_neg hne.symm, rfl, fun _ heq => absurd heq.symm hne⟩

theorem on_waiting (scan : ℕ) (block : Bool) : (Task.waiting scan block).On scan :=
  fun _ hne => ⟨if_neg hne.symm, rfl, fun _ heq => absurd heq.symm hne⟩

theorem on_posting (scan status number : ℕ) (block : Bool) :
    (Task.posting scan status number block).On scan :=
  fun _ hne => ⟨rfl, if_neg hne.symm, fun _ heq => absurd heq.symm hne⟩

/-- A step with one scan that leaves another alone. -/
theorem Tracks.other {other : ℕ} (h : Tracks s f other life) (hne : other ≠ scan)
    (hbefore : (f t).On scan) (hafter : task.On scan)
    (hmarks : marksOf other s'.log = marksOf other s.log)
    (hgeneration : s.scanGeneration ≤ s'.scanGeneration)
    (hcurrent : life.isRunning = true → s'.scanInProgress = true ∧
      s'.scanGeneration = s.scanGeneration ∧ s'.pendingScanResults = s.pendingScanResults) :
    Tracks s' (Function.update f t task) other life := by
  obtain ⟨hwork, hpost, -⟩ := hbefore other hne
  obtain ⟨hwork', hpost', hknows⟩ := hafter other hne
  exact h.keep hmarks hgeneration hcurrent (hwork'.trans hwork.symm) (hpost'.trans hpost.symm)
    (hknows life)

theorem Life.isRunning_iff : life.isRunning = true ↔
    ∃ results returned, life = .running results returned := by
  constructor
  · intro h
    cases life with
    | running results returned => exact ⟨results, returned, rfl⟩
    | _ => cases h
  · rintro ⟨results, returned, rfl⟩
    rfl

variable {c : System}

/-- A step that has to do with one scan and leaves the variables of the scans alone. -/
theorem Sound.note (h : Sound c) (hbefore : (c.thread t).On scan) (hafter : task.On scan)
    (hstartable : c.shared.scanInProgress = true → Startable c.shared.state →
      Startable s'.state)
    (hflag : s'.scanInProgress = c.shared.scanInProgress)
    (hgeneration : s'.scanGeneration = c.shared.scanGeneration)
    (hpending : s'.pendingScanResults = c.shared.pendingScanResults)
    (hmarks : ∀ other, other ≠ scan → marksOf other s'.log = marksOf other c.shared.log)
    (hscan : ∀ life, Tracks c.shared c.thread scan life → ∃ life',
      Tracks s' (Function.update c.thread t task) scan life' ∧
      ∀ results returned, life = .running results returned →
        ∃ returned', life' = .running results returned') :
    Sound ⟨s', Function.update c.thread t task⟩ := by
  have hother : ∀ other life, other ≠ scan → Tracks c.shared c.thread other life →
      Tracks s' (Function.update c.thread t task) other life := by
    intro other life hne htracks
    apply htracks.other hne hbefore hafter (hmarks other hne) hgeneration.ge
    intro hrunning
    obtain ⟨results, returned, rfl⟩ := Life.isRunning_iff.mp hrunning
    exact ⟨hflag.trans (htracks.current _ _ rfl).1, hgeneration, hpending⟩
  refine ⟨fun hin => ?_, ?_, ?_⟩
  · have hbefore := hflag.symm.trans hin
    exact hstartable hbefore (h.startable hbefore)
  · intro hin
    obtain ⟨returned, htracks⟩ := h.progress (hflag.symm.trans hin)
    change ∃ returned, Tracks s' _ s'.scanGeneration (.running s'.pendingScanResults returned)
    rw [hgeneration, hpending]
    by_cases hne : c.shared.scanGeneration = scan
    · rw [hne] at htracks ⊢
      obtain ⟨life', htracks', hrunning⟩ := hscan _ htracks
      obtain ⟨returned', rfl⟩ := hrunning _ _ rfl
      exact ⟨returned', htracks'⟩
    · exact ⟨returned, hother _ _ hne htracks⟩
  · intro other
    obtain ⟨life, htracks⟩ := h.tracks other
    by_cases hne : other = scan
    · subst hne
      obtain ⟨life', htracks', -⟩ := hscan _ htracks
      exact ⟨life', htracks'⟩
    · exact ⟨life, hother _ _ hne htracks⟩

/-- A step that has to do with no scan. -/
theorem Sound.quiet (h : Sound c) (hbefore : ∀ scan, (c.thread t).On scan)
    (hafter : ∀ scan, task.On scan)
    (hstartable : c.shared.scanInProgress = true → Startable c.shared.state →
      Startable s'.state)
    (hflag : s'.scanInProgress = c.shared.scanInProgress)
    (hgeneration : s'.scanGeneration = c.shared.scanGeneration)
    (hpending : s'.pendingScanResults = c.shared.pendingScanResults)
    (hlog : s'.log = c.shared.log) : Sound ⟨s', Function.update c.thread t task⟩ := by
  apply h.note (hbefore 0) (hafter 0) hstartable hflag hgeneration hpending
  · intro other _
    rw [hlog]
  · intro life htracks
    refine ⟨life, ?_, fun results returned heq => ⟨returned, heq⟩⟩
    apply htracks.other Nat.zero_ne_one (hbefore 1) (hafter 1) (by rw [hlog]) hgeneration.ge
    intro hrunning
    obtain ⟨results, returned, rfl⟩ := Life.isRunning_iff.mp hrunning
    exact ⟨hflag.trans (htracks.current _ _ rfl).1, hgeneration, hpending⟩

/-- A step after which no scan is in progress, and none was but the one that it is about. -/
theorem Sound.settle (h : Sound c) (hbefore : (c.thread t).On scan) (hafter : task.On scan)
    (hcurrent : c.shared.scanInProgress = true → scan = c.shared.scanGeneration)
    (hflag : s'.scanInProgress = false)
    (hgeneration : c.shared.scanGeneration ≤ s'.scanGeneration)
    (hmarks : ∀ other, other ≠ scan → marksOf other s'.log = marksOf other c.shared.log)
    (hscan : ∀ life, Tracks c.shared c.thread scan life →
      ∃ life', Tracks s' (Function.update c.thread t task) scan life') :
    Sound ⟨s', Function.update c.thread t task⟩ := by
  refine ⟨fun hin => ?_, fun hin => ?_, ?_⟩
  · cases hflag.symm.trans hin
  · cases hflag.symm.trans hin
  · intro other
    obtain ⟨life, htracks⟩ := h.tracks other
    by_cases hne : other = scan
    · subst hne
      exact hscan _ htracks
    · refine ⟨life, htracks.other hne hbefore hafter (hmarks other hne) hgeneration ?_⟩
      intro hrunning
      obtain ⟨results, returned, rfl⟩ := Life.isRunning_iff.mp hrunning
      obtain ⟨hin, heq, -⟩ := htracks.current _ _ rfl
      exact absurd (heq.trans (hcurrent hin).symm) hne

/-- The threads beside the one at work on the scan. -/
theorem Tracks.work_eq_zero (h : Tracks s f scan life) (ht : 0 < workOf scan (f t)) {u : ℕ}
    (hu : u ≠ t) : workOf scan (f u) = 0 := by
  obtain ⟨held, hheld, -⟩ := h.worker
  by_contra hne
  exact hu (hheld.eq_of_pos (Nat.pos_of_ne_zero hne) ht)

theorem Tracks.post_eq_zero (h : Tracks s f scan life) (ht : 0 < postOf scan (f t)) {u : ℕ}
    (hu : u ≠ t) : postOf scan (f u) = 0 := by
  by_contra hne
  exact hu (h.poster.eq_of_pos (Nat.pos_of_ne_zero hne) ht)

theorem Tracks.marked (h : Tracks s f scan life) {m : Mark} (hlog : s'.log = ⟨scan, m⟩ :: s.log)
    (hnext : life.next m = some life') : lifeOf (marksOf scan s'.log) = some life' := by
  rw [hlog, marksOf_cons_self]
  exact replay_cons h.marks hnext

/-- The life of a scan whose start has returned. -/
def Life.answered : Life → Life
  | .running results _ => .running results true
  | life => life

/-- The life of a scan whose start has given up. -/
def Life.givenUp : Life → Life
  | .running _ _ => .failed
  | life => life

theorem Life.next_returned (h : life.Lived) : life.next .returned = some life.answered := by
  cases life with
  | unborn => exact absurd rfl h.1
  | failed => exact absurd rfl h.2
  | _ => rfl

theorem Life.next_failed (h : life.Lived) (hnot : ∀ results, life ≠ .running results true) :
    life.next .failed = some life.givenUp := by
  cases life with
  | unborn => exact absurd rfl h.1
  | failed => exact absurd rfl h.2
  | running results returned =>
    cases returned with
    | false => rfl
    | true => exact absurd rfl (hnot results)
  | _ => rfl

theorem Life.Lived.answered (h : life.Lived) : life.answered.Lived := by
  cases life with
  | running => exact ⟨nofun, nofun⟩
  | _ => exact h

theorem Life.isOwing_answered : life.answered.isOwing = life.isOwing := by cases life <;> rfl

theorem Life.isRunning_answered : life.answered.isRunning = life.isRunning := by cases life <;> rfl

theorem Life.isOwing_givenUp : life.givenUp.isOwing = life.isOwing := by cases life <;> rfl

theorem Life.isRunning_givenUp : life.givenUp.isRunning = false := by cases life <;> rfl

theorem Life.answered_of_owing (status number : ℕ) (h : life = .owing status number) :
    life.answered = .owing status number := by
  subst h
  rfl

theorem Life.givenUp_of_owing (status number : ℕ) (h : life = .owing status number) :
    life.givenUp = .owing status number := by
  subst h
  rfl

theorem workOf_creating : workOf scan (.creating scan) = 1 := if_pos rfl

theorem workOf_waiting (block : Bool) : workOf scan (.waiting scan block) = 1 := if_pos rfl

theorem postOf_posting (status number : ℕ) (block : Bool) :
    postOf scan (.posting scan status number block) = 1 := if_pos rfl

theorem marksOf_other {other : ℕ} {m : Mark} (hne : other ≠ scan) (hlog : s'.log = ⟨scan, m⟩ :: s.log) :
    marksOf other s'.log = marksOf other s.log := by
  rw [hlog, marksOf_cons_of_ne hne.symm]

/-- The scan has its completion, and the call returns. -/
theorem sound_created (h : Sound c) (ht : c.thread t = .creating scan) :
    Sound ⟨c.shared.mark scan .returned, Function.update c.thread t (.waiting scan false)⟩ := by
  refine h.note (by rw [ht]; exact on_creating scan) (on_waiting scan false) (fun _ => id) rfl rfl rfl
    (fun other hne => marksOf_other hne rfl) ?_
  intro life htracks
  have hknows := htracks.knows t
  rw [ht] at hknows
  obtain ⟨hlived, -⟩ := hknows rfl
  have hwork : 0 < workOf scan (c.thread t) := by
    rw [ht, workOf_creating]
    exact one_pos
  refine ⟨life.answered, ⟨htracks.marked rfl (Life.next_returned hlived), ?_, ?_, ?_, ?_, ?_⟩, ?_⟩
  · intro hlt
    exact absurd (htracks.fresh hlt) hlived.1
  · intro results returned heq
    cases life with
    | running results' returned' =>
      cases heq
      exact htracks.current _ _ rfl
    | _ => cases heq
  · obtain ⟨held, hheld, hrunning⟩ := htracks.worker
    refine ⟨held, hheld.keep ?_, ?_⟩
    · rw [ht, workOf_creating, workOf_waiting]
    · rwa [Life.isRunning_answered]
  · rw [Life.isOwing_answered]
    apply htracks.poster.keep
    rw [ht]
    rfl
  · refine forall_update.mpr ⟨fun _ => hlived.answered, fun u hu => ?_⟩
    exact (htracks.knows u).of_work (htracks.work_eq_zero hwork hu) Life.answered_of_owing
  · rintro results returned rfl
    exact ⟨true, rfl⟩

/-- The call gives up, and with it the scan in progress, which is its own. -/
theorem sound_givenUp (h : Sound c) (ht : c.thread t = .creating scan)
    (hown : c.shared.scanInProgress = true → scan = c.shared.scanGeneration) :
    Sound ⟨(createCompletion c.shared scan false).1, Function.update c.thread t .idle⟩ := by
  refine h.settle (by rw [ht]; exact on_creating scan) (on_radio scan _) hown rfl le_rfl
    (fun other hne => marksOf_other hne rfl) ?_
  intro life htracks
  have hknows := htracks.knows t
  rw [ht] at hknows
  obtain ⟨hlived, hnot⟩ := hknows rfl
  have hwork : 0 < workOf scan (c.thread t) := by
    rw [ht, workOf_creating]
    exact one_pos
  refine ⟨life.givenUp, htracks.marked rfl (Life.next_failed hlived hnot), ?_, ?_, ?_, ?_, ?_⟩
  · intro hlt
    exact absurd (htracks.fresh hlt) hlived.1
  · intro results returned heq
    have hrunning : life.givenUp.isRunning = false := Life.isRunning_givenUp
    rw [heq] at hrunning
    cases hrunning
  · obtain ⟨held, hheld, -⟩ := htracks.worker
    refine ⟨false, hheld.release hwork rfl, ?_⟩
    rw [Life.isRunning_givenUp]
    exact id
  · rw [Life.isOwing_givenUp]
    apply htracks.poster.keep
    rw [ht]
    rfl
  · refine forall_update.mpr ⟨trivial, fun u hu => ?_⟩
    exact (htracks.knows u).of_work (htracks.work_eq_zero hwork hu) Life.givenUp_of_owing

/-- A completion that comes too late. -/
theorem sound_late (h : Sound c) {block : Bool} (ht : c.thread t = .waiting scan block)
    (hlate : scan ≠ c.shared.scanGeneration ∨ c.shared.scanInProgress = false) :
    Sound ⟨if block then c.shared.mark scan .returned else c.shared,
      Function.update c.thread t .idle⟩ := by
  have hstale : ∀ life, Tracks c.shared c.thread scan life → life.isRunning = false := by
    intro life htracks
    rw [Bool.eq_false_iff]
    intro hrunning
    obtain ⟨results, returned, rfl⟩ := Life.isRunning_iff.mp hrunning
    obtain ⟨hin, heq, -⟩ := htracks.current _ _ rfl
    rcases hlate with hne | hout
    · exact hne heq
    · cases hin.symm.trans hout
  have hwork : 0 < workOf scan (c.thread t) := by
    rw [ht, workOf_waiting]
    exact one_pos
  apply h.note (by rw [ht]; exact on_waiting scan block) (on_radio scan _)
  · split <;> exact fun _ => id
  · split <;> rfl
  · split <;> rfl
  · split <;> rfl
  · intro other hne
    split
    · exact marksOf_other hne rfl
    · rfl
  · intro life htracks
    have hknows := htracks.knows t
    rw [ht] at hknows
    have hlived := hknows rfl
    have hrest := hstale life htracks
    have hsame : life.answered = life := by
      cases life with
      | running => cases hrest
      | _ => rfl
    refine ⟨life, ⟨?_, ?_, ?_, ?_, ?_, ?_⟩, ?_⟩
    · split
      · have hnext := Life.next_returned hlived
        rw [hsame] at hnext
        exact htracks.marked rfl hnext
      · exact htracks.marks
    · intro hlt
      apply htracks.fresh
      revert hlt
      split <;> exact id
    · rintro results returned rfl
      cases hrest
    · obtain ⟨held, hheld, -⟩ := htracks.worker
      refine ⟨false, hheld.release hwork rfl, ?_⟩
      rw [hrest]
      exact id
    · apply htracks.poster.keep
      rw [ht]
      rfl
    · exact forall_update.mpr ⟨trivial, fun u _ => htracks.knows u⟩
    · rintro results returned rfl
      cases hrest

theorem Tracks.post_zero (h : Tracks s f scan life) (howing : life.isOwing = false) (u : ℕ) :
    postOf scan (f u) = 0 := by
  have hheld := h.poster
  rw [howing] at hheld
  exact hheld u

/-- A completion in time: the pending results become the results of the scan. -/
theorem sound_published (h : Sound c) {block : Bool} (ht : c.thread t = .waiting scan block)
    (hgeneration : scan = c.shared.scanGeneration) (hin : c.shared.scanInProgress = true) :
    Sound ⟨{ (c.shared.setScanInProgress false).mark scan
        (.completed c.shared.pendingScanResults) with
        scanResults := c.shared.pendingScanResults
        pendingScanResults := [] },
      Function.update c.thread t
        (.posting scan 0 (c.shared.pendingScanResults.length % 2 ^ 16) block)⟩ := by
  refine h.settle (by rw [ht]; exact on_waiting scan block) (on_posting scan _ _ block)
    (fun _ => hgeneration) rfl le_rfl (fun other hne => marksOf_other hne rfl) ?_
  intro life htracks
  obtain ⟨returned, hrunning⟩ := h.progress hin
  rw [← hgeneration] at hrunning
  obtain rfl := htracks.unique hrunning
  refine ⟨.owing 0 (c.shared.pendingScanResults.length % 2 ^ 16),
    htracks.marked rfl (by simp [Life.next]), ?_, nofun, ?_, ?_, ?_⟩
  · intro hlt
    cases htracks.fresh hlt
  · obtain ⟨held, hheld, -⟩ := htracks.worker
    refine ⟨false, hheld.release ?_ rfl, nofun⟩
    rw [ht, workOf_waiting]
    exact one_pos
  · exact htracks.poster.acquire (postOf_posting _ _ _)
  · refine forall_update.mpr ⟨fun _ => rfl, fun u _ => ?_⟩
    exact .of_post (htracks.post_zero rfl u) ⟨nofun, nofun⟩ nofun

/-- The event of a scan, with which a blocking scan returns. -/
theorem sound_posted (h : Sound c) {status number : ℕ} {block : Bool}
    (ht : c.thread t = .posting scan status number block) :
    Sound ⟨(postScanDone c.shared scan status number block).1,
      Function.update c.thread t .idle⟩ := by
  simp only [postScanDone]
  apply h.note (by rw [ht]; exact on_posting scan status number block) (on_radio scan _)
  · split <;> exact fun _ => id
  · split <;> rfl
  · split <;> rfl
  · split <;> rfl
  · intro other hne
    split
    · have hdone : marksOf other (c.shared.mark scan (.scanDone status number)).log =
          marksOf other c.shared.log := marksOf_other hne rfl
      exact (marksOf_other hne rfl).trans hdone
    · exact marksOf_other hne rfl
  · intro life htracks
    have hknows := htracks.knows t
    rw [ht] at hknows
    obtain rfl := hknows rfl
    have hposted : lifeOf (marksOf scan (c.shared.mark scan (.scanDone status number)).log) =
        some (.posted status number) := htracks.marked rfl (by simp [Life.next])
    have hpost : 0 < postOf scan (c.thread t) := by
      rw [ht, postOf_posting]
      exact one_pos
    refine ⟨.posted status number, ⟨?_, ?_, nofun, ?_, htracks.poster.release hpost rfl, ?_⟩, nofun⟩
    · split
      · change lifeOf (marksOf scan (⟨scan, .returned⟩ :: _)) = _
        rw [marksOf_cons_self]
        exact replay_cons hposted rfl
      · exact hposted
    · intro hlt
      have hfresh : c.shared.scanGeneration < scan := by
        revert hlt
        split <;> exact id
      cases htracks.fresh hfresh
    · obtain ⟨held, hheld, -⟩ := htracks.worker
      refine ⟨held, hheld.keep ?_, nofun⟩
      rw [ht]
      rfl
    · refine forall_update.mpr ⟨trivial, fun u hu => ?_⟩
      exact .of_post (htracks.post_eq_zero hpost hu) ⟨nofun, nofun⟩ nofun

/-- The scan in progress is stopped, and its event is owed at once. -/
theorem sound_stopped (h : Sound c) {l : Local} (ht : c.thread t = .radio l)
    (hin : c.shared.scanInProgress = true) :
    Sound ⟨{ (c.shared.setScanInProgress false).mark c.shared.scanGeneration .stopped with
        scanGeneration := c.shared.scanGeneration + 1
        pendingScanResults := []
        scanResults := [] },
      Function.update c.thread t (.posting c.shared.scanGeneration 1 0 false)⟩ := by
  refine h.settle (by rw [ht]; exact on_radio _ l) (on_posting _ _ _ _) (fun _ => rfl) rfl
    (Nat.le_succ _) (fun other hne => marksOf_other hne rfl) ?_
  intro life htracks
  obtain ⟨returned, hrunning⟩ := h.progress hin
  obtain rfl := htracks.unique hrunning
  refine ⟨.owing 1 0, htracks.marked rfl rfl, ?_, nofun, ?_, ?_, ?_⟩
  · intro hlt
    exact absurd hlt (Nat.not_lt.mpr (Nat.le_succ _))
  · obtain ⟨held, hheld, -⟩ := htracks.worker
    refine ⟨held, hheld.keep ?_, nofun⟩
    rw [ht]
    rfl
  · exact htracks.poster.acquire (postOf_posting _ _ _)
  · refine forall_update.mpr ⟨fun _ => rfl, fun u _ => ?_⟩
    exact .of_post (htracks.post_zero rfl u) ⟨nofun, nofun⟩ nofun

theorem Task.Knows.work_of_unborn (h : task.Knows scan .unborn) : workOf scan task = 0 := by
  cases task with
  | radio | accepted | posting => rfl
  | creating scan' => exact if_neg fun heq => (h heq).1.1 rfl
  | waiting scan' block => exact if_neg fun heq => (h heq).1 rfl

/-- The new scan, whose generation was never used. -/
theorem Tracks.begun (h : Tracks s f (s.scanGeneration + 1) life)
    (results : List ApRecord) (block : Bool) :
    Tracks (beginScan s results block).1 (Function.update f t (beginScan s results block).2)
      (s.scanGeneration + 1) (.running results false) := by
  obtain rfl := h.fresh (Nat.lt_succ_self _)
  have hnone : ∀ u, workOf (s.scanGeneration + 1) (f u) = 0 := fun u => (h.knows u).work_of_unborn
  refine ⟨h.marked rfl rfl, ?_, ?_, ⟨true, ?_, fun _ => rfl⟩, ?_, ?_⟩
  · intro hlt
    exact absurd hlt (Nat.lt_irrefl _)
  · intro results' returned heq
    cases heq
    exact ⟨rfl, rfl, rfl⟩
  · refine Held.acquire hnone ?_
    simp only [beginScan]
    split
    · exact workOf_waiting true
    · exact workOf_creating
  · apply h.poster.keep
    rw [h.post_zero rfl t]
    simp only [beginScan]
    split <;> rfl
  · refine forall_update.mpr ⟨?_, fun u _ => ?_⟩
    · simp only [beginScan]
      split
      · exact fun _ => ⟨nofun, nofun⟩
      · exact fun _ => ⟨⟨nofun, nofun⟩, nofun⟩
    · exact .of_post (h.post_zero rfl u) ⟨nofun, nofun⟩ nofun

/-- A scan takes effect where none is in progress. -/
theorem sound_begun (h : Sound c) {config : Option ScanConfig} {block : Bool}
    (ht : c.thread t = .accepted config block) (hcode : scanStartCode c.shared.state = .ok)
    (results : List ApRecord) :
    Sound ⟨(beginScan c.shared results block).1,
      Function.update c.thread t (beginScan c.shared results block).2⟩ := by
  obtain ⟨hstartable, hout⟩ := scanStartCode_eq_ok.mp hcode
  have hbefore : (c.thread t).On (c.shared.scanGeneration + 1) := by
    rw [ht]
    exact on_accepted _ config block
  have hafter : (beginScan c.shared results block).2.On (c.shared.scanGeneration + 1) := by
    simp only [beginScan]
    split
    · exact on_waiting _ _
    · exact on_creating _
  obtain ⟨new, hnew⟩ := h.tracks (c.shared.scanGeneration + 1)
  have hbegun := hnew.begun (t := t) results block
  refine ⟨fun _ => hstartable, fun _ => ⟨false, hbegun⟩, ?_⟩
  intro other
  by_cases hne : other = c.shared.scanGeneration + 1
  · rw [hne]
    exact ⟨_, hbegun⟩
  · obtain ⟨life, htracks⟩ := h.tracks other
    refine ⟨life, htracks.other hne hbefore hafter (marksOf_other hne rfl) (Nat.le_succ _) ?_⟩
    intro hrunning
    obtain ⟨results, returned, rfl⟩ := Life.isRunning_iff.mp hrunning
    cases (htracks.current _ _ rfl).1.symm.trans hout

theorem markCurrent_log (m : Mark) : (s.markCurrent m).log =
    if s.scanInProgress then ⟨s.scanGeneration, m⟩ :: s.log else s.log := by
  rw [Scans.markCurrent]
  split <;> rfl

/-- A call that ends the scan in progress, if there is one. -/
theorem sound_ended (h : Sound c) {l l' : Local} (ht : c.thread t = .radio l)
    (hflag : s'.scanInProgress = false)
    (hgeneration : s'.scanGeneration = c.shared.scanGeneration + 1)
    (hlog : s'.log = (c.shared.markCurrent .ended).log) :
    Sound ⟨s', Function.update c.thread t (.radio l')⟩ := by
  rw [markCurrent_log] at hlog
  refine h.settle (by rw [ht]; exact on_radio c.shared.scanGeneration l) (on_radio _ l')
    (fun _ => rfl) hflag (hgeneration ▸ Nat.le_succ _) ?_ ?_
  · intro other hne
    split at hlog
    · exact marksOf_other hne hlog
    · rw [hlog]
  · intro life htracks
    have hwork : workOf c.shared.scanGeneration (.radio l') =
        workOf c.shared.scanGeneration (c.thread t) := by
      rw [ht]
      rfl
    have hpost : postOf c.shared.scanGeneration (.radio l') =
        postOf c.shared.scanGeneration (c.thread t) := by
      rw [ht]
      rfl
    split at hlog
    · rename_i hin
      obtain ⟨returned, hrunning⟩ := h.progress hin
      obtain rfl := htracks.unique hrunning
      refine ⟨.ended, htracks.marked hlog rfl, ?_, nofun, ?_, htracks.poster.keep hpost, ?_⟩
      · intro hlt
        rw [hgeneration] at hlt
        exact absurd hlt (Nat.not_lt.mpr (Nat.le_succ _))
      · obtain ⟨held, hheld, -⟩ := htracks.worker
        exact ⟨held, hheld.keep hwork, nofun⟩
      · refine forall_update.mpr ⟨trivial, fun u _ => ?_⟩
        exact .of_post (htracks.post_zero rfl u) ⟨nofun, nofun⟩ nofun
    · rename_i hin
      refine ⟨life, htracks.keep (by rw [hlog]) (hgeneration ▸ Nat.le_succ _) ?_ hwork hpost trivial⟩
      intro hrunning
      obtain ⟨results, returned, rfl⟩ := Life.isRunning_iff.mp hrunning
      exact absurd (htracks.current _ _ rfl).1 hin

theorem wifi_call {wifi wifi' : Wifi.Shared} {call : Call} {l l' : Local}
    (hstep : Wifi.step (.call call) wifi l = some (wifi', l')) :
    wifi'.state = (callSection wifi.state call).state := by
  obtain ⟨call', -, -, hcall, hcommit⟩ | ⟨_, _, _, _, -, -, hcall, -⟩ | ⟨_, _, hcall, -⟩ |
    ⟨generation, hposts, hrest, -⟩ := Wifi.step_cases hstep
  · cases hcall
    exact congrArg (fun p => p.1.state) hcommit
  · cases hcall
  · cases hcall
  · obtain ⟨number, posts, rest⟩ := l
    obtain rfl := hposts
    obtain rfl := hrest
    cases hstep

/-- The posts and the completions of connections go along with a scan in progress. -/
theorem wifi_keeps {a : Wifi.Action} {wifi wifi' : Wifi.Shared} {l l' : Local}
    (hstep : Wifi.step a wifi l = some (wifi', l')) (ha : ∀ call, a ≠ .call call) :
    wifi'.state.scanInProgress = wifi.state.scanInProgress ∧
    (Startable wifi.state → Startable wifi'.state) := by
  obtain ⟨call, -, -, hcall, -⟩ | ⟨retry, created, pending, phase, -, -, -, hcommit⟩ |
    ⟨_, _, -, -, rfl, -⟩ | ⟨_, -, -, rfl, -⟩ := Wifi.step_cases hstep
  · exact absurd hcall (ha call)
  · have hstate : wifi'.state = (completeConnection wifi.state pending retry created phase).state :=
      congrArg (fun p => p.1.state) hcommit
    rw [hstate]
    exact completeConnection_startable pending retry created phase
  · exact ⟨rfl, id⟩
  · exact ⟨rfl, id⟩

/-- A step of the rest of the driver. -/
theorem sound_radio (h : Sound c) {a : Wifi.Action} {l l' : Local} {wifi : Wifi.Shared}
    (ha : ∀ b, a ≠ .call (.scan b)) (ht : c.thread t = .radio l)
    (hstep : Wifi.step a c.shared.wifi l = some (wifi, l')) :
    Sound ⟨follow c.shared wifi a, Function.update c.thread t (.radio l')⟩ := by
  have hbefore : ∀ scan, (c.thread t).On scan := by
    intro scan
    rw [ht]
    exact on_radio scan l
  have hafter := fun scan => on_radio scan l'
  cases a with
  | call call =>
    have hcall : ∀ b, call ≠ .scan b := fun b heq => ha b (congrArg _ heq)
    have hstate : wifi.state = (callSection c.shared.state call).state := wifi_call hstep
    have hscan := (congrArg State.scanInProgress hstate).trans (callSection_scan hcall)
    simp only [follow]
    split
    · rename_i hends
      rw [hends, Bool.not_true, Bool.and_false] at hscan
      exact sound_ended h ht hscan rfl rfl
    · rename_i hends
      rw [Bool.not_eq_true] at hends
      rw [hends, Bool.not_false, Bool.and_true] at hscan
      refine h.quiet hbefore hafter (fun hin hstartable => ?_) hscan rfl rfl rfl
      change Startable wifi.state
      rw [hstate]
      exact callSection_startable hcall hstartable hin hends
  | post | advance =>
    obtain ⟨hscan, hstartable⟩ := wifi_keeps hstep nofun
    exact h.quiet hbefore hafter (fun _ => hstartable) hscan rfl rfl rfl

/-- A start that is refused or accepted, and the calls that read the results. -/
theorem sound_same (h : Sound c) {l : Local} (ht : c.thread t = .radio l)
    (hafter : ∀ scan, task.On scan) (results : List ApRecord) :
    Sound ⟨{ c.shared with scanResults := results }, Function.update c.thread t task⟩ := by
  refine h.quiet ?_ hafter (fun _ => id) rfl rfl rfl rfl
  intro scan
  rw [ht]
  exact on_radio scan l

theorem sound_stop (h : Sound c) {l : Local} (ht : c.thread t = .radio l) :
    Sound ⟨(espWifiScanStop c.shared).1,
      Function.update c.thread t (espWifiScanStop c.shared).2⟩ := by
  have hidle := sound_same h ht (fun scan => on_radio scan .idle) c.shared.scanResults
  simp only [espWifiScanStop]
  split
  · exact hidle
  split
  · exact hidle
  · rename_i hin
    exact sound_stopped h ht (by simpa using hin)

theorem sound_complete (h : Sound c) {block : Bool} (ht : c.thread t = .waiting scan block) :
    Sound ⟨(completeAndPostScan c.shared scan block).1,
      Function.update c.thread t (completeAndPostScan c.shared scan block).2⟩ := by
  simp only [completeAndPostScan]
  split
  · rename_i hlate
    exact sound_late h ht (by simpa using hlate)
  · rename_i htime
    rw [not_or, not_not] at htime
    exact sound_published h ht htime.1 (by simpa using htime.2)

theorem sound_step : PreservesWhen (fire step) Undisturbed Sound := by
  rintro c ⟨t, a⟩ c' hok hstep h
  obtain ⟨s', task, hprogram, rfl⟩ := fire_eq_some.mp hstep
  simp only [step] at hprogram
  split at hprogram
  · cases hprogram
  · rename_i l hcall ht
    obtain ⟨⟨wifi, l'⟩, hwifi, heq⟩ := Option.map_eq_some_iff.mp hprogram
    cases heq
    exact sound_radio h (fun b heq => hcall b heq) ht hwifi
  · rename_i config block number ht
    cases hprogram
    refine sound_same h ht (fun scan => ?_) c.shared.scanResults
    split
    · exact on_accepted scan config block
    · exact on_radio scan _
  · rename_i accessPoints config block ht
    cases hprogram
    exact sound_begun h ht hok _
  · rename_i created scan ht
    cases created with
    | true =>
      cases hprogram
      exact sound_created h ht
    | false =>
      cases hprogram
      exact sound_givenUp h ht (hok scan ht)
  · rename_i scan block ht
    have hsound := sound_complete h ht
    rwa [Option.some.inj hprogram] at hsound
  · rename_i scan status number block ht
    cases hprogram
    exact sound_posted h ht
  · rename_i number ht
    have hsound := sound_stop h ht
    rwa [Option.some.inj hprogram] at hsound
  · rename_i count number ht
    cases hprogram
    exact sound_same h ht (fun scan => on_radio scan _) _
  · cases hprogram

theorem start_sound (stationNetif apNetif : Option Netif) : Sound (start stationNetif apNetif) := by
  refine ⟨nofun, nofun, fun scan => ⟨.unborn, rfl, fun _ => rfl, nofun, ⟨false, ?_, nofun⟩, ?_, ?_⟩⟩
  · exact fun t => rfl
  · exact fun t => rfl
  · exact fun t => trivial

end Threads

section Kept

variable {c : System}

theorem Sound.single (h : Sound c) {scan : ℕ} (hscan : InProgress (marks c scan)) :
    c.shared.scanInProgress = true ∧ scan = c.shared.scanGeneration ∧
      .began c.shared.pendingScanResults ∈ marks c scan := by
  obtain ⟨life, htracks⟩ := h.tracks scan
  obtain ⟨results, returned, rfl⟩ := (inProgress_iff htracks.marks).mp hscan
  obtain ⟨hin, heq, rfl⟩ := htracks.current _ _ rfl
  exact ⟨hin, heq, (fits_of_lifeOf htracks.marks).1⟩

theorem Sound.answered (h : Sound c) {scan : ℕ} (hreturned : .returned ∈ marks c scan) :
    Answered c scan := by
  obtain ⟨life, htracks⟩ := h.tracks scan
  have hfits : life.Fits (marks c scan) := fits_of_lifeOf htracks.marks
  cases life with
  | unborn =>
    rw [show marks c scan = [] from hfits] at hreturned
    cases hreturned
  | running results returned =>
    obtain ⟨hbegan, hends, hdones, hanswered⟩ := hfits
    obtain rfl := hanswered hreturned
    obtain ⟨hin, hgeneration, rfl⟩ := htracks.current _ _ rfl
    obtain ⟨held, hheld, hworks⟩ := htracks.worker
    obtain rfl := hworks rfl
    obtain ⟨t, ht, -⟩ := hheld
    have hknows := htracks.knows t
    cases htask : c.thread t with
    | radio | accepted | posting =>
      rw [htask] at ht
      cases ht
    | creating scan' =>
      rw [htask] at ht hknows
      have heq : scan' = scan := by
        by_contra hne
        rw [workOf, if_neg hne] at ht
        cases ht
      exact absurd rfl ((hknows heq).2 _)
    | waiting scan' block =>
      rw [htask] at ht
      have heq : scan' = scan := by
        by_contra hne
        rw [workOf, if_neg hne] at ht
        cases ht
      subst heq
      refine .waiting t block _ htask ⟨⟨_, hbegan⟩, hends⟩ hbegan ?_ hdones
      simp only [completeAndPostScan]
      rw [if_neg]
      simp [hgeneration, hin]
  | owing status number =>
    obtain ⟨hown, -, -, hdones⟩ := hfits
    obtain ⟨t, ht, -⟩ := htracks.poster
    have hknows := htracks.knows t
    cases htask : c.thread t with
    | radio | accepted | creating | waiting =>
      rw [htask] at ht
      cases ht
    | posting scan' status' number' block =>
      rw [htask] at ht hknows
      have heq : scan' = scan := by
        by_contra hne
        rw [postOf, if_neg hne] at ht
        cases ht
      cases hknows heq
      exact .posting t status number block (heq ▸ htask) hown hdones
  | posted status number =>
    obtain ⟨hown, -, -, hdones⟩ := hfits
    exact .posted _ hown hdones
  | ended => exact .ended hfits.1 hfits.2
  | failed => exact absurd hreturned hfits.2.2

theorem Sound.silent (h : Sound c) {scan : ℕ} (hended : .ended ∈ marks c scan) :
    dones (marks c scan) = [] := by
  obtain ⟨life, htracks⟩ := h.tracks scan
  have hfits : life.Fits (marks c scan) := fits_of_lifeOf htracks.marks
  cases life with
  | unborn =>
    rw [show marks c scan = [] from hfits]
    rfl
  | running results returned => exact hfits.2.2.1
  | owing status number => exact hfits.2.2.2
  | posted status number => exact absurd hended hfits.2.2.1
  | ended => exact hfits.2
  | failed => exact absurd hended hfits.2.1

theorem Sound.kept (h : Sound c) : ScansKept c := by
  refine ⟨h.startable, ?_, ?_, fun _ => h.answered, fun _ => h.silent⟩
  · constructor
    · intro hin
      obtain ⟨returned, htracks⟩ := h.progress hin
      exact ⟨_, (inProgress_iff htracks.marks).mpr ⟨_, _, rfl⟩⟩
    · rintro ⟨scan, hscan⟩
      exact (h.single hscan).1
  · intro scan scan' hscan hscan'
    exact (h.single hscan).2.1.trans (h.single hscan').2.1.symm

end Kept

/-- While no scan takes effect in another state than the one that it was accepted in, and none
that gives up takes another away, scans exclude one another and each is answered once. -/
theorem scans_answered (stationNetif apNetif : Option Netif) (actions : List (ℕ × Action))
    {c : System} (hrun : run (fire step) (start stationNetif apNetif) actions = some c)
    (hok : Meets (fire step) Undisturbed (start stationNetif apNetif) actions) : ScansKept c :=
  (sound_step.run hok hrun (start_sound stationNetif apNetif)).kept

section Generations

/-- The scan that a thread is at work on. -/
def Task.scan : Task → ℕ
  | .radio _ | .accepted _ _ => 0
  | .creating scan | .waiting scan _ | .posting scan _ _ _ => scan

/-- Every scan that a thread is at work on has been begun. -/
def Issued (c : System) : Prop := ∀ t, (c.thread t).scan ≤ c.shared.scanGeneration

theorem follow_generation (s : Scans) (wifi : Wifi.Shared) (a : Wifi.Action) :
    (follow s wifi a).scanGeneration = s.scanGeneration ∨
      (follow s wifi a).scanGeneration = s.scanGeneration + 1 := by
  cases a with
  | call call =>
    rw [follow]
    split
    · exact Or.inr rfl
    · exact Or.inl rfl
  | _ => exact Or.inl rfl

/-- The generation moves on by at most one, and a thread goes on with a scan that was begun. -/
theorem scanGeneration_step {a : Action} {s s' : Scans} {task task' : Task}
    (h : step a s task = some (s', task')) (hissued : task.scan ≤ s.scanGeneration) :
    s.scanGeneration ≤ s'.scanGeneration ∧ s'.scanGeneration ≤ s.scanGeneration + 1 ∧
      task'.scan ≤ s'.scanGeneration := by
  unfold step at h
  split at h
  case h_1 | h_10 => cases h
  case h_2 =>
    obtain ⟨r, -, heq⟩ := Option.map_eq_some_iff.mp h
    obtain ⟨rfl, rfl⟩ := Prod.mk.inj heq
    rcases follow_generation s r.1 _ with hsame | hnext
    · exact ⟨hsame.ge, hsame.le.trans (Nat.le_succ _), Nat.zero_le _⟩
    · exact ⟨(Nat.le_succ _).trans hnext.ge, hnext.le, Nat.zero_le _⟩
  all_goals replace h := Option.some.inj h
  · obtain ⟨rfl, rfl⟩ := Prod.mk.inj h
    split <;> exact ⟨le_rfl, Nat.le_succ _, Nat.zero_le _⟩
  · obtain ⟨rfl, rfl⟩ := Prod.mk.inj h
    split <;> exact ⟨Nat.le_succ _, le_rfl, le_rfl⟩
  · unfold createCompletion at h
    split at h <;> obtain ⟨rfl, rfl⟩ := Prod.mk.inj h
    · exact ⟨le_rfl, Nat.le_succ _, hissued⟩
    · exact ⟨le_rfl, Nat.le_succ _, Nat.zero_le _⟩
  · unfold completeAndPostScan at h
    split at h <;> obtain ⟨rfl, rfl⟩ := Prod.mk.inj h
    · split <;> exact ⟨le_rfl, Nat.le_succ _, Nat.zero_le _⟩
    · exact ⟨le_rfl, Nat.le_succ _, hissued⟩
  · obtain ⟨rfl, rfl⟩ := Prod.mk.inj h
    split <;> exact ⟨le_rfl, Nat.le_succ _, Nat.zero_le _⟩
  · unfold espWifiScanStop at h
    split at h
    · obtain ⟨rfl, rfl⟩ := Prod.mk.inj h
      exact ⟨le_rfl, Nat.le_succ _, Nat.zero_le _⟩
    split at h <;> obtain ⟨rfl, rfl⟩ := Prod.mk.inj h
    · exact ⟨le_rfl, Nat.le_succ _, Nat.zero_le _⟩
    · exact ⟨Nat.le_succ _, le_rfl, Nat.le_succ _⟩
  · obtain ⟨rfl, rfl⟩ := Prod.mk.inj h
    exact ⟨le_rfl, Nat.le_succ _, Nat.zero_le _⟩

theorem issued_step : Preserves (fire step) Issued := by
  intro c a c' hfire h u
  obtain ⟨s, task, hstep, rfl⟩ := fire_eq_some.mp hfire
  obtain ⟨hle, -, htask⟩ := scanGeneration_step hstep (h a.1)
  by_cases hu : u = a.1
  · subst hu
    simpa using htask
  · simpa [Function.update_of_ne hu] using (h u).trans hle

/-- The generations are `uint64_t`: none that is compared has wrapped in a run of fewer steps. -/
theorem scans_unwrapped (stationNetif apNetif : Option Netif) {actions : List (ℕ × Action)}
    {c : System} (hrun : run (fire step) (start stationNetif apNetif) actions = some c)
    (hlength : actions.length < 2 ^ 64) :
    c.shared.scanGeneration < 2 ^ 64 ∧ ∀ t, (c.thread t).scan < 2 ^ 64 := by
  have hstart : Issued (start stationNetif apNetif) := fun _ => le_rfl
  have hle : c.shared.scanGeneration ≤ 0 + actions.length := by
    refine issued_step.run_le (f := fun c => c.shared.scanGeneration) ?_ hrun hstart
    intro c a c' h hfire
    obtain ⟨s, task, hstep, rfl⟩ := fire_eq_some.mp hfire
    exact (scanGeneration_step hstep (h a.1)).2.1
  refine ⟨by omega, fun t => ?_⟩
  have hissued := issued_step.run hrun hstart t
  omega

end Generations

/-- `Undisturbed`, as a test of a run in which no scan gives up. -/
def undisturbed (c : System) : ℕ × Action → Bool
  | (_, .beginScan _) => scanStartCode c.shared.state = .ok
  | (_, .create created) => created
  | _ => true

theorem undisturbed_sound (c : System) (a : ℕ × Action) (h : undisturbed c a = true) :
    Undisturbed c a := by
  obtain ⟨t, a⟩ := a
  cases a with
  | beginScan accessPoints =>
    change scanStartCode c.shared.state = .ok
    exact of_decide_eq_true h
  | create created =>
    cases created with
    | true => trivial
    | false => cases h
  | _ => trivial

/-- The driver is started, with its station. -/
def startUp : List (ℕ × Action) :=
  [(0, .radio (.call .init)), (0, .radio (.call .start)), (0, .radio .post)]

/-- A scan, and one that is stopped. -/
def twoScans : List (ℕ × Action) :=
  startUp ++ [(0, .scanStart none false),
    (0, .beginScan [⟨2, [], 11, -60, 0, true⟩, ⟨3, [], 11, -50, 0, false⟩]), (0, .create true),
    (0, .complete), (0, .postScanDone), (0, .scanStart none true), (0, .beginScan []),
    (1, .scanStop), (1, .postScanDone), (0, .complete)]

theorem scans_answered_twoScans : ∃ c,
    run (fire step) (start none none) twoScans = some c ∧ ScansKept c ∧
      dones (marks c 2) = [(0, 1)] ∧ dones (marks c 3) = [(1, 0)] := by
  have hrun : (run (fire step) (start none none) twoScans).map
      (fun c => (dones (marks c 2), dones (marks c 3))) = some ([(0, 1)], [(1, 0)]) := by
    decide +kernel
  obtain ⟨c, hc, hdones⟩ := Option.map_eq_some_iff.mp hrun
  rw [Prod.mk.injEq] at hdones
  refine ⟨c, hc, scans_answered none none twoScans hc ?_, hdones⟩
  exact Meets.of_check (I := fun _ => True) (fun _ _ _ _ _ _ => trivial)
    (fun c a _ h => undisturbed_sound c a h) trivial (by decide +kernel)

/-- Two threads are accepted before either scan takes effect. -/
def twoStarts : List (ℕ × Action) :=
  startUp ++ [(0, .scanStart none false), (1, .scanStart none false), (0, .beginScan []),
    (0, .create true), (1, .beginScan []), (1, .create true), (0, .complete), (1, .complete),
    (1, .postScanDone)]

/-- The second scan takes the first away: its start has returned with success, no call has ended
it, and nothing is left that would post its event. -/
theorem first_scan_lost : ¬ ∀ (stationNetif apNetif : Option Netif) (actions : List (ℕ × Action))
    (c : System), run (fire step) (start stationNetif apNetif) actions = some c → ScansKept c := by
  intro h
  have hrun : (run (fire step) (start none none) twoStarts).map
      (fun c => (marks c 2, c.shared.scanInProgress)) = some ([.returned, .began []], false) := by
    decide +kernel
  obtain ⟨c, hc, hends⟩ := Option.map_eq_some_iff.mp hrun
  rw [Prod.mk.injEq] at hends
  obtain ⟨hmarks, hflag⟩ := hends
  have hscan : InProgress (marks c 2) := by
    rw [hmarks]
    refine ⟨⟨[], by simp⟩, ?_⟩
    intro m hm
    simp only [List.mem_cons, List.not_mem_nil, or_false] at hm
    obtain rfl | rfl := hm <;> rfl
  have hin := (h none none twoStarts c hc).flag.mpr ⟨2, hscan⟩
  cases hflag.symm.trans hin

end RooTesting.WifiScans
