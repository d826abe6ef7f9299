import RooTesting.StableSort
import Mathlib.Algebra.GroupWithZero.Nat
import Mathlib.Data.List.Infix

/-! # Scheduled changes of access points

Changes wait in the order of their calls and are made when somebody looks at the access points, those
that are due by then. Times are in nanoseconds. -/
namespace RooTesting.ScheduledChanges
open StableSort

/-- `RSSI`: an `int8_t` that is not positive. -/
structure Rssi where
  val : ℤ
  range : -128 ≤ val ∧ val ≤ 0
  deriving DecidableEq

def Rssi.of (val : BitVec 8) : Rssi :=
  ⟨min val.toInt 0, by have := BitVec.le_toInt val; omega, Int.min_le_right ..⟩

/-- The function of an access point that gives its strength: a fixed value, or another function. -/
inductive Signal
  | value (rssi : Rssi)
  | other (function : ℕ)
  deriving DecidableEq

/-- What a change can change. -/
structure AccessPoint where
  rssi : Signal
  visible : Bool
  deriving DecidableEq

abbrev AccessPointMap := ℕ → Option AccessPoint

structure ScheduledChange where
  mac : ℕ
  due : ℕ
  rssi : Rssi
  changesVisibility : Bool
  visible : Bool
  deriving DecidableEq

structure Environment where
  now : ℕ
  aps : AccessPointMap
  scheduledChanges : List ScheduledChange

inductive Action
  | scheduleRssi (mac : ℕ) (rssi : Rssi) (delayMs : ℕ)
  | scheduleVisibility (mac : ℕ) (visible : Bool) (delayMs : ℕ)
  | accessPoints
  deriving DecidableEq

/-- The body of the loop for a change that is due. -/
def apply (aps : AccessPointMap) (change : ScheduledChange) : AccessPointMap :=
  match aps change.mac with
  | none => aps
  | some ap =>
      Function.update aps change.mac (some
        (if change.changesVisibility then { ap with visible := change.visible }
        else { ap with rssi := .value change.rssi }))

/-- `applyScheduledChanges`: the access points, and the changes that still wait. -/
def applyScheduledChanges (now : ℕ) :
    List ScheduledChange → AccessPointMap → AccessPointMap × List ScheduledChange
  | [], aps => (aps, [])
  | change :: changes, aps =>
      if now < change.due then
        let rest := applyScheduledChanges now changes aps
        (rest.1, change :: rest.2)
      else applyScheduledChanges now changes (apply aps change)

/-- What a call schedules. -/
def scheduled (now : ℕ) : Action → List ScheduledChange
  | .scheduleRssi mac rssi delayMs =>
      [⟨mac, now + delayMs * 1000000, rssi, false, false⟩]
  | .scheduleVisibility mac visible delayMs =>
      [⟨mac, now + delayMs * 1000000, .of 0, true, visible⟩]
  | .accessPoints => []

/-- A call some time after the one before it. -/
def step (env : Environment) (event : ℕ × Action) : Environment :=
  let now := env.now + event.1
  match event.2 with
  | .accessPoints =>
      let rest := applyScheduledChanges now env.scheduledChanges env.aps
      ⟨now, rest.1, rest.2⟩
  | action => ⟨now, env.aps, env.scheduledChanges ++ scheduled now action⟩

/-- A run from access points without changes. -/
def after (aps : AccessPointMap) (events : List (ℕ × Action)) : Environment :=
  events.foldl step ⟨0, aps, []⟩

def timeAfter (events : List (ℕ × Action)) : ℕ := (events.map Prod.fst).sum

/-- The changes of some calls, in the order of the calls. -/
def called : List (ℕ × Action) → ℕ → List ScheduledChange
  | [], _ => []
  | event :: events, now =>
      scheduled (now + event.1) event.2 ++ called events (now + event.1)

/-- All changes due at or before a time, in the order of their due times, with ties in the order of
the calls. -/
def settled (aps : AccessPointMap) (changes : List ScheduledChange) (time : ℕ) : AccessPointMap :=
  (byKey ScheduledChange.due (changes.filter fun change => change.due ≤ time)).foldl apply aps

/-- Every observation shows what is due, whatever was observed before. -/
def Independent (aps : AccessPointMap) (events : List (ℕ × Action)) : Prop :=
  ∀ past elapsed, past ++ [(elapsed, .accessPoints)] <+: events →
    (after aps (past ++ [(elapsed, .accessPoints)])).aps =
      settled aps (called past 0) (timeAfter past + elapsed)

def ScheduledChange.Affects (change : ScheduledChange) (mac : ℕ) (visibility : Bool) : Prop :=
  change.mac = mac ∧ change.changesVisibility = visibility

instance ScheduledChange.affectsDecidable (change : ScheduledChange) (mac : ℕ) (visibility : Bool) :
    Decidable (change.Affects mac visibility) :=
  inferInstanceAs (Decidable (_ ∧ _))

/-- The last of some changes to one property of an access point. -/
def lastOf (mac : ℕ) (visibility : Bool) (changes : List ScheduledChange) :
    Option ScheduledChange :=
  (changes.filter fun change => change.Affects mac visibility).getLast?

/-- Of the changes to one property that become due together, the one called last and the one due
last set the same value. -/
def Agree (aps : AccessPointMap) (due : List ScheduledChange) : Prop :=
  ∀ mac, aps mac ≠ none →
    (lastOf mac false due).map ScheduledChange.rssi =
      (lastOf mac false (byKey ScheduledChange.due due)).map ScheduledChange.rssi ∧
    (lastOf mac true due).map ScheduledChange.visible =
      (lastOf mac true (byKey ScheduledChange.due due)).map ScheduledChange.visible

/-- The changes that an observation makes. -/
def Environment.due (env : Environment) (elapsed : ℕ) : List ScheduledChange :=
  env.scheduledChanges.filter fun change => change.due ≤ env.now + elapsed

section Effects
variable {changes : List ScheduledChange} {aps : AccessPointMap} {mac : ℕ}

theorem applyScheduledChanges_eq (now : ℕ) (changes : List ScheduledChange)
    (aps : AccessPointMap) :
    applyScheduledChanges now changes aps =
      ((changes.filter fun change => change.due ≤ now).foldl apply aps,
        changes.filter fun change => now < change.due) := by
  induction changes generalizing aps with
  | nil => rfl
  | cons change changes ih =>
    rw [applyScheduledChanges]
    split
    · rename_i hlater
      rw [ih, List.filter_cons_of_neg (by simpa using hlater),
        List.filter_cons_of_pos (by simpa using hlater)]
    · rename_i hdue
      rw [ih, List.filter_cons_of_pos (by simpa using hdue),
        List.filter_cons_of_neg (by simpa using hdue)]
      rfl

theorem lastOf_snoc (mac : ℕ) (visibility : Bool) (changes : List ScheduledChange)
    (change : ScheduledChange) :
    lastOf mac visibility (changes ++ [change]) =
      if change.Affects mac visibility then some change else lastOf mac visibility changes := by
  unfold lastOf
  rw [List.filter_append]
  split
  · rename_i haffects
    rw [List.filter_cons_of_pos (by simpa using haffects), List.filter_nil, List.getLast?_append,
      List.getLast?_singleton, Option.some_or]
  · rename_i hother
    rw [List.filter_cons_of_neg (by simpa using hother), List.filter_nil, List.append_nil]

theorem lastOf_eq_none {visibility : Bool} :
    lastOf mac visibility changes = none ↔
      ∀ change ∈ changes, ¬ change.Affects mac visibility := by
  unfold lastOf
  rw [List.getLast?_eq_none_iff, List.filter_eq_nil_iff]
  simp

/-- An access point after some changes. -/
def changed (mac : ℕ) (changes : List ScheduledChange) (ap : AccessPoint) : AccessPoint :=
  ⟨((lastOf mac false changes).map fun change => .value change.rssi).getD ap.rssi,
    ((lastOf mac true changes).map ScheduledChange.visible).getD ap.visible⟩

theorem apply_of_ne {change : ScheduledChange} (hne : mac ≠ change.mac) :
    apply aps change mac = aps mac := by
  unfold apply
  cases aps change.mac with
  | none => rfl
  | some ap => exact Function.update_of_ne hne ..

theorem changed_snoc_of_ne {change : ScheduledChange} (hne : mac ≠ change.mac) :
    changed mac (changes ++ [change]) = changed mac changes := by
  have hother : ∀ visibility, ¬ change.Affects mac visibility :=
    fun visibility haffects => hne haffects.1.symm
  unfold changed
  simp only [lastOf_snoc, if_neg (hother _)]

theorem foldl_apply (changes : List ScheduledChange) (aps : AccessPointMap) (mac : ℕ) :
    changes.foldl apply aps mac = (aps mac).map (changed mac changes) := by
  induction changes using List.reverseRecOn with
  | nil => exact Option.map_id'.symm
  | append_singleton changes change ih =>
    rw [List.foldl_append, List.foldl_cons, List.foldl_nil]
    rcases eq_or_ne mac change.mac with rfl | hne
    · cases haps : aps change.mac with
      | none =>
        rw [haps] at ih
        rw [apply, ih]
        exact ih
      | some ap =>
        rw [haps] at ih
        rw [apply, ih]
        simp only [Option.map_some, Function.update_self]
        congr 1
        unfold changed
        cases hkind : change.changesVisibility <;>
          simp [lastOf_snoc, ScheduledChange.Affects, hkind]
    · rw [apply_of_ne hne, changed_snoc_of_ne hne, ih]

theorem map_eq_of_getD {α β : Type} {o o' : Option α} {f : α → β} {b : β}
    (hnone : o = none ↔ o' = none) (h : (o.map f).getD b = (o'.map f).getD b) :
    o.map f = o'.map f := by
  cases o with
  | none => rw [hnone.1 rfl]
  | some a =>
    cases o' with
    | none => cases hnone.2 rfl
    | some a' => exact congrArg some h

/-- Changes in two orders of the same list, compared by the last ones. -/
theorem foldl_apply_eq_iff {changes' : List ScheduledChange} (hperm : changes'.Perm changes) :
    changes.foldl apply aps = changes'.foldl apply aps ↔ ∀ mac, aps mac ≠ none →
      (lastOf mac false changes).map ScheduledChange.rssi =
        (lastOf mac false changes').map ScheduledChange.rssi ∧
      (lastOf mac true changes).map ScheduledChange.visible =
        (lastOf mac true changes').map ScheduledChange.visible := by
  have hnone : ∀ mac visibility,
      lastOf mac visibility changes = none ↔ lastOf mac visibility changes' = none := by
    intro mac visibility
    rw [lastOf_eq_none, lastOf_eq_none]
    simp only [hperm.mem_iff]
  constructor
  · intro heq mac hsome
    obtain ⟨ap, hap⟩ := Option.ne_none_iff_exists'.1 hsome
    have hmac := congrFun heq mac
    rw [foldl_apply, foldl_apply, hap, Option.map_some, Option.map_some, Option.some_inj] at hmac
    have hrssi := congrArg AccessPoint.rssi hmac
    have hvisible := congrArg AccessPoint.visible hmac
    have hsignal := map_eq_of_getD (hnone mac false) hrssi
    refine ⟨?_, map_eq_of_getD (hnone mac true) hvisible⟩
    cases hlast : lastOf mac false changes with
    | none =>
      rw [(hnone mac false).1 hlast]
    | some change =>
      cases hlast' : lastOf mac false changes' with
      | none => cases ((hnone mac false).2 hlast').symm.trans hlast
      | some change' =>
        rw [hlast, hlast', Option.map_some, Option.map_some, Option.some_inj] at hsignal
        rw [Option.map_some, Option.map_some, Signal.value.inj hsignal]
  · intro hagree
    funext mac
    rw [foldl_apply, foldl_apply]
    cases hap : aps mac with
    | none => rfl
    | some ap =>
      obtain ⟨hrssi, hvisible⟩ := hagree mac (by rw [hap]; exact Option.some_ne_none ap)
      have hsignal := congrArg (Option.map Signal.value) hrssi
      rw [Option.map_map, Option.map_map] at hsignal
      have hsame : changed mac changes ap = changed mac changes' ap := by
        unfold changed
        rw [hvisible]
        congr 2
      rw [Option.map_some, Option.map_some, hsame]

end Effects

section Runs
variable {aps : AccessPointMap} {events : List (ℕ × Action)}

theorem after_snoc (events : List (ℕ × Action)) (event : ℕ × Action) :
    after aps (events ++ [event]) = step (after aps events) event := by
  rw [after, List.foldl_append]
  rfl

theorem step_now (env : Environment) (event : ℕ × Action) :
    (step env event).now = env.now + event.1 := by
  obtain ⟨elapsed, action⟩ := event
  cases action <;> rfl

theorem after_now (events : List (ℕ × Action)) : (after aps events).now = timeAfter events := by
  induction events using List.reverseRecOn with
  | nil => rfl
  | append_singleton events event ih =>
    rw [after_snoc, step_now, ih, timeAfter, timeAfter, List.map_append, List.sum_append]
    rfl

theorem called_snoc (events : List (ℕ × Action)) (event : ℕ × Action) (now : ℕ) :
    called (events ++ [event]) now =
      called events now ++ scheduled (now + timeAfter events + event.1) event.2 := by
  induction events generalizing now with
  | nil => simp [called, timeAfter]
  | cons first events ih =>
    rw [List.cons_append, called, called, ih, List.append_assoc, timeAfter, timeAfter,
      List.map_cons, List.sum_cons, Nat.add_assoc now]

/-- What has been called before the last observation is made up to its time; the rest waits. -/
def Settling (aps : AccessPointMap) (events : List (ℕ × Action)) : Prop :=
  ∃ time old added, time ≤ timeAfter events ∧ called events 0 = old ++ added ∧
    (∀ change ∈ added, time ≤ change.due) ∧
    (after aps events).scheduledChanges = (old.filter fun change => time < change.due) ++ added ∧
    (after aps events).aps = settled aps old time

theorem Settling.nil : Settling aps [] :=
  ⟨0, [], [], le_rfl, rfl, List.forall_mem_nil _, rfl, rfl⟩

/-- What is due at an observation, in the order of the due times, comes after all earlier changes. -/
theorem Settling.settled_eq (h : Settling aps events) (elapsed : ℕ) :
    settled aps (called events 0) (timeAfter events + elapsed) =
      (byKey ScheduledChange.due ((after aps events).due elapsed)).foldl apply
        (after aps events).aps := by
  obtain ⟨time, old, added, hle, hcalled, hadded, hwaiting, haps⟩ := h
  obtain ⟨now, hnow⟩ : ∃ now, now = timeAfter events + elapsed := ⟨_, rfl⟩
  have hlater : ∀ change ∈ added.filter fun change => change.due ≤ now, time ≤ change.due :=
    fun change hin => hadded change (List.mem_of_mem_filter hin)
  have hsplit := byKey_split ScheduledChange.due time
    (old.filter fun change => change.due ≤ now) hlater
  rw [settled, hcalled, haps, ← hnow, List.filter_append, hsplit, List.foldl_append, settled,
    Environment.due, hwaiting, after_now, ← hnow, List.filter_append, List.filter_filter,
    List.filter_filter, List.filter_filter]
  congr 3
  · apply List.filter_congr
    intro change _
    rw [← Bool.decide_and]
    apply decide_eq_decide.2
    omega
  · apply List.filter_congr
    intro change _
    exact Bool.and_comm ..

/-- An observation shows what is due exactly when the changes it makes agree. -/
theorem Settling.observation_iff (h : Settling aps events) (elapsed : ℕ) :
    (after aps (events ++ [(elapsed, .accessPoints)])).aps =
        settled aps (called events 0) (timeAfter events + elapsed) ↔
      Agree aps ((after aps events).due elapsed) := by
  have hdomain : ∀ mac, (after aps events).aps mac ≠ none ↔ aps mac ≠ none := by
    intro mac
    obtain ⟨time, old, added, -, -, -, -, haps⟩ := h
    rw [haps, settled, foldl_apply, Ne, Option.map_eq_none_iff]
  have hstep : (after aps (events ++ [(elapsed, .accessPoints)])).aps =
      ((after aps events).due elapsed).foldl apply (after aps events).aps := by
    rw [after_snoc, step]
    simp only [applyScheduledChanges_eq]
    rfl
  rw [hstep, h.settled_eq, foldl_apply_eq_iff (byKey_perm ScheduledChange.due _)]
  simp only [hdomain]
  exact Iff.rfl

theorem Settling.scheduled (h : Settling aps events) {action : Action} (elapsed : ℕ)
    (haction : action ≠ .accessPoints) : Settling aps (events ++ [(elapsed, action)]) := by
  obtain ⟨time, old, added, hle, hcalled, hadded, hwaiting, haps⟩ := h
  have htime : timeAfter (events ++ [(elapsed, action)]) = timeAfter events + elapsed := by
    rw [timeAfter, timeAfter, List.map_append, List.sum_append]
    rfl
  have hstep : after aps (events ++ [(elapsed, action)]) =
      ⟨timeAfter events + elapsed, (after aps events).aps, (after aps events).scheduledChanges ++
        ScheduledChanges.scheduled (timeAfter events + elapsed) action⟩ := by
    rw [after_snoc, ← @after_now aps]
    cases action with
    | accessPoints => exact absurd rfl haction
    | _ => rfl
  have hdue : ∀ change ∈ ScheduledChanges.scheduled (timeAfter events + elapsed) action,
      time ≤ change.due := by
    intro change hin
    cases action with
    | accessPoints => cases hin
    | scheduleRssi mac rssi delayMs =>
      obtain rfl := List.mem_singleton.1 hin
      exact Nat.le_add_right_of_le (Nat.le_add_right_of_le hle)
    | scheduleVisibility mac visible delayMs =>
      obtain rfl := List.mem_singleton.1 hin
      exact Nat.le_add_right_of_le (Nat.le_add_right_of_le hle)
  refine ⟨time, old, added ++ ScheduledChanges.scheduled (timeAfter events + elapsed) action,
    ?_, ?_, ?_, ?_, ?_⟩
  · rw [htime]
    omega
  · rw [called_snoc, hcalled, Nat.zero_add, List.append_assoc]
  · intro change hin
    rcases List.mem_append.1 hin with hin | hin
    · exact hadded change hin
    · exact hdue change hin
  · rw [hstep, hwaiting, List.append_assoc]
  · rw [hstep]
    exact haps

theorem Settling.observed (h : Settling aps events) (elapsed : ℕ)
    (hagree : Agree aps ((after aps events).due elapsed)) :
    Settling aps (events ++ [(elapsed, .accessPoints)]) := by
  have haps := (h.observation_iff elapsed).2 hagree
  obtain ⟨time, old, added, hle, hcalled, hadded, hwaiting, -⟩ := h
  have htime : timeAfter (events ++ [(elapsed, .accessPoints)]) = timeAfter events + elapsed := by
    rw [timeAfter, timeAfter, List.map_append, List.sum_append]
    rfl
  have hcalls : called (events ++ [(elapsed, .accessPoints)]) 0 = called events 0 := by
    rw [called_snoc]
    exact List.append_nil _
  refine ⟨timeAfter events + elapsed, called events 0, [], ?_, ?_, List.forall_mem_nil _, ?_, haps⟩
  · rw [htime]
  · rw [hcalls, List.append_nil]
  · rw [List.append_nil, after_snoc, step]
    simp only [applyScheduledChanges_eq, hwaiting, after_now, hcalled, List.filter_append,
      List.filter_filter]
    congr 2
    funext change
    rw [← Bool.decide_and]
    apply decide_eq_decide.2
    omega

/-- Observations do not depend on earlier ones exactly when, at each of them, of the changes that
become due together and set one property of an access point, the one called last and the one due
last set the same value. -/
theorem changes_independent_iff (aps : AccessPointMap) (events : List (ℕ × Action)) :
    Independent aps events ↔ ∀ past elapsed, past ++ [(elapsed, .accessPoints)] <+: events →
      Agree aps ((after aps past).due elapsed) := by
  have hsettling : ∀ events : List (ℕ × Action),
      (∀ past elapsed, past ++ [(elapsed, .accessPoints)] <+: events →
        Agree aps ((after aps past).due elapsed)) → Settling aps events := by
    intro events
    induction events using List.reverseRecOn with
    | nil => exact fun _ => .nil
    | append_singleton events event ih =>
      intro hagree
      obtain ⟨elapsed, action⟩ := event
      have hbefore := ih fun past elapsed' hpast =>
        hagree past elapsed' (hpast.trans (List.prefix_append events _))
      by_cases haction : action = .accessPoints
      · rw [haction] at hagree ⊢
        exact hbefore.observed elapsed (hagree events elapsed List.prefix_rfl)
      · exact hbefore.scheduled elapsed haction
  constructor
  · intro hindependent past
    -- by the length of the past, whose observations agree
    induction hlength : past.length using Nat.strong_induction_on generalizing past with
    | _ length ih =>
      intro elapsed hpast
      have hbefore : Settling aps past := by
        apply hsettling
        intro earlier elapsed' hearlier
        have hle := hearlier.length_le
        rw [List.length_append, List.length_singleton] at hle
        exact ih earlier.length (by omega) earlier rfl elapsed'
          ((hearlier.trans (List.prefix_append past _)).trans hpast)
      exact (hbefore.observation_iff elapsed).1 (hindependent past elapsed hpast)
  · intro hagree past elapsed hpast
    have hbefore : Settling aps past := by
      apply hsettling
      intro earlier elapsed' hearlier
      exact hagree earlier elapsed' ((hearlier.trans (List.prefix_append past _)).trans hpast)
    exact (hbefore.observation_iff elapsed).2 (hagree past elapsed hpast)

end Runs

/-- A change to hidden after two milliseconds, and then one to visible after one. -/
def hideAndShow : List (ℕ × Action) :=
  [(0, .scheduleVisibility 1 false 2), (0, .scheduleVisibility 1 true 1), (3000000, .accessPoints)]

/-- Seen for the first time after both changes, the access point is visible. -/
theorem hideAndShow_not_independent :
    ¬ Independent (fun _ => some ⟨.value (.of 0xC4), true⟩) hideAndShow := by
  intro hindependent
  have hseen := congrFun (hindependent (hideAndShow.take 2) 3000000 List.prefix_rfl) 1
  revert hseen
  decide +kernel

end RooTesting.ScheduledChanges
