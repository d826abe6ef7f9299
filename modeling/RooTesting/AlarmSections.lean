import RooTesting.AlarmTable

/-! # What the sections of the alarm service do

One statement for each section, in either time mode: which alarms leave the table,
how far the clock moves, and what becomes of the delivery and of the service state. -/
namespace RooTesting.AlarmTable
open OrderedTables AlarmService

variable {κ : Type}

/-- The service with another publication. -/
def withClock (p : Publication) (s : Service κ) : Service κ := { s with clock := p }

theorem TableOk.withClock {s : Service κ} (h : TableOk s) (p : Publication) :
    TableOk (withClock p s) :=
  h.congr rfl rfl rfl rfl

@[simp] theorem alarms_withClock (p : Publication) (s : Service κ) :
    (withClock p s).alarms = s.alarms := rfl

@[simp] theorem ids_withClock (p : Publication) (s : Service κ) : ids (withClock p s) = ids s := rfl

@[simp] theorem withClock_withClock (p q : Publication) (s : Service κ) :
    withClock q (withClock p s) = withClock q s := rfl

/-- How a delivery may move the clock: in manual time not at all, or up to its limit. -/
structure Advance (limitNs : ℤ) (advanceTime : Bool) (p q : Publication) : Prop where
  autoSync : q.autoSync = p.autoSync
  origin : q.hostOriginNs = p.hostOriginNs
  uptime_le : p.uptimeNs ≤ q.uptimeNs
  manual : p.autoSync = false → q.uptimeNs ≤ max p.uptimeNs limitNs
  still : p.autoSync = false → advanceTime = false → q.uptimeNs = p.uptimeNs

namespace Advance

variable {limitNs : ℤ} {advanceTime : Bool} {p q r : Publication}

theorem refl (limitNs : ℤ) (advanceTime : Bool) (p : Publication) :
    Advance limitNs advanceTime p p :=
  ⟨rfl, rfl, le_rfl, fun _ => le_max_left _ _, fun _ _ => rfl⟩

theorem trans (h : Advance limitNs advanceTime p q) (h' : Advance limitNs advanceTime q r) :
    Advance limitNs advanceTime p r := by
  refine ⟨h'.autoSync.trans h.autoSync, h'.origin.trans h.origin, h.uptime_le.trans h'.uptime_le,
    fun hm => ?_, fun hm ha => (h'.still (h.autoSync.trans hm) ha).trans (h.still hm ha)⟩
  have hq := h.manual hm
  have hr := h'.manual (h.autoSync.trans hm)
  omega

theorem read (limitNs : ℤ) (advanceTime : Bool) (p : Publication) :
    Advance limitNs advanceTime p p.read := by
  unfold Publication.read
  split
  · rename_i hauto
    exact ⟨rfl, rfl, le_max_left _ _, fun hm => absurd hauto (by simp [hm]),
      fun hm => absurd hauto (by simp [hm])⟩
  · exact refl _ _ _

theorem publish {candidateNs : ℤ} (hc : candidateNs ≤ limitNs) (p : Publication) :
    Advance limitNs true p (p.publishAtLeast candidateNs) := by
  refine ⟨rfl, rfl, le_max_left _ _, fun _ => ?_, fun _ h => absurd h (by decide)⟩
  exact max_le_max_left _ hc

end Advance

/-- The advance inside the delivery loop stops at the limit unless an alarm is due there. -/
theorem TableOk.advanceTowards_cases {s : Service κ} (h : TableOk s) {limitNs : ℤ}
    {s' : Service κ} (ha : s.advanceTowards limitNs = some s') :
    ∃ candidateNs ≤ limitNs, s' = AlarmTable.withClock (s.clock.publishAtLeast candidateNs) s ∧
      (candidateNs = limitNs ∨
        ∃ first rest, s.alarms = first :: rest ∧ first.1 * kNanosPerMicrosecond = candidateNs) := by
  unfold Service.advanceTowards at ha
  cases hs : s.alarms with
  | nil =>
    rw [hs] at ha
    exact ⟨limitNs, le_rfl, (Option.some.inj ha).symm, Or.inl rfl⟩
  | cons first rest =>
    simp only [hs, h.toNanos (e := first) (by simp [hs]), Option.map_some, Option.some.injEq] at ha
    split at ha
    · rename_i hc
      exact ⟨_, hc.2, ha.symm, Or.inr ⟨first, rest, rfl, rfl⟩⟩
    · exact ⟨limitNs, le_rfl, ha.symm, Or.inl rfl⟩

/-- A turn of a delivery: it moves the clock, then it finds nothing due, and then it has
come to its limit, or it takes out the first alarm, which is due. -/
theorem TableOk.claimDue_cases {s : Service κ} (h : TableOk s) {limitNs : ℤ} {advanceTime : Bool}
    {r : Option (ℤ × AlarmNode κ)} {s' : Service κ}
    (hc : s.claimDue limitNs advanceTime = some (r, s')) :
    ∃ p, Advance limitNs advanceTime s.clock p ∧
      ((r = none ∧ s' = AlarmTable.withClock p s ∧
          (∀ e ∈ s.alarms, p.uptimeNs < e.1 * kNanosPerMicrosecond) ∧
          (advanceTime = true → limitNs ≤ p.uptimeNs)) ∨
        ∃ first rest, r = some first ∧ s.alarms = first :: rest ∧
          first.1 * kNanosPerMicrosecond ≤ p.uptimeNs ∧
          s' = AlarmTable.eraseId first.2.id (AlarmTable.withClock p s)) := by
  -- the pop at the end of the turn, after the clock has come to `p`
  have pop : ∀ p, Advance limitNs advanceTime s.clock p →
      (AlarmTable.withClock p s).popDue = some (r, s') →
      ((∃ first rest, s.alarms = first :: rest ∧ first.1 * kNanosPerMicrosecond ≤ p.uptimeNs) ∨
        (advanceTime = true → limitNs ≤ p.uptimeNs)) →
      ∃ p, Advance limitNs advanceTime s.clock p ∧
        ((r = none ∧ s' = AlarmTable.withClock p s ∧
            (∀ e ∈ s.alarms, p.uptimeNs < e.1 * kNanosPerMicrosecond) ∧
            (advanceTime = true → limitNs ≤ p.uptimeNs)) ∨
          ∃ first rest, r = some first ∧ s.alarms = first :: rest ∧
            first.1 * kNanosPerMicrosecond ≤ p.uptimeNs ∧
            s' = AlarmTable.eraseId first.2.id (AlarmTable.withClock p s)) := by
    intro p hp hpop hlimit
    refine ⟨p, hp, ?_⟩
    rcases (h.withClock p).popDue_cases with ⟨heq, hnone⟩ | ⟨first, rest, hs, hdue, heq⟩
    · obtain ⟨rfl, rfl⟩ := Prod.mk.inj (Option.some.inj (hpop.symm.trans heq))
      refine Or.inl ⟨rfl, rfl, hnone, fun ha => ?_⟩
      rcases hlimit with ⟨first, rest, hs, hdue⟩ | hlimit
      · exact absurd (hnone first (by simp [hs])) (not_lt.mpr hdue)
      · exact hlimit ha
    · obtain ⟨rfl, rfl⟩ := Prod.mk.inj (Option.some.inj (hpop.symm.trans heq))
      exact Or.inr ⟨first, rest, rfl, hs, hdue, rfl⟩
  have hread := Advance.read limitNs advanceTime s.clock
  unfold Service.claimDue at hc
  dsimp only at hc
  split at hc
  · rename_i hadv
    obtain ⟨rfl, hlt⟩ := hadv
    obtain ⟨t, ht, hpop⟩ := Option.bind_eq_some_iff.mp hc
    obtain ⟨candidateNs, hle, rfl, hcase⟩ :=
      (h.withClock s.clock.read).advanceTowards_cases ht
    have hpub := Advance.publish hle s.clock.read
    have hread' := Advance.read limitNs true (s.clock.read.publishAtLeast candidateNs)
    have hcand : candidateNs ≤ (s.clock.read.publishAtLeast candidateNs).read.uptimeNs :=
      (le_max_right _ _).trans hread'.uptime_le
    refine pop _ ((hread.trans hpub).trans hread') hpop ?_
    rcases hcase with rfl | ⟨first, rest, hs, hfirst⟩
    · exact Or.inr fun _ => hcand
    · exact Or.inl ⟨first, rest, hs, hfirst.le.trans hcand⟩
  · rename_i hadv
    refine pop _ hread hc (Or.inr fun ha => ?_)
    exact not_lt.mp fun hlt => hadv ⟨ha, hlt⟩

theorem reserve_eq_some {s s' : Service κ} {durationNs targetNs : ℤ}
    (h : s.reserveDelayedUptimeNs durationNs = some (targetNs, s')) :
    s.state = .running ∧ targetNs = max s.read.uptimeNs s.reservedUptimeNs + durationNs ∧
      s' = { s with clock := s.clock.read, reservedUptimeNs := targetNs } := by
  unfold Service.reserveDelayedUptimeNs at h
  split at h
  · rename_i hrun
    dsimp only at h
    split at h
    · obtain ⟨rfl, rfl⟩ := Prod.mk.inj (Option.some.inj h)
      exact ⟨hrun, rfl, rfl⟩
    · cases h
  · cases h

theorem add_eq_some {s s' : Service κ} {deltaNs : ℤ} (h : s.addUptimeNs deltaNs = some s') :
    s.state = .running ∧ ∃ p, Advance (s.uptimeNs + deltaNs) true s.clock p ∧
      s' = { s with clock := p, reservedUptimeNs := max s.reservedUptimeNs p.uptimeNs } := by
  unfold Service.addUptimeNs at h
  split at h
  · rename_i hrun
    obtain ⟨p, hp, rfl⟩ := Option.map_eq_some_iff.mp h
    unfold Publication.add at hp
    split at hp
    · rename_i hfit
      obtain rfl := Option.some.inj hp
      refine ⟨hrun, _, Advance.trans ?_ (Advance.read _ _ _), rfl⟩
      exact ⟨rfl, rfl, by simpa using hfit.1, fun _ => le_max_right _ _,
        fun _ hh => absurd hh (by decide)⟩
    · cases hp
  · cases h

theorem enter_eq_true {s s' : Service κ} {limitNs : ℤ} {advanceTime : Bool}
    (h : s.enterDelivery limitNs advanceTime = (true, s')) :
    s.state = .running ∧ s.deliveryActive = false ∧ s' = { s with deliveryActive := true } := by
  unfold Service.enterDelivery at h
  split at h
  · rename_i hrun
    split at h
    · cases h
    · rename_i hinactive
      obtain ⟨-, rfl⟩ := Prod.mk.inj h
      exact ⟨hrun, by simpa using hinactive, rfl⟩
  · cases h

/-- A delivery that does not become the owner publishes its limit to the owner. -/
theorem enter_eq_false {s s' : Service κ} {limitNs : ℤ} {advanceTime : Bool}
    (h : s.enterDelivery limitNs advanceTime = (false, s')) :
    ∃ p, Advance limitNs advanceTime s.clock p ∧ s' = AlarmTable.withClock p s ∧
      (s.state = .running → s.deliveryActive = true ∧
        (advanceTime = true → limitNs ≤ p.uptimeNs)) := by
  unfold Service.enterDelivery at h
  split at h
  · split at h
    · rename_i hactive
      obtain ⟨-, rfl⟩ := Prod.mk.inj h
      cases advanceTime with
      | true => exact ⟨_, Advance.publish le_rfl _, rfl, fun _ => ⟨hactive, fun _ => le_max_right _ _⟩⟩
      | false =>
        exact ⟨_, Advance.refl _ _ _, rfl, fun _ => ⟨hactive, fun hh => absurd hh (by decide)⟩⟩
    · cases h
  · rename_i hstopped
    obtain ⟨-, rfl⟩ := Prod.mk.inj h
    exact ⟨_, Advance.refl _ _ _, rfl, fun hrun => absurd hrun hstopped⟩

theorem tryBegin_eq_true {s s' : Service κ}
    (h : s.tryBeginSystemTimeServiceShutdownForHost = (true, s')) :
    s.deliveryActive = false ∧ s.state = .running ∧ s' = { s with state := .closing } := by
  unfold Service.tryBeginSystemTimeServiceShutdownForHost at h
  split at h
  · cases h
  · rename_i hinactive
    split at h
    · rename_i hrun
      exact ⟨by simpa using hinactive, hrun, (Prod.mk.inj h).2.symm⟩
    · cases h

theorem TableOk.cancel_eq_true {s s' : Service κ} (h : TableOk s) {id : ℕ}
    (hc : s.cancelSystemTimeAlarm id = (true, s')) :
    id ∈ ids s ∧ s' = AlarmTable.eraseId id s := by
  rcases h.cancel_cases id with ⟨-, heq⟩ | ⟨hid, heq⟩
  · cases hc.symm.trans heq
  · exact ⟨hid, (Prod.mk.inj (hc.symm.trans heq)).2⟩

theorem TableOk.finish {s : Service κ} (h : TableOk s) :
    TableOk s.finishSystemTimeServiceShutdownForHost := by
  refine ⟨.nil, .nil, .nil, ?_, ?_, ?_, h.next_lt, ?_, .nil, ?_⟩ <;>
    simp [Service.finishSystemTimeServiceShutdownForHost]

end RooTesting.AlarmTable
