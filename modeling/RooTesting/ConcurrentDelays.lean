import RooTesting.AlarmInvocations
import RooTesting.DelayContract

/-! # Delays that overlap in manual time

A delay is settled from the moment its target is published. Settled targets are
reached, the last reserved target is reached or still in the hands of its delay, and
a pump that has seen nothing due leaves nothing behind that a settled delay owes. -/
namespace RooTesting.AlarmThreads
open Transition Threads AlarmService AlarmTable AlarmDelay

variable {κ : Type}

section Records

def begunDelays (h : List Entry) : List DelayRecord :=
  h.filterMap fun | .begun d => some d | _ => none

def returnedDelays (h : List Entry) : List DelayRecord :=
  h.filterMap fun | .returned d => some d | _ => none

/-- The delay of a frame that has published its target. -/
def Frame.settled : Frame κ → Option DelayRecord
  | .pump (.delay d) .release => some d
  | .leave (.delay d) => some d
  | _ => none

/-- The delay of a frame that has still to publish its target. -/
def Frame.unsettled : Frame κ → Option DelayRecord
  | .enter (.delay d) => some d
  | .pump (.delay _) .release => none
  | .pump (.delay d) _ => some d
  | _ => none

/-- The owner of the delivery that will look at the alarms again. -/
def Frame.scans : Frame κ → Bool
  | .pump _ .release => false
  | .pump _ _ => true
  | _ => false

def settledIn (st : List (Frame κ)) : List DelayRecord := st.filterMap Frame.settled

def unsettledIn (st : List (Frame κ)) : List DelayRecord := st.filterMap Frame.unsettled

def scans (st : List (Frame κ)) : Bool := st.any Frame.scans

@[simp] theorem settledIn_cons (f : Frame κ) (st : List (Frame κ)) :
    settledIn (f :: st) = f.settled.toList ++ settledIn st := by
  cases h : f.settled <;> simp [settledIn, h]

@[simp] theorem unsettledIn_cons (f : Frame κ) (st : List (Frame κ)) :
    unsettledIn (f :: st) = f.unsettled.toList ++ unsettledIn st := by
  cases h : f.unsettled <;> simp [unsettledIn, h]

@[simp] theorem scans_cons (f : Frame κ) (st : List (Frame κ)) :
    scans (f :: st) = (f.scans || scans st) := rfl

theorem plain_of_light {f : Frame κ} (h : f.light = true) :
    f.settled = none ∧ f.unsettled = none ∧ f.scans = false := by
  cases f with
  | pump c phase => cases h
  | enter c => cases c <;> simp_all [Frame.light, Frame.settled, Frame.unsettled, Frame.scans]
  | leave c => cases c <;> simp_all [Frame.light, Frame.settled, Frame.unsettled, Frame.scans]
  | _ => exact ⟨rfl, rfl, rfl⟩

theorem views_core (st : List (Frame κ)) : settledIn (core st) = settledIn st ∧
    unsettledIn (core st) = unsettledIn st ∧ scans (core st) = scans st := by
  induction st with
  | nil => exact ⟨rfl, rfl, rfl⟩
  | cons f st ih =>
    obtain ⟨h₁, h₂, h₃⟩ := ih
    cases hf : f.light with
    | false => simp [hf, h₁, h₂, h₃]
    | true =>
      obtain ⟨p₁, p₂, p₃⟩ := plain_of_light hf
      simp [hf, h₁, h₂, h₃, p₁, p₂, p₃]

theorem views_eq_of_core {st st' : List (Frame κ)} (h : core st' = core st) :
    settledIn st' = settledIn st ∧ unsettledIn st' = unsettledIn st ∧ scans st' = scans st := by
  obtain ⟨h₁, h₂, h₃⟩ := views_core st
  obtain ⟨h₁', h₂', h₃'⟩ := views_core st'
  exact ⟨by rw [← h₁', h, h₁], by rw [← h₂', h, h₂], by rw [← h₃', h, h₃]⟩

end Records

/-- How far a step other than the beginning of a delay moves the clock. -/
structure ClockMove (e : Event κ) (s s' : Shared κ) : Prop where
  autoSync : s'.service.clock.autoSync = s.service.clock.autoSync
  uptime_le : s.service.uptimeNs ≤ s'.service.uptimeNs
  reserved : s'.service.reservedUptimeNs = s.service.reservedUptimeNs ∨
    s'.service.reservedUptimeNs = max s.service.reservedUptimeNs s'.service.uptimeNs
  bounded : (∀ ns, e ≠ .lag ns) →
    s'.service.uptimeNs ≤ max s.service.uptimeNs s.service.reservedUptimeNs ∧
      s'.service.reservedUptimeNs = s.service.reservedUptimeNs

/-- A delay is settled by finding the delivery owned, or by finding nothing due. -/
def SettledBy (s : Shared κ) (e : Event κ) (st : List (Frame κ)) (s' : Shared κ)
    (d : DelayRecord) : Prop :=
  (e = .resume ∧ s.service.deliveryActive = true ∧ ∃ rest, st = .enter (.delay d) :: rest) ∨
    ∀ a ∈ s'.service.alarms, s'.service.uptimeNs < a.1 * kNanosPerMicrosecond

/-- What a step does to the delays: it moves at most one of them on. -/
inductive DelayMove (s : Shared κ) (e : Event κ) (st : List (Frame κ)) (s' : Shared κ)
    (st' : List (Frame κ)) : Prop where
  | same (hclock : ClockMove e s s') (hset : settledIn st' = settledIn st)
      (huns : unsettledIn st' = unsettledIn st)
      (hbegun : begunDelays s'.history = begunDelays s.history)
      (hret : returnedDelays s'.history = returnedDelays s.history)
  | begin (d : DelayRecord) (hs : s'.service = { s.service with
        clock := s.service.clock.read, reservedUptimeNs := d.targetNs })
      (hstart : d.startNs = s.service.read.uptimeNs) (htarget : d.targetNs =
        max s.service.read.uptimeNs s.service.reservedUptimeNs + d.durationNs)
      (hduration : 0 ≤ d.durationNs) (howed : d.owed = owedIds d.targetNs s.service)
      (hset : settledIn st' = settledIn st) (huns : unsettledIn st' = d :: unsettledIn st)
      (hbegun : begunDelays s'.history = d :: begunDelays s.history)
      (hret : returnedDelays s'.history = returnedDelays s.history)
  | settle (d : DelayRecord) (hclock : ClockMove e s s') (hset : settledIn st' = d :: settledIn st)
      (huns : unsettledIn st = d :: unsettledIn st') (hreach : d.targetNs ≤ s'.service.uptimeNs)
      (hby : SettledBy s e st s' d) (hbegun : begunDelays s'.history = begunDelays s.history)
      (hret : returnedDelays s'.history = returnedDelays s.history)
  | finish (d : DelayRecord) (hclock : ClockMove e s s') (hset : settledIn st = d :: settledIn st')
      (huns : unsettledIn st' = unsettledIn st)
      (hbegun : begunDelays s'.history = begunDelays s.history)
      (hret : returnedDelays s'.history = d :: returnedDelays s.history)

section Moves

variable {s s' : Shared κ} {e : Event κ}

theorem ClockMove.advance (hm : s.service.clock.autoSync = false) {limitNs : ℤ} {advanceTime : Bool}
    {p : Publication} (hp : Advance limitNs advanceTime s.service.clock p)
    (hlimit : advanceTime = true → limitNs ≤ s.service.reservedUptimeNs)
    (hclock : s'.service.clock = p)
    (hr : s'.service.reservedUptimeNs = s.service.reservedUptimeNs) : ClockMove e s s' := by
  subst hclock
  refine ⟨hp.autoSync, hp.uptime_le, Or.inl hr, fun _ => ⟨?_, hr⟩⟩
  cases advanceTime with
  | true => exact (hp.manual hm).trans (max_le_max_left _ (hlimit rfl))
  | false => exact (hp.still hm rfl).le.trans (le_max_left _ _)

theorem ClockMove.still (hclock : s'.service.clock = s.service.clock)
    (hr : s'.service.reservedUptimeNs = s.service.reservedUptimeNs) : ClockMove e s s' :=
  ⟨by rw [hclock], by simp [Service.uptimeNs, hclock], Or.inl hr,
    fun _ => ⟨by simp [Service.uptimeNs, hclock], hr⟩⟩

theorem Passive.uptimeNs {p q : Publication} (h : Passive p q) (hm : p.autoSync = false) :
    q.uptimeNs = p.uptimeNs ∧ q.autoSync = p.autoSync := by
  cases h with
  | same => exact ⟨rfl, rfl⟩
  | read => simp [Publication.read, hm]
  | tick ns => exact ⟨rfl, rfl⟩

theorem microsToNanos_nonneg {micros : ℕ} {durationNs : ℤ}
    (h : microsToNanos micros = some durationNs) : 0 ≤ durationNs := by
  unfold microsToNanos at h
  split at h
  · obtain rfl := Option.some.inj h
    simp [kNanosPerMicrosecond]
  · cases h

/-- In a running manual-time service every step is one of these moves. -/
theorem delayMove_of_effect {st st' : List (Frame κ)} (he : Effect s e st s' st')
    (ht : TableOk s.service) (hm : s.service.clock.autoSync = false)
    (hrun : s.service.state = .running)
    (hlimit : ∀ d ∈ unsettledIn st, d.targetNs ≤ s.service.reservedUptimeNs) :
    DelayMove s e st s' st' := by
  -- the limit of the innermost delivery, when it may advance the clock
  have limit : ∀ (c : Caller) (f : Frame κ) (rest : List (Frame κ)), st = f :: rest →
      (∀ d, c = .delay d → f.unsettled = some d) →
      c.advanceTime = true → c.limitNs ≤ s.service.reservedUptimeNs := by
    intro c f rest hst hf ha
    cases c with
    | delay d => exact hlimit d (by simp [hst, hf d rfl])
    | process limitNs => cases ha
    | worker limitNs => cases ha
  cases he with
  | quiet p hp hs hh hcore =>
    obtain ⟨hset, huns, -⟩ := views_eq_of_core hcore
    obtain ⟨hup, hauto⟩ := hp.uptimeNs hm
    refine .same ⟨?_, ?_, ?_, fun _ => ⟨?_, ?_⟩⟩ hset huns (by rw [hh]) (by rw [hh]) <;>
      simp [hs, Service.uptimeNs, hup, hauto]
  | schedule hs =>
    obtain ⟨-, -, -, -, rfl⟩ := schedule_eq_some.mp hs
    exact .same (.still rfl rfl) rfl rfl rfl rfl
  | cancel hc =>
    obtain ⟨-, rfl⟩ := ht.cancel_eq_true hc
    exact .same (.still rfl rfl) rfl rfl rfl rfl
  | delay hmicros hr hd =>
    obtain ⟨-, htarget, rfl⟩ := reserve_eq_some hr
    subst hd
    exact .begin _ rfl rfl htarget (microsToNanos_nonneg hmicros) rfl rfl rfl rfl rfl
  | lag hl =>
    obtain ⟨-, p, hp, rfl⟩ := add_eq_some hl
    exact .same ⟨hp.autoSync, hp.uptime_le, Or.inr rfl, fun hne => absurd rfl (hne _)⟩ rfl rfl rfl rfl
  | closing hc =>
    obtain ⟨-, -, rfl⟩ := tryBegin_eq_true hc
    exact .same (.still rfl rfl) rfl rfl rfl rfl
  | @own c service rest ho =>
    obtain ⟨-, -, rfl⟩ := enter_eq_true ho
    refine .same (.still rfl rfl) ?_ ?_ rfl rfl <;> cases c <;> rfl
  | @pass c service rest ho =>
    have hl := limit c (.enter c) rest rfl (by rintro d rfl; rfl)
    obtain ⟨p, hp, rfl, hreach⟩ := enter_eq_false ho
    have hclock : ClockMove .resume s { s with service := withClock p s.service } :=
      .advance hm hp hl rfl rfl
    cases c with
    | delay d =>
      exact .settle d hclock rfl rfl ((hreach hrun).2 rfl)
        (Or.inl ⟨rfl, (hreach hrun).1, rest, rfl⟩) rfl rfl
    | process limitNs => exact .same hclock rfl rfl rfl rfl
    | worker limitNs => exact .same hclock rfl rfl rfl rfl
  | @decide c service rest hc =>
    have hl := limit c (.pump c .claim) rest rfl (by rintro d rfl; rfl)
    obtain ⟨p, hp, ⟨-, rfl, hnone, hreach⟩ | ⟨first, rest, hr, -⟩⟩ := ht.claimDue_cases hc
    · have hclock : ClockMove .resume s { s with service := withClock p s.service } :=
        .advance hm hp hl rfl rfl
      cases c with
      | delay d => exact .settle d hclock rfl rfl (hreach rfl) (Or.inr hnone) rfl rfl
      | process limitNs => exact .same hclock rfl rfl rfl rfl
      | worker limitNs => exact .same hclock rfl rfl rfl rfl
    · cases hr
  | @claim c a service rest hc =>
    have hl := limit c (.pump c .claim) rest rfl (by rintro d rfl; rfl)
    obtain ⟨p, hp, ⟨hr, -⟩ | ⟨first, rest, -, -, -, rfl⟩⟩ := ht.claimDue_cases hc
    · cases hr
    · refine .same (.advance hm hp hl rfl rfl) ?_ ?_ rfl rfl <;> cases c <;> rfl
  | @invoke c a rest => refine .same (.still rfl rfl) ?_ ?_ rfl rfl <;> cases c <;> rfl
  | @ret c a rest => refine .same (.still rfl rfl) ?_ ?_ rfl rfl <;> cases c <;> rfl
  | @release c rest => refine .same (.still rfl rfl) ?_ ?_ rfl rfl <;> cases c <;> rfl
  | @returned d rest => exact .finish d (.still rfl rfl) rfl rfl rfl rfl
  | finish hclosing => exact absurd (hclosing.symm.trans hrun) (by decide)
  | discard =>
    refine .same (.still rfl rfl) rfl rfl ?_ ?_ <;>
      exact filterMap_discarded _ (fun _ => rfl) _ _

end Moves

/-- A delay that has published its target, whether it has returned or not. -/
def Settled (c : System κ) (d : DelayRecord) : Prop :=
  d ∈ returnedDelays c.shared.history ∨ ∃ t, d ∈ settledIn (c.thread t)

/-- The targets of the delays and the clock. -/
structure Targets (c : System κ) : Prop where
  manual : c.shared.service.clock.autoSync = false
  target : ∀ d ∈ begunDelays c.shared.history, d.startNs + d.durationNs ≤ d.targetNs ∧
    d.targetNs ≤ c.shared.service.reservedUptimeNs
  unsettled : ∀ t, ∀ d ∈ unsettledIn (c.thread t), d ∈ begunDelays c.shared.history
  settled : ∀ d, Settled c d → d ∈ begunDelays c.shared.history ∧
    d.targetNs ≤ c.shared.service.uptimeNs
  last : c.shared.service.reservedUptimeNs ≤ c.shared.service.uptimeNs ∨
    ∃ t, ∃ d ∈ unsettledIn (c.thread t), d.targetNs = c.shared.service.reservedUptimeNs

section Targets

variable {c : System κ} {t : ℕ} {e : Event κ} {s' : Shared κ} {st' : List (Frame κ)}

theorem targets_start {s : Service κ} (h : Idle s) : Targets (start s) := by
  have hnil : ∀ t, unsettledIn ((start s).thread t) = [] ∧ settledIn ((start s).thread t) = [] := by
    intro t
    by_cases ht : t = 0 <;> simp [start, ht, unsettledIn, settledIn, Frame.unsettled, Frame.settled]
  refine ⟨h.manual, by simp [start, begunDelays], fun t d hd => ?_, ?_, Or.inl h.reserved_le⟩
  · simp [(hnil t).1] at hd
  · rintro d (hd | ⟨t, hd⟩)
    · simp [start, returnedDelays] at hd
    · simp [(hnil t).2] at hd

theorem settled_update {d : DelayRecord} : Settled ⟨s', Function.update c.thread t st'⟩ d ↔
    d ∈ returnedDelays s'.history ∨ d ∈ settledIn st' ∨
      ∃ u, u ≠ t ∧ d ∈ settledIn (c.thread u) :=
  or_congr_right (exists_update (Q := fun st => d ∈ settledIn st))

/-- A step settles the delay that a move names, and no other. -/
theorem settled_of_move (hmove : DelayMove c.shared e (c.thread t) s' st') {d : DelayRecord}
    (h : Settled ⟨s', Function.update c.thread t st'⟩ d) :
    Settled c d ∨ d ∈ unsettledIn (c.thread t) ∧ d.targetNs ≤ s'.service.uptimeNs ∧
      SettledBy c.shared e (c.thread t) s' d := by
  rw [settled_update] at h
  cases hmove with
  | same hclock hset huns hbegun hret =>
    rw [hset, hret] at h
    exact Or.inl (h.imp_right (Or.elim · (⟨t, ·⟩) fun ⟨u, _, hd⟩ => ⟨u, hd⟩))
  | begin d' hs hstart htarget hduration howed hset huns hbegun hret =>
    rw [hset, hret] at h
    exact Or.inl (h.imp_right (Or.elim · (⟨t, ·⟩) fun ⟨u, _, hd⟩ => ⟨u, hd⟩))
  | settle d' hclock hset huns hreach hby hbegun hret =>
    rw [hset, hret, List.mem_cons] at h
    rcases h with hd | (rfl | hd) | ⟨u, -, hd⟩
    · exact Or.inl (Or.inl hd)
    · exact Or.inr ⟨by simp [huns], hreach, hby⟩
    · exact Or.inl (Or.inr ⟨t, hd⟩)
    · exact Or.inl (Or.inr ⟨u, hd⟩)
  | finish d' hclock hset huns hbegun hret =>
    rw [hret, List.mem_cons] at h
    rcases h with (rfl | hd) | hd | ⟨u, -, hd⟩
    · exact Or.inl (Or.inr ⟨t, by simp [hset]⟩)
    · exact Or.inl (Or.inl hd)
    · exact Or.inl (Or.inr ⟨t, by simp [hset, hd]⟩)
    · exact Or.inl (Or.inr ⟨u, hd⟩)

/-- Moves other than the beginning of a delay. -/
theorem Targets.move (h : Targets c) (hclock : ClockMove e c.shared s')
    (hmove : DelayMove c.shared e (c.thread t) s' st')
    (hbegun : begunDelays s'.history = begunDelays c.shared.history)
    (huns : ∀ d ∈ unsettledIn st', d ∈ unsettledIn (c.thread t))
    (hlost : ∀ d ∈ unsettledIn (c.thread t), d ∈ unsettledIn st' ∨
      d.targetNs ≤ s'.service.uptimeNs) :
    Targets ⟨s', Function.update c.thread t st'⟩ := by
  have hreserved : c.shared.service.reservedUptimeNs ≤ s'.service.reservedUptimeNs := by
    rcases hclock.reserved with hr | hr <;> omega
  refine ⟨hclock.autoSync.trans h.manual, fun d hd => ?_, fun u d hd => ?_, fun d hd => ?_, ?_⟩
  · obtain ⟨hstart, htarget⟩ := h.target d (hbegun ▸ hd)
    exact ⟨hstart, htarget.trans hreserved⟩
  · simp only [hbegun]
    by_cases hu : u = t
    · subst hu
      exact h.unsettled u d (huns d (by simpa using hd))
    · exact h.unsettled u d (by simpa [Function.update_of_ne hu] using hd)
  · simp only [hbegun]
    rcases settled_of_move hmove hd with hold | ⟨hold, hreach, -⟩
    · exact ⟨(h.settled d hold).1, (h.settled d hold).2.trans hclock.uptime_le⟩
    · exact ⟨h.unsettled t d hold, hreach⟩
  · -- the reservation stands, or a lag has carried the clock past it
    have hcase : s'.service.reservedUptimeNs = c.shared.service.reservedUptimeNs ∨
        s'.service.reservedUptimeNs ≤ s'.service.uptimeNs := by
      rcases hclock.reserved with hr | hr <;> omega
    rcases hcase with hr | hr
    · simp only [hr]
      rcases h.last with hlast | ⟨u, d, hd, htarget⟩
      · exact Or.inl (hlast.trans hclock.uptime_le)
      · by_cases hu : u = t
        · subst hu
          rcases hlost d hd with hd | hreach
          · exact Or.inr ⟨u, d, by simpa using hd, htarget⟩
          · exact Or.inl (htarget ▸ hreach)
        · exact Or.inr ⟨u, d, by simpa [Function.update_of_ne hu] using hd, htarget⟩
    · exact Or.inl hr

theorem Targets.begin (h : Targets c) {d : DelayRecord}
    (hmove : DelayMove c.shared e (c.thread t) s' st')
    (hs : s'.service = { c.shared.service with
      clock := c.shared.service.clock.read, reservedUptimeNs := d.targetNs })
    (hstart : d.startNs = c.shared.service.read.uptimeNs) (htarget : d.targetNs =
      max c.shared.service.read.uptimeNs c.shared.service.reservedUptimeNs + d.durationNs)
    (hduration : 0 ≤ d.durationNs) (huns : unsettledIn st' = d :: unsettledIn (c.thread t))
    (hbegun : begunDelays s'.history = d :: begunDelays c.shared.history) :
    Targets ⟨s', Function.update c.thread t st'⟩ := by
  have hread : c.shared.service.clock.read = c.shared.service.clock := by
    simp [Publication.read, h.manual]
  have hup : s'.service.uptimeNs = c.shared.service.uptimeNs := by
    rw [hs, Service.uptimeNs, hread]
  have hreserved : s'.service.reservedUptimeNs = d.targetNs := by rw [hs]
  have hgrow : c.shared.service.reservedUptimeNs ≤ d.targetNs := by omega
  refine ⟨?_, fun d' hd => ?_, fun u d' hd => ?_, fun d' hd => ?_, ?_⟩
  · simp only [hs, hread]
    exact h.manual
  · simp only [hreserved]
    rcases List.mem_cons.mp (hbegun ▸ hd) with rfl | hd
    · exact ⟨by omega, le_rfl⟩
    · exact ⟨(h.target d' hd).1, (h.target d' hd).2.trans hgrow⟩
  · simp only [hbegun]
    by_cases hu : u = t
    · subst hu
      simp only [Function.update_self, huns, List.mem_cons] at hd
      rcases hd with rfl | hd
      · exact List.mem_cons_self
      · exact List.mem_cons_of_mem _ (h.unsettled u d' hd)
    · exact List.mem_cons_of_mem _ (h.unsettled u d' (by simpa [Function.update_of_ne hu] using hd))
  · rcases settled_of_move hmove hd with hold | ⟨hold, hreach, -⟩
    · exact ⟨hbegun ▸ List.mem_cons_of_mem _ (h.settled d' hold).1,
        (h.settled d' hold).2.trans hup.ge⟩
    · exact ⟨hbegun ▸ List.mem_cons_of_mem _ (h.unsettled t d' hold), hreach⟩
  · exact Or.inr ⟨t, d, by simp [huns], hreserved.symm⟩

theorem Targets.step (h : Targets c) (ht : TableOk c.shared.service)
    (hrun : c.shared.service.state = .running) (he : Effect c.shared e (c.thread t) s' st') :
    Targets ⟨s', Function.update c.thread t st'⟩ := by
  have hmove := delayMove_of_effect he ht h.manual hrun fun d hd =>
    (h.target d (h.unsettled t d hd)).2
  cases id hmove with
  | same hclock hset huns hbegun hret =>
    exact h.move hclock hmove hbegun (by simp [huns]) fun d hd => Or.inl (huns ▸ hd)
  | begin d hs hstart htarget hduration howed hset huns hbegun hret =>
    exact h.begin hmove hs hstart htarget hduration huns hbegun
  | settle d hclock hset huns hreach hby hbegun hret =>
    refine h.move hclock hmove hbegun (fun d' hd => by simp [huns, hd]) fun d' hd => ?_
    rw [huns, List.mem_cons] at hd
    rcases hd with rfl | hd
    · exact Or.inr hreach
    · exact Or.inl hd
  | finish d hclock hset huns hbegun hret =>
    exact h.move hclock hmove hbegun (by simp [huns]) fun d hd => Or.inl (huns ▸ hd)

/-- Without lag the furthest instant reached or reserved is the sum of the delays. -/
theorem total_step (h : Targets c) (ht : TableOk c.shared.service)
    (hrun : c.shared.service.state = .running) (he : Effect c.shared e (c.thread t) s' st')
    (hlag : ∀ ns, e ≠ .lag ns) {originNs : ℤ}
    (htotal : max c.shared.service.uptimeNs c.shared.service.reservedUptimeNs =
      originNs + ((begunDelays c.shared.history).map DelayRecord.durationNs).sum) :
    max s'.service.uptimeNs s'.service.reservedUptimeNs =
      originNs + ((begunDelays s'.history).map DelayRecord.durationNs).sum := by
  have hmove := delayMove_of_effect he ht h.manual hrun fun d hd =>
    (h.target d (h.unsettled t d hd)).2
  have still : ClockMove e c.shared s' →
      begunDelays s'.history = begunDelays c.shared.history →
      max s'.service.uptimeNs s'.service.reservedUptimeNs =
        originNs + ((begunDelays s'.history).map DelayRecord.durationNs).sum := by
    intro hclock hbegun
    obtain ⟨hup, hr⟩ := hclock.bounded hlag
    have hle := hclock.uptime_le
    rw [hbegun, ← htotal]
    omega
  cases hmove with
  | same hclock hset huns hbegun hret => exact still hclock hbegun
  | begin d hs hstart htarget hduration howed hset huns hbegun hret =>
    have hread : c.shared.service.clock.read = c.shared.service.clock := by
      simp [Publication.read, h.manual]
    have hup : c.shared.service.read.uptimeNs = c.shared.service.uptimeNs := by
      simp [Service.read, Service.uptimeNs, hread]
    have hup' : s'.service.uptimeNs = c.shared.service.uptimeNs := by
      rw [hs, Service.uptimeNs, hread]
    have hr' : s'.service.reservedUptimeNs = d.targetNs := by rw [hs]
    rw [hbegun, List.map_cons, List.sum_cons, hr', hup']
    omega
  | settle d hclock hset huns hreach hby hbegun hret => exact still hclock hbegun
  | finish d hclock hset huns hbegun hret => exact still hclock hbegun

end Targets

section Debts

/-- What the delays owe are alarms of the ledger that were due by their targets. -/
structure Debts (before : List ℕ) (c : System κ) : Prop where
  known : ∀ d ∈ begunDelays c.shared.history, ∀ id ∈ d.owed,
    id ∈ before ++ scheduledIds c.shared.history
  due : ∀ d ∈ begunDelays c.shared.history, ∀ e ∈ c.shared.service.alarms, e.2.id ∈ d.owed →
    e.1 * kNanosPerMicrosecond ≤ d.targetNs

variable {c : System κ} {t : ℕ} {e : Event κ} {s s' : Shared κ} {st st' : List (Frame κ)}
  {before : List ℕ}

/-- An alarm in the table was there before the step, or the step has issued its id. -/
theorem alarms_of_effect (he : Effect s e st s' st') (ht : TableOk s.service)
    {a : ℤ × AlarmNode κ} (ha : a ∈ s'.service.alarms) :
    a ∈ s.service.alarms ∨ a.2.id = issued s.service := by
  cases he with
  | quiet p hp hs hh hcore => exact Or.inl (by simpa [hs] using ha)
  | schedule hs =>
    obtain ⟨-, -, h0, -, rfl⟩ := schedule_eq_some.mp hs
    rcases mem_alarms_register.mp ha with rfl | ha
    · exact Or.inr (by simp [issued, h0])
    · exact Or.inl ha
  | cancel hc =>
    obtain ⟨-, rfl⟩ := ht.cancel_eq_true hc
    exact Or.inl (mem_alarms_eraseId.mp ha).1
  | delay hmicros hr hd =>
    obtain ⟨-, -, rfl⟩ := reserve_eq_some hr
    exact Or.inl ha
  | lag hl =>
    obtain ⟨-, p, -, rfl⟩ := add_eq_some hl
    exact Or.inl ha
  | closing hc =>
    obtain ⟨-, -, rfl⟩ := tryBegin_eq_true hc
    exact Or.inl ha
  | own ho =>
    obtain ⟨-, -, rfl⟩ := enter_eq_true ho
    exact Or.inl ha
  | pass ho =>
    obtain ⟨p, -, rfl, -⟩ := enter_eq_false ho
    exact Or.inl ha
  | decide hc =>
    obtain ⟨p, -, ⟨-, rfl, -⟩ | ⟨first, rest, hr, -⟩⟩ := ht.claimDue_cases hc
    · exact Or.inl ha
    · cases hr
  | claim hc =>
    obtain ⟨p, -, ⟨hr, -⟩ | ⟨first, rest, -, -, -, rfl⟩⟩ := ht.claimDue_cases hc
    · cases hr
    · exact Or.inl (mem_alarms_eraseId.mp ha).1
  | discard => cases ha
  | _ => exact Or.inl ha

/-- An alarm that was known before the step is in the table after it only if it was before. -/
theorem Ledger.alarms_of_known (h : Ledger before s) (he : Effect s e st s' st')
    {a : ℤ × AlarmNode κ} (ha : a ∈ s'.service.alarms)
    (hid : a.2.id ∈ before ++ scheduledIds s.history) : a ∈ s.service.alarms := by
  rcases alarms_of_effect he h.table ha with hold | hnew
  · exact hold
  · exact absurd (hnew ▸ (h.issued _ hid).2) (lt_irrefl _)

theorem scheduledIds_effect (he : Effect s e st s' st') {id : ℕ}
    (hid : id ∈ scheduledIds s.history) : id ∈ scheduledIds s'.history := by
  cases he with
  | quiet p hp hs hh hcore => rwa [hh]
  | schedule hs => exact List.mem_cons_of_mem _ hid
  | discard =>
    have hkeep : scheduledIds (AlarmThreads.discard s).history = scheduledIds s.history :=
      filterMap_discarded _ (fun _ => rfl) _ _
    rwa [hkeep]
  | _ => exact hid

theorem Debts.step (h : Debts before c) (hl : Ledger before c.shared) (hm : Targets c)
    (hrun : c.shared.service.state = .running) (he : Effect c.shared e (c.thread t) s' st') :
    Debts before ⟨s', Function.update c.thread t st'⟩ := by
  have grow : ∀ id ∈ before ++ scheduledIds c.shared.history,
      id ∈ before ++ scheduledIds s'.history := by
    intro id hid
    rw [List.mem_append] at hid ⊢
    exact hid.imp_right (scheduledIds_effect he)
  have old : ∀ d ∈ begunDelays c.shared.history,
      (∀ id ∈ d.owed, id ∈ before ++ scheduledIds s'.history) ∧
        ∀ a ∈ s'.service.alarms, a.2.id ∈ d.owed → a.1 * kNanosPerMicrosecond ≤ d.targetNs :=
    fun d hd => ⟨fun id hid => grow id (h.known d hd id hid), fun a ha hid =>
      h.due d hd a (hl.alarms_of_known he ha (h.known d hd _ hid)) hid⟩
  have same : begunDelays s'.history = begunDelays c.shared.history →
      Debts before ⟨s', Function.update c.thread t st'⟩ := fun hbegun =>
    ⟨fun d hd => (old d (hbegun ▸ hd)).1, fun d hd => (old d (hbegun ▸ hd)).2⟩
  have hmove := delayMove_of_effect he hl.table hm.manual hrun fun d hd =>
    (hm.target d (hm.unsettled t d hd)).2
  cases hmove with
  | same hclock hset huns hbegun hret => exact same hbegun
  | settle d hclock hset huns hreach hby hbegun hret => exact same hbegun
  | finish d hclock hset huns hbegun hret => exact same hbegun
  | begin d hs hstart htarget hduration howed hset huns hbegun hret =>
    have hnew : ∀ id ∈ d.owed, ∃ a ∈ c.shared.service.alarms,
        a.1 * kNanosPerMicrosecond ≤ d.targetNs ∧ a.2.id = id := by
      intro id hid
      rw [howed] at hid
      obtain ⟨a, ha, rfl⟩ := List.mem_map.mp hid
      obtain ⟨ha, hdue⟩ := List.mem_filter.mp ha
      exact ⟨a, ha, by simpa using hdue, rfl⟩
    refine ⟨fun d' hd => ?_, fun d' hd => ?_⟩
    · rcases List.mem_cons.mp (hbegun ▸ hd) with rfl | hd
      · intro id hid
        obtain ⟨a, ha, -, rfl⟩ := hnew id hid
        refine grow _ (hl.balance.mem_iff.mp ?_)
        simp only [List.append_assoc, List.mem_append]
        exact Or.inl (List.mem_map.mpr ⟨a, ha, rfl⟩)
      · exact (old d' hd).1
    · rcases List.mem_cons.mp (hbegun ▸ hd) with rfl | hd
      · intro a ha hid
        obtain ⟨b, hb, hdue, hbid⟩ := hnew _ hid
        rw [hs] at ha
        rwa [hl.table.eq_of_id ha hb hbid.symm]
      · exact (old d' hd).2

end Debts

end RooTesting.AlarmThreads
