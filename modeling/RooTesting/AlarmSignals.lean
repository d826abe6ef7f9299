import RooTesting.AlarmInvocations

/-! # Notifications and views of the alarm worker

What a step does to the wake generation, to the notifications in progress and to what
the worker goes by. A step that outdates the worker's view has a notification ahead. -/
namespace RooTesting.AlarmThreads
open Transition Threads AlarmService AlarmTable

variable {κ : Type}

/-- What the worker goes by, once it has read it. -/
def Frame.view : Frame κ → Option WorkerView
  | .workerCheck v => some v
  | .workerHolding v => some v
  | .workerBlocked v => some v
  | _ => none

/-- The frames of the worker's own loop. -/
def Frame.worker : Frame κ → Bool
  | .enter (.worker _) => true
  | .pump (.worker _) _ => true
  | .leave (.worker _) => true
  | .workerLoop => true
  | .workerRead => true
  | .workerCheck _ => true
  | .workerHolding _ => true
  | .workerBlocked _ => true
  | .workerExited => true
  | _ => false

def workerFrames (st : List (Frame κ)) : ℕ := st.countP Frame.worker

@[simp] theorem workerFrames_cons (f : Frame κ) (st : List (Frame κ)) :
    workerFrames (f :: st) = workerFrames st + if f.worker then 1 else 0 := by
  cases h : f.worker <;> simp [workerFrames, h]

/-- The view describes the service as it is, as far as the wait goes by it. -/
def Current (v : WorkerView) (s : Service κ) : Prop :=
  s.state = .running ∧ (s.alarms = [] ∨ s.deliveryActive = true ∨
    ∃ first rest, s.alarms = first :: rest ∧ v.waitForDeadline = true ∧ v.deadlineUs = first.1)

/-- The notifications and views of a thread after a step, against those before it. -/
structure Plain (s s' : Shared κ) (st st' : List (Frame κ)) : Prop where
  generation : s'.generation = s.generation
  waiter : s'.waiter = s.waiter
  notify : .notify ∈ st → .notify ∈ st'
  broadcast : ∀ k, .broadcast k ∈ st → .broadcast k ∈ st'
  views : ∀ f ∈ st', f.view.isSome → f ∈ st
  count : workerFrames st' = workerFrames st

/-- What a step does to the generation, the notifications and the worker's wait. -/
inductive Signal (s : Shared κ) : Event κ → List (Frame κ) → Shared κ → List (Frame κ) → Prop where
  | plain {e st s' st'} (h : Plain s s' st st') : Signal s e st s' st'
  | increment {rest} : Signal s .resume (.notify :: rest) { s with generation := s.generation + 1 }
      (.broadcast (s.generation + 1) :: rest)
  | broadcast {k rest} : Signal s .resume (.broadcast k :: rest) { s with waiter := none } rest
  | wake {st} : Signal s .wake st { s with waiter := none } st
  | look {v s' rest} (hg : s'.generation = s.generation) (hw : s'.waiter = s.waiter)
      (hv : v.generation = s.generation) (hc : Current v s'.service)
      (hd : v.waitForDeadline = true → s'.service.uptimeNs < v.deadlineUs * kNanosPerMicrosecond) :
      Signal s .resume (.workerLoop :: rest) s' (.workerCheck v :: rest)
  | check {v rest} (h : s.generation % uint64Size = v.generation % uint64Size) :
      Signal s .resume (.workerCheck v :: rest) s (.workerHolding v :: rest)
  | block {v d rest} (h : waitDeadline v s.service = some d) :
      Signal s .resume (.workerHolding v :: rest) { s with waiter := some d } (.workerBlocked v :: rest)

section Signals

variable {s s' : Shared κ} {rest st st' : List (Frame κ)} {e : Event κ}

/-- A step that makes a view outdated has its notification before it. -/
theorem current_of_effect (he : Effect s e st s' st') (ht : TableOk s.service)
    (hjoin : ∀ j, .finishJoin j ∈ st → s.service.state ≠ .running) :
    .notify ∈ st' ∨ ∀ v, Current v s.service → Current v s'.service := by
  cases he with
  | quiet p hp hs hh hcore => exact Or.inr fun v hv => by simpa [Current, hs] using hv
  | delay hm hr hd =>
    obtain ⟨-, -, rfl⟩ := reserve_eq_some hr
    exact Or.inr fun v hv => hv
  | own ho =>
    obtain ⟨hrun, -, rfl⟩ := enter_eq_true ho
    exact Or.inr fun v hv => ⟨hrun, Or.inr (Or.inl rfl)⟩
  | pass ho =>
    obtain ⟨p, -, rfl, -⟩ := enter_eq_false ho
    exact Or.inr fun v hv => hv
  | decide hc =>
    obtain ⟨p, -, ⟨-, rfl, -⟩ | ⟨first, rest, hr, -⟩⟩ := ht.claimDue_cases hc
    · exact Or.inr fun v hv => hv
    · cases hr
  | invoke => exact Or.inr fun v hv => hv
  | ret => exact Or.inr fun v hv => hv
  | returned => exact Or.inr fun v hv => hv
  | finish hclosing => exact Or.inr fun v hv => hv
  | discard => exact Or.inr fun v hv => absurd hv.1 (hjoin _ List.mem_cons_self)
  | _ => exact Or.inl List.mem_cons_self

theorem Passive.keeps {p q : Publication} (h : Passive p q) :
    q.hostOriginNs = p.hostOriginNs ∧ p.uptimeNs ≤ q.uptimeNs := by
  cases h with
  | same => exact ⟨rfl, le_rfl⟩
  | read => exact ⟨(Advance.read 0 false p).origin, (Advance.read 0 false p).uptime_le⟩
  | tick ns => exact ⟨rfl, le_rfl⟩

/-- The host origin is fixed and the uptime does not decrease, in either time mode. -/
theorem clock_of_effect (he : Effect s e st s' st') (ht : TableOk s.service) :
    s'.service.clock.hostOriginNs = s.service.clock.hostOriginNs ∧
      s.service.uptimeNs ≤ s'.service.uptimeNs := by
  cases he with
  | quiet p hp hs hh hcore =>
    obtain ⟨horigin, hup⟩ := hp.keeps
    simpa [hs, Service.uptimeNs] using ⟨horigin, hup⟩
  | schedule hs =>
    obtain ⟨-, -, -, -, rfl⟩ := schedule_eq_some.mp hs
    exact ⟨rfl, le_rfl⟩
  | cancel hc =>
    obtain ⟨-, rfl⟩ := ht.cancel_eq_true hc
    exact ⟨rfl, le_rfl⟩
  | delay hm hr hd =>
    obtain ⟨-, -, rfl⟩ := reserve_eq_some hr
    exact Passive.keeps .read
  | lag hl =>
    obtain ⟨-, p, hp, rfl⟩ := add_eq_some hl
    exact ⟨hp.origin, hp.uptime_le⟩
  | closing hc =>
    obtain ⟨-, -, rfl⟩ := tryBegin_eq_true hc
    exact ⟨rfl, le_rfl⟩
  | own ho =>
    obtain ⟨-, -, rfl⟩ := enter_eq_true ho
    exact ⟨rfl, le_rfl⟩
  | pass ho =>
    obtain ⟨p, hp, rfl, -⟩ := enter_eq_false ho
    exact ⟨hp.origin, hp.uptime_le⟩
  | decide hc =>
    obtain ⟨p, hp, ⟨-, rfl, -⟩ | ⟨first, rest, hr, -⟩⟩ := ht.claimDue_cases hc
    · exact ⟨hp.origin, hp.uptime_le⟩
    · cases hr
  | claim hc =>
    obtain ⟨p, hp, ⟨hr, -⟩ | ⟨first, rest, -, -, -, rfl⟩⟩ := ht.claimDue_cases hc
    · cases hr
    · exact ⟨hp.origin, hp.uptime_le⟩
  | _ => exact ⟨rfl, le_rfl⟩

/-- Frames that neither notify nor wait, put in the place of others of that kind. -/
theorem Plain.replace {f : Frame κ} {l : List (Frame κ)} (hg : s'.generation = s.generation)
    (hw : s'.waiter = s.waiter) (hf : f ≠ .notify) (hk : ∀ k, f ≠ .broadcast k)
    (hv : ∀ g ∈ l, g.view = none) (hn : workerFrames l = workerFrames [f]) :
    Plain s s' (f :: rest) (l ++ rest) := by
  refine ⟨hg, hw, fun h => ?_, fun k h => ?_, fun g hmem hsome => ?_, ?_⟩
  · exact List.mem_append_right _ ((List.mem_cons.mp h).resolve_left (Ne.symm hf))
  · exact List.mem_append_right _ ((List.mem_cons.mp h).resolve_left (Ne.symm (hk k)))
  · rcases List.mem_append.mp hmem with h | h
    · simp [hv g h] at hsome
    · exact List.mem_cons_of_mem _ h
  · have happ : workerFrames (l ++ rest) = workerFrames l + workerFrames rest := List.countP_append ..
    rw [happ, hn, workerFrames_cons, workerFrames_cons]
    simp [workerFrames, Nat.add_comm]

theorem Plain.push {l : List (Frame κ)} (hg : s'.generation = s.generation)
    (hw : s'.waiter = s.waiter) (hv : ∀ g ∈ l, g.view = none) (hn : workerFrames l = 0) :
    Plain s s' st (l ++ st) := by
  refine ⟨hg, hw, List.mem_append_right _, fun k => List.mem_append_right _, fun g hmem hsome => ?_, ?_⟩
  · rcases List.mem_append.mp hmem with h | h
    · simp [hv g h] at hsome
    · exact h
  · have happ : workerFrames (l ++ st) = workerFrames l + workerFrames st := List.countP_append ..
    rw [happ, hn, Nat.zero_add]

theorem signal_workerLoop {f : Frame κ} (h : workerLoop s = some (s', f)) :
    Signal s .resume (.workerLoop :: rest) s' (f :: rest) := by
  unfold workerLoop at h
  split at h
  · rename_i hrun
    split at h
    · rename_i hnil
      obtain ⟨rfl, rfl⟩ := Prod.mk.inj (Option.some.inj h)
      exact .look rfl rfl rfl ⟨hrun, Or.inl hnil⟩ (by simp)
    · rename_i first tail hs
      obtain ⟨deadlineNs, hd, h⟩ := Option.map_eq_some_iff.mp h
      obtain rfl := alarmMicrosToNanos_eq_some hd
      dsimp only at h
      split at h
      · obtain ⟨rfl, rfl⟩ := Prod.mk.inj h
        exact .plain (.replace (l := [.workerRead]) rfl rfl (by simp) (by simp)
          (by simp [Frame.view]) rfl)
      · rename_i hnot
        obtain ⟨rfl, rfl⟩ := Prod.mk.inj h
        refine .look rfl rfl rfl ⟨hrun, Or.inr ?_⟩ fun hwait => ?_
        · cases hactive : s.service.deliveryActive with
          | true => exact Or.inl hactive
          | false => exact Or.inr ⟨first, tail, hs, by simp [Service.read, hactive], rfl⟩
        · exact not_le.mp fun hdue => hnot ⟨hdue, by simpa using hwait⟩
  · obtain ⟨rfl, rfl⟩ := Prod.mk.inj (Option.some.inj h)
    exact .plain (.replace (l := [.workerExited]) rfl rfl (by simp) (by simp)
      (by simp [Frame.view]) rfl)

theorem signal_pump {c : Caller} {phase : Phase κ}
    (h : resume s rest (.pump c phase) = some (s', st')) :
    Plain s s' (.pump c phase :: rest) st' := by
  have hworker : ∀ phase' : Phase κ, workerFrames [.pump c phase'] = workerFrames [.pump c phase] := by
    intro phase'
    cases c <;> rfl
  cases phase with
  | claim =>
    simp only [resume] at h
    split at h
    · cases h
    · obtain ⟨rfl, rfl⟩ := Prod.mk.inj (Option.some.inj h)
      exact .replace (l := [.pump c .release]) rfl rfl (by simp) (by simp) (by simp [Frame.view])
        (hworker _)
    · rename_i deadlineUs a service hc
      obtain ⟨rfl, rfl⟩ := Prod.mk.inj (Option.some.inj h)
      exact .replace (l := [.notify, .pump c (.invoke a.toAlarmRecord)]) rfl rfl (by simp) (by simp)
        (by simp [Frame.view]) (hworker _)
  | invoke a =>
    obtain ⟨rfl, rfl⟩ := Prod.mk.inj (Option.some.inj h)
    exact .replace (l := [.pump c (.running a)]) rfl rfl (by simp) (by simp) (by simp [Frame.view])
      (hworker _)
  | running a =>
    obtain ⟨rfl, rfl⟩ := Prod.mk.inj (Option.some.inj h)
    exact .replace (l := [.pump c .claim]) rfl rfl (by simp) (by simp) (by simp [Frame.view])
      (hworker _)
  | release =>
    obtain ⟨rfl, rfl⟩ := Prod.mk.inj (Option.some.inj h)
    refine .replace (l := [.notify, .leave c]) rfl rfl (by simp) (by simp) (by simp [Frame.view]) ?_
    cases c <;> rfl

theorem signal_resume {f : Frame κ} (h : resume s rest f = some (s', st')) :
    Signal s .resume (f :: rest) s' st' := by
  cases f with
  | notify =>
    obtain ⟨rfl, rfl⟩ := Prod.mk.inj (Option.some.inj h)
    exact .increment
  | broadcast ticket =>
    obtain ⟨rfl, rfl⟩ := Prod.mk.inj (Option.some.inj h)
    exact .broadcast
  | enter c =>
    obtain ⟨rfl, rfl⟩ := Prod.mk.inj (Option.some.inj h)
    refine .plain (.replace (l := [_]) rfl rfl (by simp) (by simp) ?_ ?_)
    · split <;> simp [Frame.view]
    · split <;> cases c <;> rfl
  | pump c phase => exact .plain (signal_pump h)
  | leave c =>
    cases c with
    | delay d =>
      obtain ⟨rfl, rfl⟩ := Prod.mk.inj (Option.some.inj h)
      exact .plain (.replace (l := []) rfl rfl (by simp) (by simp) (by simp) rfl)
    | process limitNs =>
      obtain ⟨rfl, rfl⟩ := Prod.mk.inj (Option.some.inj h)
      exact .plain (.replace (l := []) rfl rfl (by simp) (by simp) (by simp) rfl)
    | worker limitNs =>
      obtain ⟨rfl, rfl⟩ := Prod.mk.inj (Option.some.inj h)
      exact .plain (.replace (l := [.workerLoop]) rfl rfl (by simp) (by simp) (by simp [Frame.view])
        rfl)
  | processRead =>
    obtain ⟨rfl, rfl⟩ := Prod.mk.inj (Option.some.inj h)
    exact .plain (.replace (l := [_]) rfl rfl (by simp) (by simp) (by simp [Frame.view]) rfl)
  | finishJoin joinWorker =>
    simp only [resume] at h
    split at h
    · cases h
    · obtain ⟨rfl, rfl⟩ := Prod.mk.inj (Option.some.inj h)
      exact .plain (.replace (l := []) rfl rfl (by simp) (by simp) (by simp) rfl)
  | workerLoop =>
    simp only [resume] at h
    split at h
    · obtain ⟨⟨t, f⟩, hr, h⟩ := Option.map_eq_some_iff.mp h
      obtain ⟨rfl, rfl⟩ := Prod.mk.inj h
      exact signal_workerLoop hr
    · cases h
  | workerRead =>
    obtain ⟨rfl, rfl⟩ := Prod.mk.inj (Option.some.inj h)
    exact .plain (.replace (l := [_]) rfl rfl (by simp) (by simp) (by simp [Frame.view]) rfl)
  | workerCheck v =>
    simp only [resume] at h
    split at h
    · rename_i heq
      obtain ⟨rfl, rfl⟩ := Prod.mk.inj (Option.some.inj h)
      exact .check heq
    · obtain ⟨rfl, rfl⟩ := Prod.mk.inj (Option.some.inj h)
      exact .plain (.replace (l := [.workerLoop]) rfl rfl (by simp) (by simp) (by simp [Frame.view])
        rfl)
  | workerHolding v =>
    obtain ⟨d, hd, h⟩ := Option.map_eq_some_iff.mp h
    obtain ⟨rfl, rfl⟩ := Prod.mk.inj h
    exact .block hd
  | workerBlocked v =>
    simp only [resume] at h
    split at h
    · obtain ⟨rfl, rfl⟩ := Prod.mk.inj (Option.some.inj h)
      exact .plain (.replace (l := [.workerLoop]) rfl rfl (by simp) (by simp) (by simp [Frame.view])
        rfl)
    · cases h
  | workerExited => cases h

/-- A call begins with at most one frame on top of its caller's, and never with the worker's. -/
theorem signal_begin {e : Event κ} (h : begin s st e = some (s', st')) : Plain s s' st st' := by
  have same : Plain s s st st := .push (l := []) rfl rfl (by simp) rfl
  cases e with
  | schedule deadlineUs callback =>
    obtain ⟨r, -, h⟩ := Option.map_eq_some_iff.mp h
    obtain ⟨rfl, rfl⟩ := Prod.mk.inj h
    exact .push (l := [.notify]) rfl rfl (by simp [Frame.view]) rfl
  | cancel id =>
    simp only [begin] at h
    split at h
    · obtain ⟨rfl, rfl⟩ := Prod.mk.inj (Option.some.inj h)
      exact .push (l := [.notify]) rfl rfl (by simp [Frame.view]) rfl
    · obtain ⟨rfl, rfl⟩ := Prod.mk.inj (Option.some.inj h)
      exact same
  | delay micros =>
    obtain ⟨durationNs, -, h⟩ := Option.bind_eq_some_iff.mp h
    obtain ⟨r, -, h⟩ := Option.map_eq_some_iff.mp h
    obtain ⟨rfl, rfl⟩ := Prod.mk.inj h
    exact .push (l := [_]) rfl rfl (by simp [Frame.view]) rfl
  | lag ns =>
    simp only [begin] at h
    split at h
    · obtain ⟨service, -, h⟩ := Option.map_eq_some_iff.mp h
      obtain ⟨rfl, rfl⟩ := Prod.mk.inj h
      exact .push (l := [.notify]) rfl rfl (by simp [Frame.view]) rfl
    · cases h
  | process =>
    obtain ⟨rfl, rfl⟩ := Prod.mk.inj (Option.some.inj h)
    split
    · exact .push (l := [.processRead]) rfl rfl (by simp [Frame.view]) rfl
    · exact same
  | read =>
    obtain ⟨rfl, rfl⟩ := Prod.mk.inj (Option.some.inj h)
    exact .push (l := []) rfl rfl (by simp) rfl
  | tryBegin =>
    simp only [begin] at h
    split at h
    · obtain ⟨rfl, rfl⟩ := Prod.mk.inj (Option.some.inj h)
      exact .push (l := [.notify]) rfl rfl (by simp [Frame.view]) rfl
    · obtain ⟨rfl, rfl⟩ := Prod.mk.inj (Option.some.inj h)
      exact same
  | finish =>
    simp only [begin] at h
    split at h
    · obtain ⟨rfl, rfl⟩ := Prod.mk.inj (Option.some.inj h)
      exact .push (l := [_]) rfl rfl (by simp [Frame.view]) rfl
    · cases h
  | resume => cases h
  | wake => cases h
  | tick ns => cases h

theorem signal_of_step {e : Event κ} (h : step e s st = some (s', st')) : Signal s e st s' st' := by
  unfold step at h
  split at h
  · exact signal_resume h
  · cases h
  · split at h
    · obtain ⟨rfl, rfl⟩ := Prod.mk.inj (Option.some.inj h)
      exact .wake
    · cases h
  · obtain ⟨rfl, rfl⟩ := Prod.mk.inj (Option.some.inj h)
    exact .plain (.push (l := []) rfl rfl (by simp) rfl)
  · split at h
    · exact .plain (signal_begin h)
    · cases h

end Signals

end RooTesting.AlarmThreads
