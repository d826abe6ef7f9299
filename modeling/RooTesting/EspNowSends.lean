import RooTesting.EspNow
import RooTesting.Threads

/-! # Sends of wireless datagrams

A send hands its data to each of its devices and then confirms, whatever other tasks do meanwhile.
Each device gets from each task what the task has sent to it, in order. -/
namespace RooTesting.EspNow
open Transition Lifecycles

variable {s s' : State} {devices : List (BitVec 64)} {must : Bool} {t : ℕ}

/-- What a task has still to do for its send. -/
inductive Life where
  | idle
  | owes (rest : List (BitVec 64)) (mac : BitVec 64) (data : Bytes) (confirmed : Bool)
  | failed (err : EspErr)
  deriving DecidableEq

/-- The devices that a send goes to, or why it fails. -/
def verdict (devices : List (BitVec 64)) (addr : Option Mac) (data : Option Bytes) :
    Except EspErr (List (BitVec 64)) :=
  match data with
  | none => .error .arg
  | some data =>
    if data.length = 0 ∨ maxDataLenV2 < data.length then .error .arg
    else ((targets devices (destination addr)).map Except.ok).getD (.error .notFound)

/-- One send at a time: all devices in turn, at most one confirmation with the address that was
sent to, and the return. With `must` set a success is always confirmed. -/
def Life.next (devices : List (BitVec 64)) (must : Bool) : Life → Mark → Option Life
  | .idle, .send addr data =>
    match verdict devices addr data with
    | .error err => some (.failed err)
    | .ok rest => some (.owes rest (destination addr) (data.getD []) false)
  | .failed err, .returned err' => if err' = err then some .idle else none
  | .owes (device :: rest) mac data false, .handed device' data' =>
    if device' = device ∧ data' = data then some (.owes rest mac data false) else none
  | .owes [] mac data false, .confirmed _ destination success =>
    if destination = getMac mac ∧ success = true then some (.owes [] mac data true) else none
  | .owes [] _ _ confirmed, .returned err =>
    if err = .ok ∧ (must = true → confirmed = true) then some .idle else none
  | _, _ => none

/-- Where a task is, seen as a life. -/
def Task.Living (must : Bool) : Task → Life → Prop
  | .handing rest mac data, life => life = .owes rest mac data false
  | .holding mac, life => ∃ data, life = .owes [] mac data false
  | .copied mac _, life => ∃ data, life = .owes [] mac data false
  | .returning, life =>
    ∃ mac data confirmed, life = .owes [] mac data confirmed ∧ (must = true → confirmed = true)
  | _, life => life = .idle

def Task.ClearsSend : Task → Prop
  | .sendUnregistering | .deinitSend | .deinitClear => True
  | _ => False

def Act.ClearsSend : Act → Prop
  | .begin _ .unregisterSend | .begin _ .deinit => True
  | _ => False

/-- Both callbacks are set and no task is about to clear one. -/
structure SendRegistered (s : State) : Prop where
  onSentCb : s.onSentCb = true
  sendCallback : s.sendCallback ≠ none
  task : ∀ t, ¬ (s.task t).ClearsSend

/-- Nothing changes for the tasks. -/
structure Elsewhere (s s' : State) : Prop where
  devices : s'.devices = s.devices
  onSentCb : s'.onSentCb = s.onSentCb
  sendCallback : s'.sendCallback = s.sendCallback
  task : s'.task = s.task
  log : s'.log = s.log

theorem incoming_elsewhere (peer : BitVec 64) (data : Bytes) :
    Elsewhere s (s.incoming peer data) := by
  unfold State.incoming
  split_ifs <;> exact ⟨rfl, rfl, rfl, rfl, rfl⟩

theorem processInbox_elsewhere (h : s.processInbox = some s') : Elsewhere s s' := by
  unfold State.processInbox at h
  split at h
  · split at h
    · cases h
    · split_ifs at h <;> obtain rfl := Option.some.inj h <;> exact ⟨rfl, rfl, rfl, rfl, rfl⟩
  · split at h <;> obtain rfl := Option.some.inj h <;> exact ⟨rfl, rfl, rfl, rfl, rfl⟩
  · obtain rfl := Option.some.inj h
    exact ⟨rfl, rfl, rfl, rfl, rfl⟩
  · obtain rfl := Option.some.inj h
    exact ⟨rfl, rfl, rfl, rfl, rfl⟩
  · cases h

/-- A section of task `t`, which leaves `ms` in the log. -/
structure Own (t : ℕ) (ms : List Mark) (s s' : State) : Prop where
  devices : s'.devices = s.devices
  task : ∀ u, u ≠ t → s'.task u = s.task u
  log : s'.log = ms.map (⟨t, ·⟩) ++ s.log

/-- A section that a life allows. -/
def Section (must : Bool) (t : ℕ) (life : Life) (s s' : State) : Prop :=
  ∃ ms life', Own t ms s s' ∧ replay (Life.next s.devices must) life ms = some life' ∧
    (s'.task t).Living must life'

theorem begin_section (hidle : s.task t = .idle) (call : ApiCall) :
    Section must t .idle s (s.begin t call) := by
  have hstays : ∀ {s' : State} {x : Task}, s'.devices = s.devices →
      s'.task = Function.update s.task t x → s'.log = s.log → x.Living must .idle →
      Section must t .idle s s' := by
    intro s' x hdevices htask hlog hx
    refine ⟨[], .idle, ⟨hdevices, fun u hu => ?_, hlog⟩, rfl, ?_⟩
    · rw [htask, Function.update_of_ne hu]
    · rwa [htask, Function.update_self]
  have hfails : ∀ {addr : Option Mac} {data : Option Bytes} {err : EspErr},
      verdict s.devices addr data = .error err →
      Section must t .idle s ((s.mark t (.send addr data)).mark t (.returned err)) := by
    intro addr data err herr
    refine ⟨[.returned err, .send addr data], .idle, ⟨rfl, fun _ _ => rfl, rfl⟩, ?_, ?_⟩
    · simp [replay, Life.next, herr]
    · rw [State.mark_task, State.mark_task, hidle]
      exact rfl
  cases call with
  | registerRecv callback =>
    cases callback with
    | none => exact ⟨[], .idle, ⟨rfl, fun _ _ => rfl, rfl⟩, rfl, by rw [State.begin, hidle]; rfl⟩
    | some callback => exact hstays rfl rfl rfl rfl
  | unregisterRecv => exact hstays rfl rfl rfl rfl
  | registerSend callback =>
    cases callback with
    | none => exact ⟨[], .idle, ⟨rfl, fun _ _ => rfl, rfl⟩, rfl, by rw [State.begin, hidle]; rfl⟩
    | some callback => exact hstays rfl rfl rfl rfl
  | unregisterSend => exact hstays rfl rfl rfl rfl
  | deinit => exact hstays rfl rfl rfl rfl
  | send addr data =>
    cases data with
    | none => exact hfails rfl
    | some data =>
      rw [State.begin]
      split_ifs with hlength
      · exact hfails (by rw [verdict, if_pos hlength])
      · split
        next hnone => exact hfails (by rw [verdict, if_neg hlength, hnone]; rfl)
        next rest hsome =>
          refine ⟨[.send addr (some data)], .owes rest (destination addr) data false,
            ⟨rfl, fun u hu => State.setTask_of_ne _ hu _, rfl⟩, ?_, ?_⟩
          · have hok : verdict s.devices addr (some data) = .ok rest := by
              rw [verdict, if_neg hlength, hsome]
              rfl
            simp [replay, Life.next, hok]
          · rw [State.setTask_self]
            exact rfl

theorem proceed_section {life : Life} (hmust : must = true → SendRegistered s)
    (hliving : (s.task t).Living must life) (h : s.proceed t = some s') :
    Section must t life s s' := by
  have hstays : ∀ {s' : State} {x : Task} {life : Life}, s'.devices = s.devices →
      s'.task = Function.update s.task t x → s'.log = s.log → x.Living must life →
      Section must t life s s' := by
    intro s' x life hdevices htask hlog hx
    refine ⟨[], life, ⟨hdevices, fun u hu => ?_, hlog⟩, rfl, ?_⟩
    · rw [htask, Function.update_of_ne hu]
    · rwa [htask, Function.update_self]
  have hmarks : ∀ {x : Task} {m : Mark} {life life' : Life},
      Life.next s.devices must life m = some life' → x.Living must life' →
      Section must t life s ((s.mark t m).setTask t x) := by
    intro x m life life' hnext hx
    refine ⟨[m], life', ⟨rfl, fun u hu => State.setTask_of_ne _ hu _, rfl⟩, ?_, ?_⟩
    · simpa [replay] using hnext
    · rwa [State.setTask_self]
  unfold State.proceed at h
  split at h <;> rename_i htask <;> rw [htask] at hliving
  case h_1 => cases h
  case h_8 =>
    obtain rfl := Option.some.inj h
    cases hliving
    exact hmarks (by simp [Life.next]) rfl
  case h_9 mac data =>
    obtain rfl := Option.some.inj h
    cases hliving
    split_ifs with hset
    · exact hstays rfl rfl rfl ⟨data, rfl⟩
    · refine hstays rfl rfl rfl ⟨mac, data, false, rfl, fun h => ?_⟩
      exact absurd (hmust h).onSentCb hset
  case h_10 mac =>
    obtain ⟨data, rfl⟩ := hliving
    split at h <;> obtain rfl := Option.some.inj h
    next hnone =>
      refine hstays rfl rfl rfl ⟨mac, data, false, rfl, fun h => ?_⟩
      exact absurd hnone (hmust h).sendCallback
    next => exact hstays rfl rfl rfl ⟨data, rfl⟩
  case h_11 mac callback =>
    obtain rfl := Option.some.inj h
    obtain ⟨data, rfl⟩ := hliving
    exact hmarks (by simp [Life.next]) ⟨mac, data, true, rfl, fun _ => rfl⟩
  case h_12 =>
    obtain rfl := Option.some.inj h
    obtain ⟨mac, data, confirmed, rfl, hconfirmed⟩ := hliving
    exact hmarks (by simpa [Life.next] using hconfirmed) rfl
  all_goals
    obtain rfl := Option.some.inj h
    cases hliving
    exact hstays rfl rfl rfl rfl

/-- The log has grown since `old`, and what each task has added to it is a life. -/
def Lives (devices : List (BitVec 64)) (must : Bool) (old : List (Entry ℕ Mark)) (s : State) :
    Prop :=
  s.devices = devices ∧ ∃ new, s.log = new ++ old ∧ ∀ t, ∃ life,
    replay (Life.next devices must) .idle (marksOf t new) = some life ∧
      (s.task t).Living must life

variable {old : List (Entry ℕ Mark)}

theorem Lives.elsewhere (h : Lives devices must old s) (he : Elsewhere s s') :
    Lives devices must old s' := by
  obtain ⟨hdevices, new, hnew, hlives⟩ := h
  refine ⟨he.devices.trans hdevices, new, he.log.trans hnew, ?_⟩
  rw [he.task]
  exact hlives

theorem marksOf_own (t : ℕ) (ms : List Mark) (log : List (Entry ℕ Mark)) :
    marksOf t (ms.map (⟨t, ·⟩) ++ log) = ms ++ marksOf t log := by
  induction ms with
  | nil => rfl
  | cons m ms ih => rw [List.map_cons, List.cons_append, marksOf_cons_self, ih, List.cons_append]

theorem marksOf_other {t u : ℕ} (hu : u ≠ t) (ms : List Mark) (log : List (Entry ℕ Mark)) :
    marksOf u (ms.map (⟨t, ·⟩) ++ log) = marksOf u log := by
  induction ms with
  | nil => rfl
  | cons m ms ih => rw [List.map_cons, List.cons_append, marksOf_cons_of_ne hu.symm, ih]

theorem Lives.section (h : Lives devices must old s)
    (hsection : ∀ life, (s.task t).Living must life → Section must t life s s') :
    Lives devices must old s' := by
  obtain ⟨rfl, new, hnew, hlives⟩ := h
  obtain ⟨life, hlife, hliving⟩ := hlives t
  obtain ⟨ms, life', hown, hreplay, hliving'⟩ := hsection life hliving
  refine ⟨hown.devices, ms.map (⟨t, ·⟩) ++ new, by rw [hown.log, hnew, List.append_assoc], ?_⟩
  intro u
  by_cases hu : u = t
  · subst hu
    refine ⟨life', ?_, hliving'⟩
    rw [marksOf_own, replay_append hlife, hreplay]
  · obtain ⟨other, hother, hotherLiving⟩ := hlives u
    refine ⟨other, ?_, ?_⟩
    · rw [marksOf_other hu, hother]
    · rwa [hown.task u hu]

theorem step_lives : PreservesWhen step (fun s _ => must = true → SendRegistered s)
    (Lives devices must old) := by
  intro s a s' hmust hs h
  cases a with
  | incoming peer data =>
    obtain rfl := Option.some.inj hs
    exact h.elsewhere (incoming_elsewhere peer data)
  | processInbox => exact h.elsewhere (processInbox_elsewhere hs)
  | shutdown =>
    obtain rfl := Option.some.inj hs
    exact h.elsewhere ⟨rfl, rfl, rfl, rfl, rfl⟩
  | begin t call =>
    rw [step] at hs
    split_ifs at hs with hidle
    obtain rfl := Option.some.inj hs
    refine h.section (t := t) fun life hliving => ?_
    rw [hidle] at hliving
    cases hliving
    exact begin_section hidle call
  | proceed t => exact h.section (t := t) fun life hliving => proceed_section hmust hliving hs

/-- What the sends of a task have for a device, latest first. -/
def sentTo (devices : List (BitVec 64)) (d : BitVec 64) (marks : List Mark) : List Bytes :=
  marks.filterMap fun
    | .send addr data =>
      match verdict devices addr data with
      | .ok rest => if rest.contains d then data else none
      | .error _ => none
    | _ => none

/-- What a device has got, latest first. -/
def received (d : BitVec 64) (marks : List Mark) : List Bytes :=
  marks.filterMap fun
    | .handed device data => if device = d then some data else none
    | _ => none

def Life.rest : Life → List (BitVec 64)
  | .owes rest _ _ _ => rest
  | _ => []

def Life.owedTo (d : BitVec 64) : Life → List Bytes
  | .owes rest _ data _ => if rest.contains d then [data] else []
  | _ => []

theorem targets_nodup {mac : BitVec 64} {rest : List (BitVec 64)} (h : devices.Nodup)
    (hrest : targets devices mac = some rest) : rest.Nodup := by
  unfold targets at hrest
  split_ifs at hrest
  · obtain rfl := Option.some.inj hrest
    exact h
  · obtain rfl := Option.some.inj hrest
    exact List.nodup_singleton mac

theorem verdict_ok {addr : Option Mac} {data : Option Bytes} {rest : List (BitVec 64)}
    (h : verdict devices addr data = .ok rest) :
    (∃ bytes, data = some bytes) ∧ targets devices (destination addr) = some rest := by
  unfold verdict at h
  split at h
  · cases h
  · split_ifs at h
    refine ⟨⟨_, rfl⟩, ?_⟩
    cases htargets : targets devices (destination addr) with
    | none =>
      rw [htargets] at h
      cases h
    | some list =>
      rw [htargets] at h
      cases h
      rfl

/-- What a task has sent to a device and the device has not got is still owed. -/
theorem sentTo_eq (hnodup : devices.Nodup) (d : BitVec 64) {marks : List Mark} {life : Life}
    (h : replay (Life.next devices must) .idle marks = some life) :
    life.rest.Nodup ∧ sentTo devices d marks = life.owedTo d ++ received d marks := by
  refine replay_induction (P := fun marks life =>
    life.rest.Nodup ∧ sentTo devices d marks = life.owedTo d ++ received d marks) ?_ ?_ h
  · exact ⟨List.nodup_nil, rfl⟩
  rintro ms life m life' ⟨hrest, heq⟩ hnext
  unfold Life.next at hnext
  split at hnext
  · -- a send, which fails or owes its data to the devices
    next addr data =>
    split at hnext <;> obtain rfl := Option.some.inj hnext
    next err herr =>
      refine ⟨List.nodup_nil, ?_⟩
      simpa [sentTo, received, herr, Life.owedTo] using heq
    next rest hok =>
      obtain ⟨⟨bytes, rfl⟩, htargets⟩ := verdict_ok hok
      refine ⟨targets_nodup hnodup htargets, ?_⟩
      have hbefore : sentTo devices d ms = received d ms := heq
      by_cases hd : d ∈ rest
      · have hsent : sentTo devices d (.send addr (some bytes) :: ms) =
            bytes :: sentTo devices d ms := by
          simp [sentTo, hok, hd]
        rw [hsent, hbefore, Life.owedTo, if_pos (List.contains_iff_mem.mpr hd)]
        rfl
      · have hsent : sentTo devices d (.send addr (some bytes) :: ms) = sentTo devices d ms := by
          simp [sentTo, hok, hd]
        rw [hsent, hbefore, Life.owedTo, if_neg (mt List.contains_iff_mem.mp hd)]
        rfl
  · split_ifs at hnext
    obtain rfl := Option.some.inj hnext
    exact ⟨List.nodup_nil, heq⟩
  · -- a device gets what it is owed and is not in the rest of the list
    next device rest mac data device' data' =>
    split_ifs at hnext with hsame
    obtain ⟨rfl, rfl⟩ := hsame
    obtain rfl := Option.some.inj hnext
    obtain ⟨hnot, hrest⟩ := List.nodup_cons.mp hrest
    refine ⟨hrest, ?_⟩
    have hsent : sentTo devices d (.handed device' data' :: ms) = sentTo devices d ms := rfl
    rw [hsent, heq]
    by_cases hd : device' = d
    · subst hd
      simp [Life.owedTo, received, hnot]
    · simp [Life.owedTo, received, hd, Ne.symm hd]
  · split_ifs at hnext
    obtain rfl := Option.some.inj hnext
    exact ⟨hrest, heq⟩
  · split_ifs at hnext
    obtain rfl := Option.some.inj hnext
    exact ⟨List.nodup_nil, heq⟩
  · cases hnext

theorem SendRegistered.elsewhere (h : SendRegistered s) (he : Elsewhere s s') :
    SendRegistered s' :=
  ⟨he.onSentCb ▸ h.onSentCb, he.sendCallback ▸ h.sendCallback, he.task ▸ h.task⟩

theorem clearsSend_setTask {x : Task} (h : ∀ u, ¬ (s.task u).ClearsSend) (hx : ¬ x.ClearsSend)
    (u : ℕ) : ¬ ((s.setTask t x).task u).ClearsSend :=
  (Threads.forall_update (Q := fun x : Task => ¬ x.ClearsSend)).mpr ⟨hx, fun u _ => h u⟩ u

theorem SendRegistered.begin (h : SendRegistered s) {call : ApiCall}
    (hcall : ¬ (Act.begin t call).ClearsSend) : SendRegistered (s.begin t call) := by
  unfold State.begin
  split
  case h_1 | h_4 | h_8 => exact ⟨h.onSentCb, h.sendCallback, h.task⟩
  case h_5 => exact ⟨h.onSentCb, Option.some_ne_none _, clearsSend_setTask h.task id⟩
  case h_6 | h_7 => exact absurd trivial hcall
  case h_9 =>
    split_ifs
    · exact ⟨h.onSentCb, h.sendCallback, h.task⟩
    · split
      · exact ⟨h.onSentCb, h.sendCallback, h.task⟩
      · exact ⟨h.onSentCb, h.sendCallback, clearsSend_setTask h.task id⟩
  all_goals exact ⟨h.onSentCb, h.sendCallback, clearsSend_setTask h.task id⟩

theorem SendRegistered.proceed (h : SendRegistered s) (hs : s.proceed t = some s') :
    SendRegistered s' := by
  unfold State.proceed at hs
  have htask := h.task t
  split at hs
  case h_1 => cases hs
  case h_5 hclears | h_6 hclears | h_7 hclears =>
    rw [hclears] at htask
    exact absurd trivial htask
  case h_4 =>
    obtain rfl := Option.some.inj hs
    exact ⟨rfl, h.sendCallback, clearsSend_setTask h.task id⟩
  case h_9 =>
    obtain rfl := Option.some.inj hs
    split_ifs <;> exact ⟨h.onSentCb, h.sendCallback, clearsSend_setTask h.task id⟩
  case h_10 =>
    split at hs <;> obtain rfl := Option.some.inj hs <;>
      exact ⟨h.onSentCb, h.sendCallback, clearsSend_setTask h.task id⟩
  all_goals
    obtain rfl := Option.some.inj hs
    exact ⟨h.onSentCb, h.sendCallback, clearsSend_setTask h.task id⟩

theorem step_sendRegistered : PreservesWhen step (fun _ a => ¬ a.ClearsSend) SendRegistered := by
  intro s a s' ha hs h
  cases a with
  | incoming peer data =>
    obtain rfl := Option.some.inj hs
    exact h.elsewhere (incoming_elsewhere peer data)
  | processInbox => exact h.elsewhere (processInbox_elsewhere hs)
  | shutdown =>
    obtain rfl := Option.some.inj hs
    exact h.elsewhere ⟨rfl, rfl, rfl, rfl, rfl⟩
  | begin t call =>
    rw [step] at hs
    split_ifs at hs
    obtain rfl := Option.some.inj hs
    exact h.begin ha
  | proceed t => exact h.proceed hs

/-- In every run, whatever the interleaving: each task sends as a life allows, so a send that
succeeds hands its data to each of its devices in turn before it is confirmed, at most once, and
returns, and one that fails does nothing else; each device gets from each task what the task has
sent to it, once and in order; while a callback stays registered every success is confirmed; and a
reply to the source of a packet goes to the device that the packet came from, and to no other. -/
theorem sends_delivered {acts : List Act} (hnodup : devices.Nodup)
    (hr : run step (start devices) acts = some s) :
    (∀ t, ∃ life, replay (Life.next devices false) .idle (marksOf t s.log) = some life ∧
      (s.task t).Living false life ∧ ∀ d, sentTo devices d (marksOf t s.log) =
        life.owedTo d ++ received d (marksOf t s.log)) ∧
    (SendRegistered s → (∀ t, (s.task t).Living true .idle) →
      ∀ more z, (∀ a ∈ more, ¬ a.ClearsSend) → run step s more = some z →
        ∃ new, z.log = new ++ s.log ∧ ∀ t, ∃ life,
          replay (Life.next devices true) .idle (marksOf t new) = some life ∧
            (z.task t).Living true life) ∧
    ∀ d ∈ devices, d.toNat < 2 ^ 48 → d ≠ broadcast →
      targets devices (destination (some (getMac d))) = some [d] := by
  have hstart : Lives devices false [] (start devices) :=
    ⟨rfl, [], rfl, fun t => ⟨.idle, rfl, rfl⟩⟩
  have hkeeps : Preserves step (Lives devices false []) := fun _ _ _ hs h =>
    step_lives Bool.noConfusion hs h
  obtain ⟨hdevices, log, hlog, hlives⟩ := hkeeps.run hr hstart
  rw [List.append_nil] at hlog
  subst hlog
  refine ⟨fun t => ?_, ?_, ?_⟩
  · obtain ⟨life, hlife, hliving⟩ := hlives t
    exact ⟨life, hlife, hliving, fun d => (sentTo_eq hnodup d hlife).2⟩
  · intro hregistered hidle more z hmore hrun
    have hboth : PreservesWhen step (fun _ a => ¬ a.ClearsSend)
        fun x => SendRegistered x ∧ Lives devices true s.log x := fun _ _ _ ha hs h =>
      ⟨step_sendRegistered ha hs h.1, step_lives (fun _ => h.1) hs h.2⟩
    have hfrom : Lives devices true s.log s := ⟨hdevices, [], rfl, fun t => ⟨.idle, rfl, hidle t⟩⟩
    exact (hboth.run (Meets.of_forall hmore) hrun ⟨hregistered, hfrom⟩).2.2
  · intro d hd hbits hnot
    have hback : destination (some (getMac d)) = d := fromMac_getMac hbits
    rw [hback, targets, if_neg hnot, if_pos hd]

/-- A task broadcasts while another sends to one device. -/
def crossed : List Act :=
  [.begin 1 (.registerSend (some 3)), .proceed 1, .begin 1 (.send none (some [5])), .proceed 1,
    .begin 2 (.send (some (getMac 9)) (some [6])), .proceed 2, .proceed 1, .proceed 1, .proceed 2]

/-- Both devices have got the broadcast, and one of them the other datagram before it. -/
theorem sends_delivered_crossed :
    ∃ s, run step (start [7, 9]) crossed = some s ∧
      received 9 (marksOf 1 s.log) = [[5]] ∧ received 9 (marksOf 2 s.log) = [[6]] ∧
      ∃ life, replay (Life.next [7, 9] false) .idle (marksOf 1 s.log) = some life ∧
        sentTo [7, 9] 9 (marksOf 1 s.log) = life.owedTo 9 ++ received 9 (marksOf 1 s.log) := by
  have hrun : run step (start [7, 9]) crossed =
      some ((run step (start [7, 9]) crossed).get (by decide)) :=
    (Option.some_get _).symm
  obtain ⟨life, hlife, -, hdevices⟩ := (sends_delivered (by decide) hrun).1 1
  exact ⟨_, hrun, by decide, by decide, life, hlife, hdevices 9⟩

end RooTesting.EspNow
