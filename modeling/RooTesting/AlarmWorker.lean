import RooTesting.AlarmSignals

/-! # The wait of the alarm worker

The worker reads the queue and the wake generation in one section, compares the
generation under the wake mutex and then blocks. A notification increments the
generation and broadcasts without that mutex. -/
namespace RooTesting.AlarmThreads
open Transition Threads AlarmService AlarmTable

variable {κ : Type}

/-- The generation the worker went by still stands, or a broadcast of a later one is to come. -/
def Awaited (c : System κ) (v : WorkerView) : Prop :=
  c.shared.generation = v.generation ∨
    ∃ t k, .broadcast k ∈ c.thread t ∧ v.generation < k

/-- The worker's view, and why it will hear of what has changed since. -/
structure Watched (c : System κ) : Prop where
  worker : Held workerFrames c.thread true
  origin_nonneg : 0 ≤ c.shared.service.clock.hostOriginNs
  uptime_nonneg : 0 ≤ c.shared.service.uptimeNs
  generation_le : ∀ t, ∀ f ∈ c.thread t, ∀ v, f.view = some v → v.generation ≤ c.shared.generation
  ahead : ∀ t, ∀ f ∈ c.thread t, ∀ v, f.view = some v → v.waitForDeadline = true →
    0 < v.deadlineUs * kNanosPerMicrosecond
  current : ∀ t, ∀ f ∈ c.thread t, ∀ v, f.view = some v → c.shared.generation = v.generation →
    (∃ u, .notify ∈ c.thread u) ∨ Current v c.shared.service
  holding : ∀ t v, .workerHolding v ∈ c.thread t → Awaited c v
  blocked : ∀ t v, .workerBlocked v ∈ c.thread t → ∀ d, c.shared.waiter = some d →
    Awaited c v ∧ waitDeadline v c.shared.service = some d

/-- No broadcast whose increment came after the worker's comparison falls before the worker's
block, and the wake generation does not come round between the worker's reading and it. -/
def BroadcastsInTime (c : System κ) (a : ℕ × Event κ) : Prop :=
  a.2 = .resume →
    (∀ k rest, c.thread a.1 = .broadcast k :: rest → ∀ t v, .workerHolding v ∈ c.thread t →
      k ≤ v.generation) ∧
    (∀ v rest, c.thread a.1 = .workerCheck v :: rest →
      c.shared.generation < v.generation + uint64Size)

section Watch

variable {c : System κ} {t : ℕ} {s' : Shared κ} {st' : List (Frame κ)}

theorem watched_start (autoSync : Bool) {hostNowNs : ℤ} (h : 0 ≤ hostNowNs) :
    Watched (start (initial (κ := κ) autoSync hostNowNs)) := by
  have hview : ∀ t, ∀ f ∈ (start (initial (κ := κ) autoSync hostNowNs)).thread t, f.view = none := by
    intro t f hf
    by_cases ht : t = 0
    · obtain rfl : f = .workerLoop := by simpa [start, ht] using hf
      rfl
    · simp [start, ht] at hf
  refine ⟨⟨0, rfl, fun u hu => by simp [start, hu, workerFrames]⟩, h, le_rfl, ?_, ?_, ?_, ?_, ?_⟩
  · exact fun t f hf v hv => by simp [hview t f hf] at hv
  · exact fun t f hf v hv => by simp [hview t f hf] at hv
  · exact fun t f hf v hv => by simp [hview t f hf] at hv
  · exact fun t v hf => by simpa [Frame.view] using hview t _ hf
  · exact fun t v hf => by simpa [Frame.view] using hview t _ hf

/-- A frame of a thread after a step is of another thread, or of the thread of the step. -/
theorem mem_update {P : ℕ → Frame κ → Prop} (hother : ∀ u, ∀ f ∈ c.thread u, P u f)
    (hself : ∀ f ∈ st', f ∈ c.thread t ∨ P t f) :
    ∀ u, ∀ f ∈ Function.update c.thread t st' u, P u f := by
  intro u f hf
  by_cases hu : u = t
  · subst hu
    rw [Function.update_self] at hf
    exact (hself f hf).elim (hother u f) id
  · rw [Function.update_of_ne hu] at hf
    exact hother u f hf

theorem exists_mem_update {f : Frame κ} (h : ∃ u, f ∈ c.thread u)
    (hself : f ∈ c.thread t → f ∈ st') : ∃ u, f ∈ Function.update c.thread t st' u := by
  obtain ⟨u, hu⟩ := h
  by_cases hut : u = t
  · subst hut
    exact ⟨u, by simpa using hself hu⟩
  · exact ⟨u, by simpa [Function.update_of_ne hut] using hu⟩

theorem Awaited.update {v : WorkerView} (h : Awaited c v)
    (hg : s'.generation = c.shared.generation)
    (hk : ∀ k, v.generation < k → .broadcast k ∈ c.thread t → .broadcast k ∈ st') :
    Awaited ⟨s', Function.update c.thread t st'⟩ v := by
  rcases h with h | ⟨u, k, hu, hlt⟩
  · exact Or.inl (hg.trans h)
  · obtain ⟨w, hw⟩ := exists_mem_update ⟨u, hu⟩ (hk k hlt)
    exact Or.inr ⟨w, k, hw, hlt⟩

theorem waitDeadline_congr {s s' : Service κ}
    (h : s'.clock.hostOriginNs = s.clock.hostOriginNs) (v : WorkerView) :
    waitDeadline v s' = waitDeadline v s := by
  unfold waitDeadline Publication.hostDeadlineNs
  rw [h]

/-- The part of the invariant about the views, for the frames after a step. -/
structure Viewed (c : System κ) (f : Frame κ) : Prop where
  generation_le : ∀ v, f.view = some v → v.generation ≤ c.shared.generation
  ahead : ∀ v, f.view = some v → v.waitForDeadline = true → 0 < v.deadlineUs * kNanosPerMicrosecond
  current : ∀ v, f.view = some v → c.shared.generation = v.generation →
    (∃ u, .notify ∈ c.thread u) ∨ Current v c.shared.service

theorem Viewed.of_none {f : Frame κ} (h : f.view = none) : Viewed c f :=
  ⟨fun v hv => by simp [h] at hv, fun v hv => by simp [h] at hv, fun v hv => by simp [h] at hv⟩

theorem Watched.viewed (h : Watched c) {u : ℕ} {f : Frame κ} (hf : f ∈ c.thread u) : Viewed c f :=
  ⟨h.generation_le u f hf, h.ahead u f hf, h.current u f hf⟩

/-- A step that leaves the generation alone keeps the views valid: what makes one outdated
puts a notification in front of it. -/
theorem Viewed.keep {f : Frame κ} (h : Viewed c f) (hg : s'.generation = c.shared.generation)
    (hn : .notify ∈ c.thread t → .notify ∈ st')
    (hcur : .notify ∈ st' ∨ ∀ v, Current v c.shared.service → Current v s'.service) :
    Viewed ⟨s', Function.update c.thread t st'⟩ f := by
  refine ⟨fun v hv => (h.generation_le v hv).trans hg.ge, h.ahead, fun v hv hgen => ?_⟩
  rcases hcur with hmem | hcur
  · exact Or.inl ⟨t, by simpa using hmem⟩
  · exact (h.current v hv (hg.symm.trans hgen)).imp (exists_mem_update · hn) (hcur v)

theorem Watched.of_viewed (hw : Held workerFrames (Function.update c.thread t st') true)
    (ho : 0 ≤ s'.service.clock.hostOriginNs) (hu : 0 ≤ s'.service.uptimeNs)
    (hv : ∀ u, ∀ f ∈ Function.update c.thread t st' u,
      Viewed ⟨s', Function.update c.thread t st'⟩ f)
    (hh : ∀ u v, .workerHolding v ∈ Function.update c.thread t st' u →
      Awaited ⟨s', Function.update c.thread t st'⟩ v)
    (hb : ∀ u v, .workerBlocked v ∈ Function.update c.thread t st' u → ∀ d, s'.waiter = some d →
      Awaited ⟨s', Function.update c.thread t st'⟩ v ∧ waitDeadline v s'.service = some d) :
    Watched ⟨s', Function.update c.thread t st'⟩ :=
  ⟨hw, ho, hu, fun u f hf => (hv u f hf).generation_le, fun u f hf => (hv u f hf).ahead,
    fun u f hf => (hv u f hf).current, hh, hb⟩

/-- A thread with the worker's loop has one frame of it. -/
theorem Watched.rest (h : Watched c) {f : Frame κ} {rest : List (Frame κ)}
    (ht : c.thread t = f :: rest) (hf : f.worker = true) : workerFrames rest = 0 := by
  have hone := h.worker.count_le_one t
  simp only [ht, workerFrames_cons, hf, if_true] at hone
  omega

theorem workerFrames_pos {f : Frame κ} {st : List (Frame κ)} (hf : f ∈ st) (hw : f.worker = true) :
    0 < workerFrames st :=
  List.countP_pos_iff.mpr ⟨f, hf, hw⟩

/-- After a step of the worker its new frame is the only one of its loop. -/
theorem Watched.only (h : Watched c) {f g : Frame κ} {rest : List (Frame κ)}
    (ht : c.thread t = f :: rest) (hf : f.worker = true) {u : ℕ} {k : Frame κ}
    (hk : k ∈ Function.update c.thread t (g :: rest) u) (hkw : k.worker = true) : k = g := by
  have hpos := workerFrames_pos (show f ∈ c.thread t from ht ▸ List.mem_cons_self) hf
  by_cases hu : u = t
  · subst hu
    rw [Function.update_self] at hk
    rcases List.mem_cons.mp hk with rfl | hk
    · rfl
    · exact absurd (h.rest ht hf) (workerFrames_pos hk hkw).ne'
  · rw [Function.update_of_ne hu] at hk
    exact absurd (h.worker.eq_of_pos (workerFrames_pos hk hkw) hpos) hu

theorem worker_of_view {f : Frame κ} {v : WorkerView} (h : f.view = some v) : f.worker = true := by
  cases f with
  | workerCheck v => rfl
  | workerHolding v => rfl
  | workerBlocked v => rfl
  | _ => cases h

/-- A step of the worker from one frame of its loop to another. -/
theorem Watched.advance (h : Watched c) {f g : Frame κ} {rest : List (Frame κ)}
    (ht : c.thread t = f :: rest) (hf : f.worker = true) (hg : g.worker = true)
    (ho : 0 ≤ s'.service.clock.hostOriginNs) (hu : 0 ≤ s'.service.uptimeNs)
    (hview : Viewed ⟨s', Function.update c.thread t (g :: rest)⟩ g)
    (hhold : ∀ v, g = .workerHolding v → Awaited ⟨s', Function.update c.thread t (g :: rest)⟩ v)
    (hblock : ∀ v, g = .workerBlocked v → ∀ d, s'.waiter = some d →
      Awaited ⟨s', Function.update c.thread t (g :: rest)⟩ v ∧
        waitDeadline v s'.service = some d) :
    Watched ⟨s', Function.update c.thread t (g :: rest)⟩ := by
  refine .of_viewed (h.worker.keep (by simp [ht, hf, hg])) ho hu (fun u k hk => ?_)
    (fun u v hk => hhold v (h.only ht hf hk rfl).symm)
    (fun u v hk => hblock v (h.only ht hf hk rfl).symm)
  cases hkv : k.view with
  | none => exact .of_none hkv
  | some v =>
    obtain rfl := h.only ht hf hk (worker_of_view hkv)
    exact hview

theorem Watched.plain (h : Watched c) (hp : Plain c.shared s' (c.thread t) st')
    (hcur : .notify ∈ st' ∨ ∀ v, Current v c.shared.service → Current v s'.service)
    (hclock : s'.service.clock.hostOriginNs = c.shared.service.clock.hostOriginNs ∧
      c.shared.service.uptimeNs ≤ s'.service.uptimeNs) :
    Watched ⟨s', Function.update c.thread t st'⟩ := by
  have hself : ∀ f ∈ st', f.view.isSome → f ∈ c.thread t := hp.views
  have hold : ∀ u, ∀ f ∈ Function.update c.thread t st' u, f.view.isSome → ∃ w, f ∈ c.thread w :=
    mem_update (fun u f hf _ => ⟨u, hf⟩) fun f hf => Or.inr fun hv => ⟨t, hself f hf hv⟩
  refine .of_viewed (h.worker.keep hp.count) (h.origin_nonneg.trans hclock.1.ge)
    (h.uptime_nonneg.trans hclock.2) (fun u f hf => ?_) (fun u v hf => ?_) fun u v hf d hd => ?_
  · cases hfv : f.view with
    | none => exact .of_none hfv
    | some v =>
      obtain ⟨w, hw⟩ := hold u f hf (by simp [hfv])
      exact (h.viewed hw).keep hp.generation hp.notify hcur
  · obtain ⟨w, hw⟩ := hold u _ hf rfl
    exact (h.holding w v hw).update hp.generation fun k _ => hp.broadcast k
  · obtain ⟨w, hw⟩ := hold u _ hf rfl
    obtain ⟨haw, hwd⟩ := h.blocked w v hw d (hp.waiter ▸ hd)
    exact ⟨haw.update hp.generation fun k _ => hp.broadcast k,
      (waitDeadline_congr hclock.1 v).trans hwd⟩

theorem Watched.increment (h : Watched c) {rest : List (Frame κ)}
    (ht : c.thread t = .notify :: rest) :
    Watched ⟨{ c.shared with generation := c.shared.generation + 1 },
      Function.update c.thread t (.broadcast (c.shared.generation + 1) :: rest)⟩ := by
  have hold : ∀ u, ∀ f ∈ Function.update c.thread t
      (.broadcast (c.shared.generation + 1) :: rest) u, f.view.isSome → ∃ w, f ∈ c.thread w := by
    refine mem_update (fun u f hf _ => ⟨u, hf⟩) fun f hf => ?_
    rcases List.mem_cons.mp hf with rfl | hf
    · exact Or.inr fun hv => by cases hv
    · exact Or.inl (ht ▸ List.mem_cons_of_mem _ hf)
  have awaited : ∀ w, ∀ f ∈ c.thread w, ∀ v, f.view = some v →
      Awaited ⟨{ c.shared with generation := c.shared.generation + 1 },
        Function.update c.thread t (.broadcast (c.shared.generation + 1) :: rest)⟩ v := by
    intro w f hf v hv
    exact Or.inr ⟨t, _, by simp, Nat.lt_succ_of_le (h.generation_le w f hf v hv)⟩
  refine .of_viewed (h.worker.keep (by simp [ht, Frame.worker])) h.origin_nonneg h.uptime_nonneg
    (fun u f hf => ?_) (fun u v hf => ?_) fun u v hf d hd => ?_
  · cases hfv : f.view with
    | none => exact .of_none hfv
    | some v =>
      obtain ⟨w, hw⟩ := hold u f hf (by simp [hfv])
      refine ⟨fun v hv => (h.generation_le w f hw v hv).trans (Nat.le_succ _), h.ahead w f hw,
        fun v hv hgen => ?_⟩
      have hle := h.generation_le w f hw v hv
      simp only at hgen
      omega
  · obtain ⟨w, hw⟩ := hold u _ hf rfl
    exact awaited w _ hw v rfl
  · obtain ⟨w, hw⟩ := hold u _ hf rfl
    exact ⟨awaited w _ hw v rfl, (h.blocked w v hw d hd).2⟩

/-- A broadcast ends the wait; it is not lost on a worker about to block. -/
theorem Watched.broadcast (h : Watched c) {k : ℕ} {rest : List (Frame κ)}
    (ht : c.thread t = .broadcast k :: rest)
    (hok : ∀ u v, .workerHolding v ∈ c.thread u → k ≤ v.generation) :
    Watched ⟨{ c.shared with waiter := none }, Function.update c.thread t rest⟩ := by
  have hsub : ∀ u, ∀ f ∈ Function.update c.thread t rest u, f ∈ c.thread u :=
    mem_update (fun u f hf => hf) fun f hf => Or.inl (ht ▸ List.mem_cons_of_mem _ hf)
  refine .of_viewed (h.worker.keep (by simp [ht, Frame.worker])) h.origin_nonneg h.uptime_nonneg
    (fun u f hf => ?_) (fun u v hf => ?_) fun u v hf d hd => by cases hd
  · refine (h.viewed (hsub u f hf)).keep rfl (fun hn => ?_) (Or.inr fun v hv => hv)
    rw [ht] at hn
    exact (List.mem_cons.mp hn).resolve_left (by simp)
  · refine (h.holding u v (hsub u _ hf)).update rfl fun j hj hmem => ?_
    rw [ht] at hmem
    rcases List.mem_cons.mp hmem with heq | hmem
    · obtain rfl : j = k := by simpa using heq
      exact absurd (hok u v (hsub u _ hf)) (not_le.mpr hj)
    · exact hmem

theorem Watched.step (h : Watched c) {e : Event κ} (hown : Ownership c)
    (htable : TableOk c.shared.service) (hok : BroadcastsInTime c (t, e))
    (hstep : step e c.shared (c.thread t) = some (s', st')) :
    Watched ⟨s', Function.update c.thread t st'⟩ := by
  have he := effect_of_step hstep
  have hcur := current_of_effect he htable fun j hj => hown.joining t j hj
  have hclock := clock_of_effect he htable
  have hsignal := signal_of_step hstep
  generalize hst : c.thread t = st at hsignal hcur
  cases hsignal with
  | plain hp => exact h.plain (hst ▸ hp) hcur hclock
  | increment => exact h.increment hst
  | broadcast => exact h.broadcast hst fun u v hv => (hok rfl).1 _ _ hst u v hv
  | wake =>
    subst hst
    rw [Function.update_eq_self]
    exact ⟨h.worker, h.origin_nonneg, h.uptime_nonneg, h.generation_le, h.ahead, h.current,
      h.holding, fun u v hf d hd => by cases hd⟩
  | @look v s' rest hg hw hv hc hd =>
    refine h.advance hst rfl rfl (h.origin_nonneg.trans hclock.1.ge)
      (h.uptime_nonneg.trans hclock.2) ⟨?_, ?_, ?_⟩ (fun _ hh => by cases hh) (fun _ hh => by cases hh)
    · rintro _ ⟨rfl⟩
      exact (hv.trans hg.symm).le
    · rintro _ ⟨rfl⟩ hwait
      exact (h.uptime_nonneg.trans hclock.2).trans_lt (hd hwait)
    · rintro _ ⟨rfl⟩ -
      exact Or.inr hc
  | @check v rest hmod =>
    have hf : .workerCheck v ∈ c.thread t := hst ▸ List.mem_cons_self
    have hwrap := (hok rfl).2 v rest hst
    have hle := h.generation_le t _ hf v rfl
    have heq : c.shared.generation = v.generation := by
      simp only [uint64Size] at hmod hwrap
      omega
    have hview := h.viewed hf
    refine h.advance hst rfl rfl h.origin_nonneg h.uptime_nonneg ⟨?_, ?_, ?_⟩ ?_
      (fun _ hh => by cases hh)
    · rintro _ ⟨rfl⟩
      exact hle
    · rintro _ ⟨rfl⟩
      exact h.ahead t _ hf v rfl
    · rintro _ ⟨rfl⟩ hgen
      refine (h.current t _ hf v rfl hgen).imp_left fun hn => exists_mem_update hn fun hmem => ?_
      rw [hst] at hmem
      exact List.mem_cons_of_mem _ ((List.mem_cons.mp hmem).resolve_left (by simp))
    · rintro _ ⟨rfl⟩
      exact Or.inl heq
  | @block v d rest hwait =>
    have hf : .workerHolding v ∈ c.thread t := hst ▸ List.mem_cons_self
    refine h.advance hst rfl rfl h.origin_nonneg h.uptime_nonneg ⟨?_, ?_, ?_⟩
      (fun _ hh => by cases hh) ?_
    · rintro _ ⟨rfl⟩
      exact h.generation_le t _ hf v rfl
    · rintro _ ⟨rfl⟩
      exact h.ahead t _ hf v rfl
    · rintro _ ⟨rfl⟩ hgen
      refine (h.current t _ hf v rfl hgen).imp_left fun hn => exists_mem_update hn fun hmem => ?_
      rw [hst] at hmem
      exact List.mem_cons_of_mem _ ((List.mem_cons.mp hmem).resolve_left (by simp))
    · rintro _ ⟨rfl⟩ d' hd'
      obtain rfl := Option.some.inj hd'
      refine ⟨(h.holding t v hf).update rfl fun k _ hmem => ?_, hwait⟩
      rw [hst] at hmem
      exact List.mem_cons_of_mem _ ((List.mem_cons.mp hmem).resolve_left (by simp))

theorem watched_step : PreservesWhen (fire (step (κ := κ))) BroadcastsInTime
    (fun c => Consistent [] c ∧ Watched c) := by
  rintro c ⟨t, e⟩ c' hok hstep ⟨hc, hw⟩
  obtain ⟨s', st', hp, rfl⟩ := fire_eq_some.mp hstep
  exact ⟨hc.effect (effect_of_step hp), hw.step hc.ownership hc.ledger.table hok hp⟩

end Watch

/-- Every call that notifies the worker has done so. -/
def Notified (c : System κ) : Prop :=
  ∀ t, .notify ∉ c.thread t ∧ ∀ k, .broadcast k ∉ c.thread t

/-- A wait until the host deadline, or without one, that the state of the service calls for. -/
def Justified (d : Option ℤ) (s : Service κ) : Prop :=
  s.state = .running ∧ (s.alarms = [] ∨ s.deliveryActive = true ∨
    ∀ e ∈ s.alarms, s.clock.hostOriginNs + e.1 * kNanosPerMicrosecond ≤ int64Max →
      ∃ hostNs, d = some hostNs ∧ hostNs ≤ s.clock.hostOriginNs + e.1 * kNanosPerMicrosecond)

/-- The wait that a current view leads to is justified. -/
theorem justified_of_current {s : Service κ} (ht : TableOk s) {v : WorkerView} {d : Option ℤ}
    (hv : Current v s) (hd : waitDeadline v s = some d) (ho : 0 ≤ s.clock.hostOriginNs)
    (hahead : v.waitForDeadline = true → 0 < v.deadlineUs * kNanosPerMicrosecond) :
    Justified d s := by
  obtain ⟨hrun, hnil | hactive | ⟨first, rest, hs, hwait, hdl⟩⟩ := hv
  · exact ⟨hrun, Or.inl hnil⟩
  · exact ⟨hrun, Or.inr (Or.inl hactive)⟩
  · refine ⟨hrun, Or.inr (Or.inr fun e he hfit => ?_)⟩
    have hpos := hahead hwait
    have hfirst : first.1 * kNanosPerMicrosecond ≤ e.1 * kNanosPerMicrosecond := by
      refine Int.mul_le_mul_of_nonneg_right ?_ (by decide)
      by_cases hid : e.2.id = first.2.id
      · rw [ht.eq_of_id he (by simp [hs]) hid]
      · exact (ht.first_le hs he hid).elim le_of_lt fun hh => hh.1.le
    rw [hdl] at hpos
    simp only [waitDeadline, hwait, if_true, hdl, ht.toNanos (e := first) (by simp [hs]),
      Option.map_some, Option.some.injEq] at hd
    refine ⟨s.clock.hostOriginNs + first.1 * kNanosPerMicrosecond, ?_, by omega⟩
    rw [← hd, Publication.hostDeadlineNs, if_neg (by omega), if_pos (by omega)]

/-- The worker blocks only where its wait is justified, as long as no broadcast is lost on it. -/
theorem worker_wait_justified (autoSync : Bool) {hostNowNs : ℤ} (hhost : 0 ≤ hostNowNs)
    {es : List (ℕ × Event κ)} {c : System κ}
    (hr : run (fire step) (start (initial autoSync hostNowNs)) es = some c)
    (hmeets : Meets (fire step) BroadcastsInTime (start (initial autoSync hostNowNs)) es)
    (hnotified : Notified c) {t : ℕ} {v : WorkerView} (hv : .workerBlocked v ∈ c.thread t)
    {d : Option ℤ} (hd : c.shared.waiter = some d) : Justified d c.shared.service := by
  obtain ⟨hc, hw⟩ := watched_step.run hmeets hr
    ⟨consistent_start (tableOk_initial _ _) rfl, watched_start autoSync hhost⟩
  obtain ⟨haw, hwait⟩ := hw.blocked t v hv d hd
  have hgen : c.shared.generation = v.generation := by
    rcases haw with hgen | ⟨u, k, hk, -⟩
    · exact hgen
    · exact absurd hk ((hnotified u).2 k)
  have hcur : Current v c.shared.service := by
    rcases hw.current t _ hv v rfl hgen with ⟨u, hu⟩ | hcur
    · exact absurd hu (hnotified u).1
    · exact hcur
  exact justified_of_current hc.ledger.table hcur hwait hw.origin_nonneg (hw.ahead t _ hv v rfl)

section Instances

/-- An alarm is scheduled, and the worker goes to sleep until its host deadline. -/
def soundSleep : List (ℕ × Event Unit) :=
  [(1, .schedule 100 ()), (1, .resume), (1, .resume), (0, .resume), (0, .resume), (0, .resume)]

theorem broadcastsInTime_of_head {c : System κ} {a : ℕ × Event κ} {f : Frame κ}
    {rest : List (Frame κ)} (h : c.thread a.1 = f :: rest) (hk : ∀ k, f ≠ .broadcast k)
    (hv : ∀ v, f ≠ .workerCheck v) : BroadcastsInTime c a := by
  refine fun _ => ⟨fun k rest' hst => ?_, fun v rest' hst => ?_⟩
  · exact absurd (List.cons.inj (h.symm.trans hst)).1 (hk k)
  · exact absurd (List.cons.inj (h.symm.trans hst)).1 (hv v)

theorem worker_wait_justified_soundSleep :
    ∃ c, run (fire step) (start (initial true 0)) soundSleep = some c ∧ Notified c ∧
      c.shared.waiter = some (some 100000) ∧ Justified (some 100000) c.shared.service := by
  have hnotified : ∀ {c}, run (fire step) (start (initial true 0)) soundSleep = some c →
      Notified c := by
    intro c hc t
    obtain rfl := Option.some.inj hc
    by_cases h0 : t = 0
    · subst h0
      exact ⟨by decide, fun k => by simp⟩
    · by_cases h1 : t = 1
      · subst h1
        exact ⟨by decide, fun k => by simp [start]⟩
      · simp [Function.update, h0, h1, start]
  refine ⟨_, rfl, hnotified rfl, rfl, @worker_wait_justified Unit true 0 le_rfl soundSleep _ rfl ?_
    (hnotified rfl) 0 ⟨1, true, 100⟩ (by decide) _ rfl⟩
  refine .cons (fun h => by cases h) rfl ?_
  refine .cons (broadcastsInTime_of_head rfl (by simp) (by simp)) rfl ?_
  refine .cons (fun _ => ⟨fun k rest _ t v hv => ?_, fun v rest hst => ?_⟩) rfl ?_
  · by_cases h0 : t = 0
    · subst h0
      exact absurd (show .workerHolding v ∈ [Frame.workerLoop] from hv) (by simp)
    · by_cases h1 : t = 1
      · subst h1
        exact absurd (show .workerHolding v ∈ [Frame.broadcast 1] from hv) (by simp)
      · simp [Function.update, h0, h1, start] at hv
  · exact absurd (show [Frame.broadcast 1] = .workerCheck v :: rest from hst) (by simp)
  refine .cons (broadcastsInTime_of_head rfl (by simp) (by simp)) rfl ?_
  refine .cons (fun _ => ⟨fun k rest hst => ?_, fun v rest hst => ?_⟩) rfl ?_
  · exact absurd (show [Frame.workerCheck ⟨1, true, 100⟩] = .broadcast k :: rest from hst) (by simp)
  · obtain ⟨heq, -⟩ := List.cons.inj
      (show [Frame.workerCheck ⟨1, true, 100⟩] = .workerCheck v :: rest from hst)
    obtain rfl := Frame.workerCheck.inj heq
    decide
  exact .cons (broadcastsInTime_of_head rfl (by simp) (by simp)) rfl trivial

/-- The same, but an earlier alarm is scheduled between the worker's comparison and its block. -/
def lostBroadcast : List (ℕ × Event Unit) :=
  [(1, .schedule 100 ()), (1, .resume), (1, .resume), (0, .resume), (0, .resume),
    (1, .schedule 50 ()), (1, .resume), (1, .resume), (0, .resume)]

/-- The worker sleeps until 100 µs although an alarm is due at 50 µs. -/
theorem worker_wait_unjustified_lostBroadcast :
    ∃ c, run (fire step) (start (initial true 0)) lostBroadcast = some c ∧ Notified c ∧
      .workerBlocked ⟨1, true, 100⟩ ∈ c.thread 0 ∧ c.shared.waiter = some (some 100000) ∧
        ¬ Justified (some 100000) c.shared.service := by
  refine ⟨_, rfl, fun t => ?_, by decide, rfl, fun h => ?_⟩
  · by_cases h0 : t = 0
    · subst h0
      exact ⟨by decide, fun k => by simp⟩
    · by_cases h1 : t = 1
      · subst h1
        exact ⟨by decide, fun k => by simp [start]⟩
      · simp [Function.update, h0, h1, start]
  · rcases h.2 with hnil | hactive | hall
    · exact absurd hnil (by decide)
    · exact absurd hactive (by decide)
    · obtain ⟨hostNs, hd, hle⟩ := hall (50, ⟨⟨2, ()⟩, 1⟩) (by decide) (by decide)
      obtain rfl := Option.some.inj hd
      exact absurd hle (by decide)

end Instances

end RooTesting.AlarmThreads
