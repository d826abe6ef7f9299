import RooTesting.PinAgreement
import RooTesting.UartCables

/-! # Serial links

Whatever is configured and whoever reads: no byte on a cable is lost, doubled or reordered, and a
UART with an end of its own passes the bytes on in the order in which they were sent. -/
namespace RooTesting.UartCables
open PinRouting Transition

variable {σ : Type} {b : Board} {F : ℕ → ForeignDevice σ} {s s' : State σ} {e : End} {n : ℕ}

/-- What an end was sent is taken or waits there, and what a sketch has taken from its UART is
returned, lost with the end of the UART, or peeked at. -/
structure Inv (s : State σ) : Prop where
  devices : (s.attached.map Attached.device).Nodup
  ends : ∀ e, s.sent e = takenFrom e s.taken ++ s.received e
  sketch : ∀ n, takenBy (.arduino n) s.taken = (s.fates n).map Prod.fst ++ peekSlot s n

theorem Wrote.slot {news : End → Bytes} (h : Wrote s s' news) (n : ℕ) :
    peekSlot s' n = peekSlot s n :=
  peekSlot_congr (by rw [h.world]) (by rw [h.peeked])

/-- The bytes of a list of fates. -/
theorem map_fst_fates (bytes : Bytes) (returned : Bool) :
    (bytes.map (·, returned)).map Prod.fst = bytes := by
  rw [List.map_map]
  exact List.map_id _

theorem Wrote.inv {news : End → Bytes} (h : Wrote s s' news) (hs : Inv s) : Inv s' := by
  refine ⟨h.attached ▸ hs.devices, fun e => ?_, fun n => ?_⟩
  · rw [h.sent, h.received, h.taken, hs.ends, List.append_assoc]
  · rw [h.taken, h.fates, h.slot]
    exact hs.sketch n

/-- Bytes that no sketch takes. -/
theorem Took.inv {taker : Taker} {device : Device} {bytes : Bytes}
    (h : Took s s' taker device bytes) (htaker : ∀ n, taker ≠ .arduino n) (hs : Inv s) : Inv s' := by
  refine ⟨h.attached ▸ hs.devices, fun e => ?_, fun n => ?_⟩
  · rw [h.sent, h.taken, takenFrom_append, hs.ends, h.received e, List.append_assoc]
  · rw [h.taken, takenBy_append, if_neg (htaker n), List.append_nil, h.fates, h.slot]
    exact hs.sketch n

theorem Called.inv {returned : Bytes} (h : Called b s s' n returned) (hs : Inv s) : Inv s' := by
  obtain ⟨bytes, hslot, htook⟩ := h.took
  refine ⟨h.attached ▸ hs.devices, fun e => ?_, fun m => ?_⟩
  · rcases htook with ⟨-, htaken, hreceived⟩ | ⟨device, -, htaken, hreceived⟩
    · rw [h.sent, htaken, hreceived, hs.ends]
    · rw [h.sent, htaken, takenFrom_append, hs.ends, hreceived e, List.append_assoc]
  · have htakenBy : takenBy (.arduino m) s'.taken =
        takenBy (.arduino m) s.taken ++ if n = m then bytes else [] := by
      rcases htook with ⟨hnil, htaken, -⟩ | ⟨device, -, htaken, -⟩
      · rw [htaken, hnil, ite_self, List.append_nil]
      · rw [htaken, takenBy_append]
        simp only [Taker.arduino.injEq]
    rw [htakenBy, hs.sketch, h.fates]
    by_cases hm : m = n
    · subst hm
      rw [if_pos rfl, Function.update_self, List.append_assoc, hslot, List.map_append,
        map_fst_fates, List.append_assoc]
    · rw [if_neg (Ne.symm hm), List.append_nil, Function.update_of_ne hm, h.slot m hm]

theorem Configured.inv {call : PinRouting.Call} (h : Configured s s' call) (hs : Inv s) :
    Inv s' := by
  refine ⟨h.attached ▸ hs.devices, fun e => ?_, fun n => ?_⟩
  · rw [h.sent, h.taken, h.received, hs.ends]
  · obtain ⟨lost, hfates, hslot, -⟩ := h.slot n
    rw [h.taken, hs.sketch, hslot, hfates, List.map_append, map_fst_fates, List.append_assoc]

theorem step_inv : Preserves (step b F) Inv := by
  intro s a s' h hs
  cases a with
  | configure call =>
    obtain rfl := Option.some.inj h
    exact (configured call).inv hs
  | uartReadBytes number size =>
    obtain rfl := Option.some.inj h
    exact (uartReadBytes_called number size).1.inv hs
  | uartPeek number =>
    obtain rfl := Option.some.inj h
    exact (uartPeek_called number).1.inv hs
  | uartAvailable number =>
    obtain rfl := Option.some.inj h
    unfold uartAvailable
    split_ifs
    · exact hs
    · exact (availableForRead_wrote number).inv hs
  | uartWriteBuf number data =>
    obtain rfl := Option.some.inj h
    unfold uartWriteBuf
    split_ifs
    · exact hs
    · exact (write_wrote number data).inv hs
  | idfReadBytes number length =>
    obtain rfl := Option.some.inj h
    split_ifs
    · exact hs
    · rcases (read_took (b := b) (F := F) (s := s) (.idf number) number length).2 with
        ⟨-, hnothing⟩ | ⟨device, -, htook⟩
      · rw [hnothing]
        exact hs
      · exact htook.inv (fun _ => Taker.noConfusion) hs
  | idfWriteBytes number data =>
    obtain rfl := Option.some.inj h
    split_ifs
    · exact hs
    · exact (write_wrote number data).inv hs
  | idfBufferedDataLen number =>
    obtain rfl := Option.some.inj h
    split_ifs
    · exact hs
    · exact (availableForRead_wrote number).inv hs
  | ownerWrite e buf =>
    obtain rfl := Option.some.inj h
    exact (device_write (.endpoint e) buf).inv hs
  | ownerRead e size =>
    obtain rfl := Option.some.inj h
    exact (device_read .owner size (.endpoint e)).1.inv (fun _ => Taker.noConfusion) hs

/-- UART `n` reads from the end `e` and nobody else takes bytes there or from the UART. -/
def Linked (b : Board) (n : ℕ) (e : End) (s : State σ) (a : Act) : Prop :=
  source b s n = some (.endpoint e) ∧ (∀ m, m ≠ n → source b s m ≠ some (.endpoint e)) ∧
    match a with
    | .configure (.uartEnd m) => m ≠ n
    | .idfReadBytes m _ => m ≠ n
    | .ownerRead e' _ => e' ≠ e
    | _ => True

/-- What is on its way to the sketch. -/
def onWay (n : ℕ) (e : End) (s : State σ) : Bytes := peekSlot s n ++ s.received e

/-- New bytes come in and some are returned, the oldest first. -/
structure Flows (n : ℕ) (e : End) (s s' : State σ) (news returned : Bytes) : Prop where
  sent : s'.sent e = s.sent e ++ news
  fates : s'.fates n = s.fates n ++ returned.map (·, true)
  onWay : onWay n e s ++ news = returned ++ onWay n e s'

theorem Flows.refl (s : State σ) : Flows n e s s [] [] :=
  ⟨(List.append_nil _).symm, (List.append_nil _).symm, List.append_nil _⟩

theorem Flows.trans {t : State σ} {news news' returned returned' : Bytes}
    (h : Flows n e s s' news returned) (h' : Flows n e s' t news' returned') :
    Flows n e s t (news ++ news') (returned ++ returned') where
  sent := by rw [h'.sent, h.sent, List.append_assoc]
  fates := by rw [h'.fates, h.fates, List.map_append, List.append_assoc]
  onWay := by rw [← List.append_assoc, h.onWay, List.append_assoc, h'.onWay, List.append_assoc]

theorem Wrote.flows {news : End → Bytes} (h : Wrote s s' news) : Flows n e s s' (news e) [] := by
  refine ⟨h.sent e, by rw [h.fates]; exact (List.append_nil _).symm, ?_⟩
  rw [onWay, onWay, h.slot, h.received,
    List.nil_append, List.append_assoc]

/-- Bytes that somebody takes elsewhere. -/
theorem Took.flows {taker : Taker} {device : Device} {bytes : Bytes}
    (h : Took s s' taker device bytes) (hdevice : device ≠ .endpoint e) : Flows n e s s' [] [] := by
  have hreceived := h.received e
  rw [if_neg hdevice, List.nil_append] at hreceived
  refine ⟨by rw [h.sent, List.append_nil], by rw [h.fates]; exact (List.append_nil _).symm, ?_⟩
  rw [onWay, onWay, h.slot, hreceived, List.append_nil, List.nil_append]

theorem Called.flows_self {returned : Bytes} (h : Called b s s' n returned)
    (hsource : source b s n = some (.endpoint e)) : Flows n e s s' [] returned := by
  obtain ⟨bytes, hslot, htook⟩ := h.took
  refine ⟨by rw [h.sent, List.append_nil], by rw [h.fates, Function.update_self], ?_⟩
  rw [onWay, onWay, List.append_nil]
  rcases htook with ⟨rfl, -, hreceived⟩ | ⟨device, hdevice, -, hreceived⟩
  · rw [List.append_nil] at hslot
    rw [hreceived, hslot, List.append_assoc]
  · rw [hsource] at hdevice
    obtain rfl := Option.some.inj hdevice
    rw [hreceived e, if_pos rfl, ← List.append_assoc, hslot, List.append_assoc]

theorem Called.flows_other {m : ℕ} {returned : Bytes} (h : Called b s s' m returned) (hm : m ≠ n)
    (hsource : source b s m ≠ some (.endpoint e)) : Flows n e s s' [] [] := by
  obtain ⟨bytes, -, htook⟩ := h.took
  have hreceived : s'.received e = s.received e := by
    rcases htook with ⟨-, -, hreceived⟩ | ⟨device, hdevice, -, hreceived⟩
    · rw [hreceived]
    · have hboth := hreceived e
      have hne : device ≠ .endpoint e := by
        rintro rfl
        exact hsource hdevice
      rw [if_neg hne] at hboth
      exact hboth.symm
  refine ⟨by rw [h.sent, List.append_nil], ?_, ?_⟩
  · rw [h.fates, Function.update_of_ne hm.symm]
    exact (List.append_nil _).symm
  · rw [onWay, onWay, h.slot n hm.symm, hreceived, List.append_nil, List.nil_append]

theorem Configured.flows {call : PinRouting.Call} (h : Configured s s' call)
    (hcall : call ≠ .uartEnd n) : Flows n e s s' [] [] := by
  obtain ⟨lost, hfates, hslot, hlost⟩ := h.slot n
  obtain rfl := hlost.resolve_right hcall
  refine ⟨by rw [h.sent, List.append_nil], hfates, ?_⟩
  rw [onWay, onWay, hslot, h.received, List.append_nil]
  rfl

theorem step_flows {a : Act} (ha : Linked b n e s a) (h : step b F s a = some s') :
    ∃ news returned, Flows n e s s' news returned := by
  obtain ⟨hsource, hothers, hact⟩ := ha
  have hcalled : ∀ {m : ℕ} {s' : State σ} {returned : Bytes}, Called b s s' m returned →
      ∃ news returned, Flows n e s s' news returned := by
    intro m s' returned hcall
    by_cases hm : m = n
    · subst hm
      exact ⟨[], returned, hcall.flows_self hsource⟩
    · exact ⟨[], [], hcall.flows_other hm (hothers m hm)⟩
  cases a with
  | configure call =>
    obtain rfl := Option.some.inj h
    refine ⟨[], [], (configured call).flows ?_⟩
    rintro rfl
    exact hact rfl
  | uartReadBytes number size =>
    obtain rfl := Option.some.inj h
    exact hcalled (uartReadBytes_called number size).1
  | uartPeek number =>
    obtain rfl := Option.some.inj h
    exact hcalled (uartPeek_called number).1
  | uartAvailable number =>
    obtain rfl := Option.some.inj h
    unfold uartAvailable
    split_ifs
    · exact ⟨[], [], Flows.refl s⟩
    · exact ⟨[], [], (availableForRead_wrote number).flows⟩
  | uartWriteBuf number data =>
    obtain rfl := Option.some.inj h
    unfold uartWriteBuf
    split_ifs
    · exact ⟨[], [], Flows.refl s⟩
    · exact ⟨_, [], (write_wrote number data).flows⟩
  | idfReadBytes number length =>
    obtain rfl := Option.some.inj h
    split_ifs
    · exact ⟨[], [], Flows.refl s⟩
    · rcases (read_took (b := b) (F := F) (s := s) (.idf number) number length).2 with
        ⟨-, hnothing⟩ | ⟨device, hdevice, htook⟩
      · rw [hnothing]
        exact ⟨[], [], Flows.refl s⟩
      · refine ⟨[], [], htook.flows ?_⟩
        rintro rfl
        exact hothers number hact hdevice
  | idfWriteBytes number data =>
    obtain rfl := Option.some.inj h
    split_ifs
    · exact ⟨[], [], Flows.refl s⟩
    · exact ⟨_, [], (write_wrote number data).flows⟩
  | idfBufferedDataLen number =>
    obtain rfl := Option.some.inj h
    split_ifs
    · exact ⟨[], [], Flows.refl s⟩
    · exact ⟨[], [], (availableForRead_wrote number).flows⟩
  | ownerWrite e' buf =>
    obtain rfl := Option.some.inj h
    exact ⟨_, [], (device_write (.endpoint e') buf).flows⟩
  | ownerRead e' size =>
    obtain rfl := Option.some.inj h
    refine ⟨[], [], (device_read .owner size (.endpoint e')).1.flows ?_⟩
    rintro ⟨rfl⟩
    exact hact rfl

theorem run_flows {acts : List Act} {z : State σ} (hlinked : Meets (step b F) (Linked b n e) s acts)
    (hr : run (step b F) s acts = some z) : ∃ news returned, Flows n e s z news returned := by
  induction acts generalizing s with
  | nil =>
    cases hr
    exact ⟨[], [], Flows.refl _⟩
  | cons a acts ih =>
    obtain ⟨t, ht, hr⟩ := run_cons_eq_some.mp hr
    obtain ⟨news, returned, hfirst⟩ := step_flows hlinked.1 ht
    obtain ⟨news', returned', hrest⟩ := ih (hlinked.2 t ht) hr
    exact ⟨_, _, hfirst.trans hrest⟩

theorem flatten_news {list : List Attached} {buf : Bytes} (hnodup : (list.map Attached.device).Nodup)
    (e : End) :
    (list.map fun attached => attached.device.news buf e).flatten =
      if Device.endpoint (peer e) ∈ list.map Attached.device then buf else [] := by
  induction list with
  | nil => rfl
  | cons attached list ih =>
    obtain ⟨hnew, hnodup⟩ := List.nodup_cons.mp hnodup
    rw [List.map_cons, List.flatten_cons, ih hnodup, List.map_cons, Device.news]
    by_cases hdevice : attached.device = .endpoint (peer e)
    · rw [hdevice] at hnew
      rw [if_pos hdevice, if_neg hnew, if_pos (by simp [hdevice]), List.append_nil]
    · rw [if_neg hdevice, List.nil_append]
      simp [Ne.symm hdevice]

/-- A write sends the bytes that sixteen bits of its size count to each end whose other end is at a
pin that the UART drives. -/
theorem write_sent (hnodup : (s.attached.map Attached.device).Nodup) (number : ℕ) (buf : Bytes)
    (e : End) :
    (write b F s number buf).2.sent e = s.sent e ++
      if ∃ attached ∈ s.attached, attached.device = .endpoint (peer e) ∧
        drives b s number attached = true then buf.take (buf.length % 65536) else [] := by
  have hfiltered : ((s.attached.filter (drives b s number)).map Attached.device).Nodup :=
    hnodup.sublist (List.filter_sublist.map _)
  rw [(write_wrote number buf).sent e, flatten_news hfiltered]
  refine congrArg (s.sent e ++ ·) (if_congr ?_ rfl rfl)
  simp only [List.mem_map, List.mem_filter]
  constructor
  · rintro ⟨attached, ⟨hmem, hdrives⟩, hdevice⟩
    exact ⟨attached, hmem, hdevice, hdrives⟩
  · rintro ⟨attached, hmem, hdevice, hdrives⟩
    exact ⟨attached, ⟨hmem, hdrives⟩, hdevice⟩

/-- A sketch gets the oldest bytes on their way to it, as many as it asks for. -/
theorem uartReadBytes_eq {size : ℕ} (hinstalled : (s.world.uarts n).installed = true)
    (hsource : source b s n = some (.endpoint e)) (hsize : size < 65536) :
    (uartReadBytes b F s n size).1 = (onWay n e s).take size := by
  have hnot : ¬ (s.world.uarts n).installed = false := by simp [hinstalled]
  rw [uartReadBytes, if_neg hnot, onWay]
  by_cases hzero : size = 0
  · subst hzero
    have hread : read b F s (.arduino n) n 0 = ([], (read b F s (.arduino n) n 0).2) := by
      rw [read, hsource]
      rfl
    simp only [if_true, List.length_nil, Nat.sub_zero, List.nil_append, List.take_zero]
    rw [hread]
  · have hread : ∀ {u : State σ} {k : ℕ}, source b u n = some (.endpoint e) →
        u.received e = s.received e → k < 65536 →
        (read b F u (.arduino n) n k).1 = (s.received e).take k := by
      intro u k hu hreceived hk
      rw [read, hu]
      simp only [Device.read]
      rw [hreceived, Nat.mod_eq_of_lt hk]
    simp only [if_neg hzero]
    by_cases hpeek : (s.world.uarts n).hasPeek = true
    · have hslot : peekSlot s n = [s.peeked n] := by rw [peekSlot, if_pos hpeek]
      rw [hslot, if_neg (List.cons_ne_nil _ _),
        hread (u := setHasPeek s n false) (by exact hsource) rfl (by omega)]
      obtain ⟨k, rfl⟩ := Nat.exists_eq_succ_of_ne_zero hzero
      simp
    · have hslot : peekSlot s n = [] := by rw [peekSlot, if_neg hpeek]
      rw [hslot, if_pos rfl, List.length_nil, Nat.sub_zero, hread hsource rfl hsize]
      simp

theorem uartAvailable_eq (hinstalled : (s.world.uarts n).installed = true)
    (hsource : source b s n = some (.endpoint e)) :
    (uartAvailable b F s n).1 = (onWay n e s).length := by
  have hnot : ¬ (s.world.uarts n).installed = false := by simp [hinstalled]
  rw [uartAvailable, if_neg hnot, availableForRead, hsource, onWay, List.length_append,
    Nat.add_comm]
  rfl

/-- Cables, and nothing on them yet. -/
structure Fresh (s : State σ) : Prop where
  devices : (s.attached.map Attached.device).Nodup
  received : ∀ e, s.received e = []
  sent : ∀ e, s.sent e = []
  taken : s.taken = []
  fates : ∀ n, s.fates n = []
  hasPeek : ∀ n, (s.world.uarts n).hasPeek = false

theorem Fresh.inv (h : Fresh s) : Inv s where
  devices := h.devices
  ends := fun e => by rw [h.sent, h.taken, h.received]; rfl
  sketch := fun n => by rw [h.taken, h.fates, peekSlot, h.hasPeek]; rfl

/-- In every run, whatever is configured and whoever writes and reads: what an end was sent is taken
or waits there, in order, and what a sketch has taken is returned, lost with the end of its UART or
peeked at. While a UART has an end of its own, what was on its way and what is sent are what the
sketch gets and what is on its way then, in order; a read gets the oldest bytes and `uartAvailable`
counts all. A write reaches each end whose other end the UART drives, with as many bytes as sixteen
bits of the size count. -/
theorem bytes_delivered {acts : List Act} {s₀ : State σ} (h₀ : Fresh s₀)
    (hr : run (step b F) s₀ acts = some s) :
    (∀ e, s.sent e = takenFrom e s.taken ++ s.received e) ∧
    (∀ n, takenBy (.arduino n) s.taken = (s.fates n).map Prod.fst ++ peekSlot s n) ∧
    (∀ n e more z, Meets (step b F) (Linked b n e) s more → run (step b F) s more = some z →
      ∃ news returned, z.sent e = s.sent e ++ news ∧
        z.fates n = s.fates n ++ returned.map (·, true) ∧
        onWay n e s ++ news = returned ++ onWay n e z) ∧
    (∀ n e, (s.world.uarts n).installed = true → source b s n = some (.endpoint e) →
      (uartAvailable b F s n).1 = (onWay n e s).length ∧
      ∀ size, size < 65536 → (uartReadBytes b F s n size).1 = (onWay n e s).take size) ∧
    ∀ number buf e, (write b F s number buf).2.sent e = s.sent e ++
      if ∃ attached ∈ s.attached, attached.device = .endpoint (peer e) ∧
        drives b s number attached = true then buf.take (buf.length % 65536) else [] := by
  have hs : Inv s := step_inv.run hr h₀.inv
  refine ⟨hs.ends, hs.sketch, ?_, ?_, write_sent hs.devices⟩
  · intro n e more z hlinked hrun
    obtain ⟨news, returned, hflows⟩ := run_flows hlinked hrun
    exact ⟨news, returned, hflows.sent, hflows.fates, hflows.onWay⟩
  · intro n e hinstalled hsource
    exact ⟨uartAvailable_eq hinstalled hsource, fun size hsize =>
      uartReadBytes_eq hinstalled hsource hsize⟩

/-- No device but the cables. -/
def noForeign (_ : ℕ) : ForeignDevice Unit where
  write := fun _ buf => (buf.length, ())
  read := fun _ _ => ([], ())
  availableForRead := fun _ => (0, ())
  read_le := fun _ n => Nat.zero_le n

/-- A cable between two pairs of pins. -/
def wired : State Unit where
  world := boot esp32
  attached := [⟨.endpoint (0, false), some 17, some 16⟩, ⟨.endpoint (0, true), some 25, some 26⟩]
  received := fun _ => []
  foreign := fun _ => ()
  peeked := fun _ => 0
  sent := fun _ => []
  taken := []
  fates := fun _ => []

theorem wired_fresh : Fresh wired :=
  ⟨by decide, fun _ => rfl, fun _ => rfl, rfl, fun _ => rfl, fun _ => rfl⟩

/-- One UART sends to another, which peeks and reads two bytes. -/
def chat : List Act :=
  [.configure (.uartBegin 1 9600 0 (some 16) (some 17) false 120 true),
    .configure (.uartBegin 2 9600 0 (some 26) (some 25) false 120 true),
    .uartWriteBuf 1 [1, 2, 3], .uartPeek 2, .uartReadBytes 2 2]

/-- The third byte is there to be read. -/
theorem bytes_delivered_chat :
    ∃ s, run (step esp32 noForeign) wired chat = some s ∧ s.sent (0, true) = [1, 2, 3] ∧
      takenBy (.arduino 2) s.taken = [1, 2] ∧ (uartReadBytes esp32 noForeign s 2 5).1 = [3] := by
  have hrun : run (step esp32 noForeign) wired chat =
      some ((run (step esp32 noForeign) wired chat).get (by decide +kernel)) :=
    (Option.some_get _).symm
  obtain ⟨-, -, -, hreads, -⟩ := bytes_delivered wired_fresh hrun
  obtain ⟨-, hread⟩ := hreads 2 (0, true) (by decide +kernel) (by decide +kernel)
  refine ⟨_, hrun, by decide +kernel, by decide +kernel, (hread 5 (by decide)).trans ?_⟩
  decide +kernel

end RooTesting.UartCables
