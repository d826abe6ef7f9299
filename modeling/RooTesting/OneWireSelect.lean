import RooTesting.OneWireSearch

/-! # Addressing a device

The address goes out bit by bit, and a device that finds another bit than its own is out of the
traffic until the next reset. -/
namespace RooTesting.OneWire

open DiscrepancySearch

variable {σ : Type} {F : Functions σ}

/-- The master chooses the device of an address. -/
def select (F : Functions σ) (rom : Address) (bus : Bus σ) : Option (Bus σ) := do
  let bus ← writeByte F 0x55 bus
  (List.range 8).foldlM (fun bus i => writeByte F (rom.toList.getD i 0) bus) bus

/-- The master chooses all devices. -/
def skip (F : Functions σ) (bus : Bus σ) : Option (Bus σ) := writeByte F 0xCC bus

/-- After `k` bits of the address `w`, a device still listens exactly if its own address begins so,
and after all of them it waits for its command. -/
def Device.Matches (w : Word 64) (k : ℕ) (d : Device σ) : Prop :=
  (Agree k d.bits w ∧ d.romCommand = 0x55 ∧
    (k < 64 ∧ d.state = .romCommandDataExchange ∧ d.bitsReceived = k ∨
      k = 64 ∧ d.state = .functionCommand ∧ d.bitsReceived = 0)) ∨
  (¬ Agree k d.bits w ∧ d.state = .inactive)

theorem Device.Receives.matches {d : Device σ} (h : d.Receives 0x55 8) (w : Word 64) :
    d.Matches w 0 := by
  obtain ⟨_, hcommand, ⟨hlt, _⟩ | ⟨_, hstate, hreceived⟩⟩ := h
  · omega
  · left
    refine ⟨fun i hi => absurd hi (Nat.not_lt_zero _), hcommand, Or.inl ⟨by decide, ?_, hreceived⟩⟩
    rw [hstate]
    rfl

theorem Device.Matches.next {d : Device σ} {w : Word 64} {k : Fin 64} (h : d.Matches w k) :
    ∃ e, d.writeBit F (w k) = some e ∧ e.Matches w (k + 1) := by
  rcases h with ⟨hagree, hcommand, ⟨_, hstate, hreceived⟩ | ⟨hlast, _⟩⟩ | ⟨hagree, hstate⟩
  · refine ⟨d.matchBit (w k), by simp [Device.writeBit, hstate, hcommand], ?_⟩
    have haddress : d.rom.getBit d.bitsReceived = d.bits k := by
      rw [hreceived]
      exact Rom.getBit_eq d.rom k
    unfold Device.matchBit
    dsimp only
    rw [haddress]
    by_cases hbit : d.bits k = w k
    · left
      rw [if_neg (not_not.mpr hbit), hreceived]
      by_cases hlast : k.val + 1 ≥ 64
      · rw [if_pos hlast]
        exact ⟨agree_succ.mpr ⟨hagree, hbit⟩, hcommand, Or.inr ⟨by omega, rfl, rfl⟩⟩
      · rw [if_neg hlast]
        exact ⟨agree_succ.mpr ⟨hagree, hbit⟩, hcommand, Or.inl ⟨by omega, hstate, rfl⟩⟩
    · right
      rw [if_pos hbit]
      exact ⟨fun hboth => hbit (agree_succ.mp hboth).2, rfl⟩
  · omega
  · refine ⟨d, by simp [Device.writeBit, hstate], Or.inr ⟨?_, hstate⟩⟩
    intro hboth
    exact hagree (agree_succ.mp hboth).1

/-- Every byte of the address carries eight of its bits. -/
theorem writeByte_matches {bus : Bus σ} {rom : Address} {j : ℕ} (hj : j < 8)
    (h : ∀ d ∈ bus.devices, d.Matches (word rom) (8 * j)) :
    ∃ bus', writeByte F (rom.toList.getD j 0) bus = some bus' ∧
      bus'.devices.map Device.rom = bus.devices.map Device.rom ∧
      ∀ d ∈ bus'.devices, d.Matches (word rom) (8 * (j + 1)) := by
  refine writeByte_forall (P := fun i d => d.Matches (word rom) (8 * j + i)) h ?_
  intro i hi d hd
  have hbit : word rom (⟨8 * j + i, by omega⟩ : Fin 64) = (rom.toList.getD j 0).getLsbD i := by
    rw [word_apply, addressBit]
    dsimp only
    rw [show (8 * j + i) / 8 = j by omega, show (8 * j + i) % 8 = i by omega]
  rw [← hbit]
  exact Device.Matches.next (k := ⟨8 * j + i, by omega⟩) hd

/-- After a reset the whole address is compared. -/
theorem select_matches (F : Functions σ) (rom : Address) (bus : Bus σ) :
    ∃ bus', select F rom bus.reset.2 = some bus' ∧
      bus'.devices.map Device.rom = bus.devices.map Device.rom ∧
      ∀ d ∈ bus'.devices, d.Matches (word rom) 64 := by
  obtain ⟨bus₁, hwrite, hroms₁, hreceives⟩ := writeByte_receives F 0x55 bus
  have hloop := foldlM_range (n := 8) (f := fun b i => writeByte F (rom.toList.getD i 0) b)
    (P := fun j (b : Bus σ) => b.devices.map Device.rom = bus.devices.map Device.rom ∧
      ∀ d ∈ b.devices, d.Matches (word rom) (8 * j))
    ⟨hroms₁, fun d hd => (hreceives d hd).matches (word rom)⟩ (by
      intro j hj b hb
      obtain ⟨hroms, hall⟩ := hb
      obtain ⟨c, hbyte, hroms', hall'⟩ := writeByte_matches (F := F) hj hall
      exact ⟨c, hbyte, hroms'.trans hroms, hall'⟩)
  obtain ⟨bus', hselect, hroms, hall⟩ := hloop
  refine ⟨bus', ?_, hroms, hall⟩
  rw [select, hwrite]
  exact hselect

theorem Device.Matches.state {d : Device σ} {rom : Address} (h : d.Matches (word rom) 64) :
    d.state = if d.rom.raw = rom then .functionCommand else .inactive := by
  have hagree : Agree 64 d.bits (word rom) ↔ d.rom.raw = rom := by
    constructor
    · intro h
      exact word_injective h.eq
    · intro h
      rw [Device.bits, h]
      exact Agree.refl 64 _
  rcases h with ⟨heq, _, ⟨hlt, _⟩ | ⟨_, hstate, _⟩⟩ | ⟨hne, hstate⟩
  · omega
  · rw [if_pos (hagree.mp heq), hstate]
  · rw [if_neg (mt hagree.mpr hne), hstate]

/-- What a master does on the bus between two resets. -/
inductive Slot where
  | write (bit : Bool)
  | read
  deriving DecidableEq, Repr

def Device.slot (F : Functions σ) (d : Device σ) : Slot → Option (Bool × Device σ)
  | .write bit => (d.writeBit F bit).map fun d => (true, d)
  | .read => d.readBit F

/-- One time slot; the wire is high where nothing is read. -/
def Bus.slot (F : Functions σ) (bus : Bus σ) : Slot → Option (Bool × Bus σ)
  | .write bit => (bus.writeBit F bit).map fun bus => (true, bus)
  | .read => bus.readBit F

/-- The traffic of a list of time slots, with the bits read. -/
def Bus.traffic (F : Functions σ) : List Slot → Bus σ → Option (List Bool × Bus σ)
  | [], bus => some ([], bus)
  | slot :: slots, bus => do
    let (bit, bus) ← bus.slot F slot
    let (bits, bus) ← Bus.traffic F slots bus
    some (bit :: bits, bus)

theorem Device.slot_inactive {d : Device σ} (h : d.state = .inactive) (slot : Slot) :
    d.slot F slot = some (true, d) := by
  cases slot with
  | write bit => simp [Device.slot, Device.writeBit, h]
  | read => simp [Device.slot, Device.readBit, h]

theorem Bus.writeBit_devices {bus bus' : Bus σ} {bit : Bool} (h : bus.writeBit F bit = some bus') :
    Bus.writeDevices F bit bus.devices = some bus'.devices := by
  unfold Bus.writeBit at h
  split at h
  · cases h
  · rename_i ds hds
    obtain rfl := Option.some.inj h
    exact hds

theorem Bus.readBit_devices {bus bus' : Bus σ} {bit : Bool}
    (h : bus.readBit F = some (bit, bus')) :
    Bus.readDevices F bus.devices = some (bit, bus'.devices) := by
  unfold Bus.readBit at h
  split at h
  · cases h
  · rename_i bit' ds hds
    obtain ⟨rfl, rfl⟩ := Prod.mk.inj (Option.some.inj h)
    exact hds

/-- Every device of the bus takes the time slot on its own. -/
theorem writeDevices_getElem {bit : Bool} {ds es : List (Device σ)} {i : ℕ} {d : Device σ}
    (h : Bus.writeDevices F bit ds = some es) (hd : ds[i]? = some d) :
    ∃ e, d.slot F (.write bit) = some (true, e) ∧ es[i]? = some e := by
  induction ds generalizing es i with
  | nil => simp at hd
  | cons d₀ ds ih =>
    simp only [Bus.writeDevices, Option.bind_eq_bind, Option.bind_eq_some_iff,
      Option.some.injEq] at h
    obtain ⟨e₀, he₀, rest, hrest, rfl⟩ := h
    cases i with
    | zero =>
      obtain rfl : d₀ = d := by simpa using hd
      exact ⟨e₀, by simp [Device.slot, he₀], by simp⟩
    | succ i => simpa using ih hrest (by simpa using hd)

theorem readDevices_getElem {bit : Bool} {ds es : List (Device σ)} {i : ℕ} {d : Device σ}
    (h : Bus.readDevices F ds = some (bit, es)) (hd : ds[i]? = some d) :
    ∃ answer e, d.slot F .read = some (answer, e) ∧ es[i]? = some e := by
  induction ds generalizing bit es i with
  | nil => simp at hd
  | cons d₀ ds ih =>
    simp only [Bus.readDevices, Option.bind_eq_bind, Option.bind_eq_some_iff,
      Option.some.injEq, Prod.mk.injEq] at h
    obtain ⟨⟨answer, e₀⟩, he₀, ⟨bits, rest⟩, hrest, _, rfl⟩ := h
    cases i with
    | zero =>
      obtain rfl : d₀ = d := by simpa using hd
      exact ⟨answer, e₀, he₀, by simp⟩
    | succ i => simpa using ih hrest (by simpa using hd)

theorem Bus.slot_getElem {bus bus' : Bus σ} {slot : Slot} {bit : Bool} {i : ℕ} {d : Device σ}
    (h : bus.slot F slot = some (bit, bus')) (hd : bus.devices[i]? = some d) :
    ∃ answer e, d.slot F slot = some (answer, e) ∧ bus'.devices[i]? = some e := by
  cases slot with
  | write b =>
    obtain ⟨bus₁, hwrite, heq⟩ := Option.map_eq_some_iff.mp h
    obtain ⟨-, rfl⟩ := Prod.mk.inj heq
    exact ⟨true, writeDevices_getElem (Bus.writeBit_devices hwrite) hd⟩
  | read => exact readDevices_getElem (Bus.readBit_devices h) hd

/-- A device that is out of the traffic stays out of it, by induction on the time slots. -/
theorem Bus.traffic_inactive {slots : List Slot} {bus bus' : Bus σ} {bits : List Bool} {i : ℕ}
    {d : Device σ} (h : Bus.traffic F slots bus = some (bits, bus'))
    (hd : bus.devices[i]? = some d) (hstate : d.state = .inactive) :
    bus'.devices[i]? = some d := by
  induction slots generalizing bus bits with
  | nil =>
    obtain ⟨-, rfl⟩ := Prod.mk.inj (Option.some.inj h)
    exact hd
  | cons slot slots ih =>
    simp only [Bus.traffic, Option.bind_eq_bind, Option.bind_eq_some_iff, Option.some.injEq,
      Prod.mk.injEq] at h
    obtain ⟨⟨bit, bus₁⟩, hslot, ⟨rest, bus₂⟩, hrest, _, rfl⟩ := h
    obtain ⟨answer, e, hdevice, he⟩ := Bus.slot_getElem hslot hd
    rw [Device.slot_inactive hstate] at hdevice
    obtain ⟨-, rfl⟩ := Prod.mk.inj (Option.some.inj hdevice)
    exact ih hrest he

/-- The devices of an address are one or none. -/
theorem Bus.count_raw (bus : Bus σ) (rom : Address) :
    (bus.devices.map fun d => d.rom.raw).count rom ≤ 1 :=
  List.nodup_iff_count_le_one.mp bus.raw_nodup rom

/-- After a reset, `select` leaves exactly the device of the address, if there is one, waiting for
its command; the others are out of the traffic of all time slots up to the next reset. `skip`
leaves all of them waiting. -/
theorem select_addresses (F : Functions σ) (rom : Address) (bus : Bus σ) :
    (∃ bus', select F rom bus.reset.2 = some bus' ∧
      bus'.devices.map Device.rom = bus.devices.map Device.rom ∧
      (∀ d ∈ bus'.devices, d.state = if d.rom.raw = rom then .functionCommand else .inactive) ∧
      (bus'.devices.countP fun d => d.state = .functionCommand) =
        (if rom ∈ bus.devices.map (fun d => d.rom.raw) then 1 else 0) ∧
      ∀ slots bits bus'', Bus.traffic F slots bus' = some (bits, bus'') →
        ∀ (i : ℕ) (d : Device σ), bus'.devices[i]? = some d → d.rom.raw ≠ rom →
          bus''.devices[i]? = some d ∧ ∀ slot, d.slot F slot = some (true, d)) ∧
    ∃ bus', skip F bus.reset.2 = some bus' ∧
      bus'.devices.map Device.rom = bus.devices.map Device.rom ∧
      ∀ d ∈ bus'.devices, d.state = .functionCommand := by
  constructor
  · obtain ⟨bus', hselect, hroms, hmatches⟩ := select_matches F rom bus
    have hstates : ∀ d ∈ bus'.devices,
        d.state = if d.rom.raw = rom then .functionCommand else .inactive :=
      fun d hd => (hmatches d hd).state
    refine ⟨bus', hselect, hroms, hstates, ?_, ?_⟩
    · have hcount : (bus'.devices.countP fun d => d.state = .functionCommand) =
          (bus'.devices.map fun d => d.rom.raw).count rom := by
        rw [List.count, List.countP_map]
        apply List.countP_congr
        intro d hd
        rw [hstates d hd]
        by_cases heq : d.rom.raw = rom
        · simp [heq]
        · simp [heq]
      have hraws : (bus'.devices.map fun d => d.rom.raw) = bus.devices.map fun d => d.rom.raw := by
        have := congrArg (List.map Rom.raw) hroms
        simpa only [List.map_map, Function.comp_def] using this
      rw [hcount, hraws]
      split
      · rename_i hmem
        have hpos := List.count_pos_iff.mpr hmem
        have hle := bus.count_raw rom
        omega
      · rename_i hmem
        exact List.count_eq_zero.mpr hmem
    · intro slots bits bus'' htraffic i d hd hne
      have hstate : d.state = .inactive := by
        rw [hstates d (List.mem_of_getElem? hd), if_neg hne]
      exact ⟨Bus.traffic_inactive htraffic hd hstate, Device.slot_inactive hstate⟩
  · obtain ⟨bus', hskip, hroms, hreceives⟩ := writeByte_receives F 0xCC bus
    refine ⟨bus', hskip, hroms, ?_⟩
    intro d hd
    obtain ⟨_, _, ⟨hlt, _⟩ | ⟨_, hstate, _⟩⟩ := hreceives d hd
    · omega
    · rw [hstate]
      rfl

end RooTesting.OneWire
