import RooTesting.OneWire

/-! # Bytes on the 1-Wire bus

The devices stand in different states on one wire. What every bit keeps of each of them, a byte
keeps of all of them. -/
namespace RooTesting.OneWire

variable {σ : Type} {F : Functions σ} {bus : Bus σ}

/-- A loop that cannot fail keeps what each of its turns keeps. -/
theorem foldlM_range {α : Type} {P : ℕ → α → Prop} {f : α → ℕ → Option α} {n : ℕ} {a : α}
    (hstart : P 0 a) (hstep : ∀ i < n, ∀ a, P i a → ∃ b, f a i = some b ∧ P (i + 1) b) :
    ∃ b, (List.range n).foldlM f a = some b ∧ P n b := by
  induction n with
  | zero => exact ⟨a, rfl, hstart⟩
  | succ n ih =>
    obtain ⟨b, hfold, hb⟩ := ih fun i hi => hstep i (by omega)
    obtain ⟨c, hturn, hc⟩ := hstep n (by omega) b hb
    refine ⟨c, ?_, hc⟩
    rw [List.range_succ, List.foldlM_append, hfold]
    simp only [List.foldlM_cons, List.foldlM_nil, Option.bind_eq_bind, Option.bind_some, hturn]
    rfl

theorem Bus.writeDevices_forall {P Q : Device σ → Prop} {bit : Bool} {ds : List (Device σ)}
    (hds : ∀ d ∈ ds, P d) (hstep : ∀ d, P d → ∃ e, d.writeBit F bit = some e ∧ Q e) :
    ∃ es, Bus.writeDevices F bit ds = some es ∧ ∀ e ∈ es, Q e := by
  induction ds with
  | nil => exact ⟨[], rfl, fun e he => absurd he List.not_mem_nil⟩
  | cons d ds ih =>
    obtain ⟨e, hwrite, he⟩ := hstep d (hds d List.mem_cons_self)
    obtain ⟨es, hwrites, hes⟩ := ih fun d hd => hds d (List.mem_cons_of_mem _ hd)
    refine ⟨e :: es, by simp [Bus.writeDevices, hwrite, hwrites], ?_⟩
    intro e' he'
    rcases List.mem_cons.mp he' with rfl | he'
    · exact he
    · exact hes e' he'

theorem Bus.writeBit_forall {P Q : Device σ → Prop} {bit : Bool} (hbus : ∀ d ∈ bus.devices, P d)
    (hstep : ∀ d, P d → ∃ e, d.writeBit F bit = some e ∧ Q e) :
    ∃ bus', bus.writeBit F bit = some bus' ∧
      bus'.devices.map Device.rom = bus.devices.map Device.rom ∧ ∀ d ∈ bus'.devices, Q d := by
  obtain ⟨es, hwrites, hes⟩ := Bus.writeDevices_forall hbus hstep
  obtain ⟨bus', hwrite, rfl⟩ := Bus.writeBit_eq hwrites
  exact ⟨bus', hwrite, Bus.writeDevices_rom hwrites, hes⟩

theorem decide_mask (v : Byte) {i : ℕ} (hi : i < 8) :
    decide (v &&& 1#8 <<< i ≠ 0) = v.getLsbD i := by
  have hmask : 1#8 <<< i = BitVec.twoPow 8 i := rfl
  rw [hmask, BitVec.and_twoPow]
  cases v.getLsbD i with
  | false => simp
  | true =>
    have : ∀ j < 8, decide (BitVec.twoPow 8 j ≠ 0) = true := by decide
    simpa using this i hi

/-- The bits of a byte go out from the low one on. -/
theorem writeByte_forall {P : ℕ → Device σ → Prop} {v : Byte} (hstart : ∀ d ∈ bus.devices, P 0 d)
    (hstep : ∀ i < 8, ∀ d, P i d → ∃ e, d.writeBit F (v.getLsbD i) = some e ∧ P (i + 1) e) :
    ∃ bus', writeByte F v bus = some bus' ∧
      bus'.devices.map Device.rom = bus.devices.map Device.rom ∧ ∀ d ∈ bus'.devices, P 8 d := by
  refine foldlM_range (P := fun i (b : Bus σ) => b.devices.map Device.rom =
    bus.devices.map Device.rom ∧ ∀ d ∈ b.devices, P i d) ⟨rfl, hstart⟩ ?_
  intro i hi b hb
  obtain ⟨hroms, hall⟩ := hb
  obtain ⟨c, hwrite, hroms', hall'⟩ := Bus.writeBit_forall hall (hstep i hi)
  rw [decide_mask v hi]
  exact ⟨c, hwrite, hroms'.trans hroms, hall'⟩

/-- A device that has received `i` bits of a command after a reset. -/
def Device.Receives (command : Byte) (i : ℕ) (d : Device σ) : Prop :=
  d.bitsSent = 0 ∧ d.romCommand = command <<< (8 - i) ∧
    (i < 8 ∧ d.state = .romCommand ∧ d.bitsReceived = i ∨
      i = 8 ∧ d.state = (if command = 0xCC then .functionCommand else .romCommandDataExchange) ∧
        d.bitsReceived = 0)

theorem Device.Receives.reset (command : Byte) (d : Device σ) : d.reset.Receives command 0 :=
  ⟨rfl, (BitVec.shiftLeft_eq_zero le_rfl).symm, Or.inl ⟨by decide, rfl, rfl⟩⟩

theorem shiftIn_next (command : Byte) {i : ℕ} (hi : i < 8) :
    shiftIn (command <<< (8 - i)) (command.getLsbD i) = command <<< (8 - (i + 1)) := by
  have hall : ∀ i < 8, ∀ command : Byte,
      shiftIn (command <<< (8 - i)) (command.getLsbD i) = command <<< (8 - (i + 1)) := by
    decide +kernel
  exact hall i hi command

theorem Device.Receives.next {command : Byte} {d : Device σ} {i : ℕ} (hi : i < 8)
    (h : d.Receives command i) :
    ∃ e, d.writeBit F (command.getLsbD i) = some e ∧ e.Receives command (i + 1) := by
  obtain ⟨hsent, hcommand, ⟨_, hstate, hreceived⟩ | ⟨hlast, _⟩⟩ := h
  · refine ⟨d.receiveCommand (command.getLsbD i), by simp [Device.writeBit, hstate], ?_⟩
    unfold Device.receiveCommand Device.Receives
    rw [hcommand, shiftIn_next command hi, hreceived]
    by_cases hlast : i + 1 ≥ 8
    · obtain rfl : i = 7 := by omega
      simp [hsent]
    · simp [hlast, hsent, hstate]
      omega
  · omega

/-- After a reset every device receives the command. -/
theorem writeByte_receives (F : Functions σ) (command : Byte) (bus : Bus σ) :
    ∃ bus', writeByte F command bus.reset.2 = some bus' ∧
      bus'.devices.map Device.rom = bus.devices.map Device.rom ∧
      ∀ d ∈ bus'.devices, d.Receives command 8 := by
  have hstart : ∀ d ∈ bus.reset.2.devices, d.Receives command 0 := by
    intro d hd
    obtain ⟨e, _, rfl⟩ := List.mem_map.mp hd
    exact Device.Receives.reset command e
  obtain ⟨bus', hwrite, hroms, hall⟩ :=
    writeByte_forall hstart fun i hi d hd => hd.next (F := F) hi
  refine ⟨bus', hwrite, ?_, hall⟩
  rw [hroms]
  simp [Bus.reset, Bus.withDevices, Function.comp_def, Device.reset]

end RooTesting.OneWire
