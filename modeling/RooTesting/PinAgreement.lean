import RooTesting.PinRouting

/-! # When matrices, drivers and peripheral manager agree

Giving a pin to a role is one operation on all the tables; it leaves a stale route only where the
role has another pin already and drives it. The calls of the drivers are put together from it. -/
namespace RooTesting.PinRouting
open Transition Periman

/-- The pin in the driver's own record. -/
def recorded (s : World) : Role → Option ℕ
  | .tx number => (s.uarts number).txPin
  | .rx number => (s.uarts number).rxPin
  | .cts number => (s.uarts number).ctsPin
  | .rts number => (s.uarts number).rtsPin
  | .sda bus => (s.i2cs bus).sda
  | .scl bus => (s.i2cs bus).scl

/-- The peripheral of the role is initialised. -/
def active (s : World) : Role → Bool
  | .tx number | .rx number | .cts number | .rts number => (s.uarts number).installed
  | .sda bus | .scl bus => (s.i2cs bus).initialized

/-- The pin of a role whose peripheral is initialised. -/
def configured (s : World) (r : Role) : Option ℕ := if active s r then recorded s r else none

/-- The role has a signal in one of the matrices. -/
def Role.carries : Role → Bool
  | .cts _ | .rts _ => false
  | _ => true

/-- The matrices and the peripheral manager have the routes of the initialised peripherals and
no others, except for what drives the pins of `stale`. -/
structure RoutedBut (b : Board) (stale : ℕ → Prop) (s : World) : Prop where
  out : ∀ r signal pin, b.hasRole r = true → b.outSignal r = some signal →
    b.isOutputPin pin = true → ¬ stale pin →
    (s.outMatrix pin = signal ↔ configured s r = some pin)
  inp : ∀ r signal pin, b.hasRole r = true → b.inSignal r = some signal →
    b.isValidPin pin = true → (s.inMatrix signal = pin ↔ configured s r = some pin)
  reported : ∀ r pin, b.hasRole r = true → r.carries = true → b.isValidPin pin = true →
    ((s.periman.pinAssignments pin).type = busType r ∧
      (s.periman.pinAssignments pin).bus = busOf r ↔ configured s r = some pin)

/-- Matrices, drivers and peripheral manager agree on every pin. -/
def Routed (b : Board) (s : World) : Prop := RoutedBut b (fun _ => False) s

/-- An idle peripheral has no record of a pin with a signal, a recorded pin exists, and no bus
has a callback. -/
structure Tidy (b : Board) (s : World) : Prop where
  idle : ∀ r, r.carries = true → active s r = false → recorded s r = none
  valid : ∀ r pin, recorded s r = some pin → b.isValidPin pin = true
  noCallback : ∀ type, s.periman.deinitCallbacks type = none

/-- The pin is given to the role, in every table. -/
structure Placed (b : Board) (s s' : World) (r : Role) (pin : ℕ) : Prop where
  records : recorded s' = Function.update (recorded s) r (some pin)
  actives : active s' = active s
  out : s'.outMatrix = (b.outSignal r).elim s.outMatrix (Function.update s.outMatrix pin)
  inp : s'.inMatrix =
    (b.inSignal r).elim s.inMatrix fun signal => Function.update s.inMatrix signal pin
  own : (s'.periman.pinAssignments pin).type = busType r ∧
    (s'.periman.pinAssignments pin).bus = busOf r
  others : ∀ q, q ≠ pin → (r.carries = true → recorded s r ≠ some q) →
    s'.periman.pinAssignments q = s.periman.pinAssignments q
  old : ∀ q, q ≠ pin → r.carries = true → recorded s r = some q →
    s'.periman.pinAssignments q = .free
  callbacks : s'.periman.deinitCallbacks = s.periman.deinitCallbacks

section Place

variable {b : Board} {s s' : World} {r : Role} {pin : ℕ} {stale : ℕ → Prop}

theorem busType_injective {r r' : Role} (htype : busType r = busType r') (hbus : busOf r = busOf r') :
    r = r' := by
  cases r <;> cases r' <;> simp_all [busType, busOf]

theorem configured_of_active (h : active s r = true) : configured s r = recorded s r := if_pos h

theorem recorded_of_configured (h : configured s r = some pin) : recorded s r = some pin := by
  rw [configured] at h
  split at h
  · exact h
  · cases h

theorem carries_of_outSignal {signal : ℕ} (h : b.outSignal r = some signal) : r.carries = true := by
  cases r <;> first | rfl | cases h

theorem carries_of_inSignal {signal : ℕ} (h : b.inSignal r = some signal) : r.carries = true := by
  cases r <;> first | rfl | cases h

/-- The configuration of the other roles does not change. -/
theorem Placed.configured_of_ne (h : Placed b s s' r pin) {r' : Role} (hne : r' ≠ r) :
    configured s' r' = configured s r' := by
  rw [configured, configured, h.actives, h.records, Function.update_of_ne hne]

theorem Placed.configured_self (h : Placed b s s' r pin) (hactive : active s r = true) :
    configured s' r = some pin := by
  rw [configured, h.actives, hactive, h.records, Function.update_self]
  rfl

/-- A role gets a pin that no other role has, and a role that drives its pin gets no second one. -/
theorem RoutedBut.place (h : RoutedBut b stale s) (hp : Placed b s s' r pin)
    (hrole : b.hasRole r = true) (hactive : r.carries = true → active s r = true)
    (hfree : ∀ r', b.hasRole r' = true → r'.carries = true → r' ≠ r → configured s r' ≠ some pin)
    (hstay : b.outSignal r ≠ none → recorded s r = none ∨ recorded s r = some pin) :
    RoutedBut b (fun q => stale q ∧ ¬ (q = pin ∧ b.outSignal r ≠ none)) s' := by
  refine ⟨?_, ?_, ?_⟩
  · intro r' signal q hrole' hsignal houtput hstale
    rw [hp.out]
    by_cases hr : r' = r
    · subst hr
      rw [hsignal, Option.elim_some, hp.configured_self (hactive (carries_of_outSignal hsignal))]
      by_cases hq : q = pin
      · rw [hq, Function.update_self]
        exact iff_of_true rfl rfl
      · rw [Function.update_of_ne hq]
        have hbut : ¬ stale q := fun hs => hstale ⟨hs, fun hqp => hq hqp.1⟩
        rw [h.out r' signal q hrole' hsignal houtput hbut]
        refine iff_of_false (fun hq' => ?_) fun hq' => hq (Option.some.inj hq').symm
        obtain hnone | hsame := hstay (by rw [hsignal]; nofun)
        · cases hnone.symm.trans (recorded_of_configured hq')
        · exact hq (Option.some.inj ((recorded_of_configured hq').symm.trans hsame))
    · rw [hp.configured_of_ne hr]
      cases hown : b.outSignal r with
      | none =>
        refine h.out r' signal q hrole' hsignal houtput fun hs => hstale ⟨hs, fun hqp => ?_⟩
        exact hqp.2 hown
      | some own =>
        rw [Option.elim_some]
        by_cases hq : q = pin
        · rw [hq, Function.update_self]
          refine iff_of_false (fun heq => hr ?_) (hfree r' hrole' (carries_of_outSignal hsignal) hr)
          exact b.out_injective r' r signal hrole' hrole hsignal (heq ▸ hown)
        · rw [Function.update_of_ne hq]
          exact h.out r' signal q hrole' hsignal houtput fun hs => hstale ⟨hs, fun hqp => hq hqp.1⟩
  · intro r' signal q hrole' hsignal hq
    rw [hp.inp]
    by_cases hr : r' = r
    · subst hr
      rw [hsignal, Option.elim_some, hp.configured_self (hactive (carries_of_inSignal hsignal)),
        Function.update_self, Option.some.injEq]
    · rw [hp.configured_of_ne hr]
      cases hown : b.inSignal r with
      | none => exact h.inp r' signal q hrole' hsignal hq
      | some own =>
        have hne : signal ≠ own := fun heq =>
          hr (b.in_injective r' r signal hrole' hrole hsignal (heq ▸ hown))
        rw [Option.elim_some, Function.update_of_ne hne]
        exact h.inp r' signal q hrole' hsignal hq
  · intro r' q hrole' hcarries hq
    by_cases hr : r' = r
    · subst hr
      rw [hp.configured_self (hactive hcarries), Option.some.injEq]
      by_cases hqp : q = pin
      · rw [hqp]
        exact iff_of_true hp.own rfl
      · refine iff_of_false (fun hown => ?_) (Ne.symm hqp)
        by_cases hold : recorded s r' = some q
        · rw [hp.old q hqp hcarries hold] at hown
          cases r' <;> cases hown.1
        · rw [hp.others q hqp fun _ => hold] at hown
          have hconfigured := (h.reported r' q hrole' hcarries hq).mp hown
          exact hold (recorded_of_configured hconfigured)
    · rw [hp.configured_of_ne hr]
      by_cases hqp : q = pin
      · rw [hqp]
        refine iff_of_false (fun hown => hr ?_) (hfree r' hrole' hcarries hr)
        exact busType_injective (hown.1.symm.trans hp.own.1) (hown.2.symm.trans hp.own.2)
      · by_cases hold : r.carries = true ∧ recorded s r = some q
        · rw [hp.old q hqp hold.1 hold.2]
          refine iff_of_false (fun hown => ?_) fun hconfigured => hr ?_
          · cases r' <;> cases hown.1
          · have hother := (h.reported r' q hrole' hcarries hq).mpr hconfigured
            have hself := (h.reported r q hrole hold.1 hq).mpr
              ((configured_of_active (hactive hold.1)).trans hold.2)
            exact busType_injective (hother.1.symm.trans hself.1) (hother.2.symm.trans hself.2)
        · rw [hp.others q hqp fun hc hrec => hold ⟨hc, hrec⟩]
          exact h.reported r' q hrole' hcarries hq

theorem Tidy.place (ht : Tidy b s) (hp : Placed b s s' r pin) (hactive : r.carries = true →
    active s r = true) (hvalid : b.isValidPin pin = true) : Tidy b s' := by
  refine ⟨?_, ?_, ?_⟩
  · intro r' hcarries hidle
    rw [hp.actives] at hidle
    rw [hp.records]
    by_cases hr : r' = r
    · subst hr
      cases (hactive hcarries).symm.trans hidle
    · rw [Function.update_of_ne hr]
      exact ht.idle r' hcarries hidle
  · intro r' q hq
    rw [hp.records, Function.update_apply] at hq
    split at hq
    · cases hq
      exact hvalid
    · exact ht.valid r' q hq
  · intro type
    rw [hp.callbacks]
    exact ht.noCallback type

end Place

section Sections

variable {b : Board} {s s' : World} {number bus pin : ℕ} {stale : ℕ → Prop}

theorem inAssign_eq {signal : ℕ} (hvalid : b.isValidPin pin = true) (hlt : signal < 256) :
    inAssign b s pin signal = { s with inMatrix := Function.update s.inMatrix signal pin } := by
  rw [inAssign, if_neg (Nat.not_le.mpr hlt), if_neg (by simp [hvalid])]

theorem outAssign_eq {signal : ℕ} (houtput : b.isOutputPin pin = true) :
    outAssign b s pin signal = { s with outMatrix := Function.update s.outMatrix pin signal } := by
  rw [outAssign, if_neg (by simp [houtput])]

/-- The assignments of the peripheral manager, and nothing else, are replaced. -/
def setAssignments (s : World) (assignments : ℕ → PinAssignment) : World :=
  { s with periman := { s.periman with pinAssignments := assignments } }

theorem setPinBus_eq (hcallback : ∀ type, s.periman.deinitCallbacks type = none)
    (hvalid : b.isValidPin pin = true) (r : Role) (n : ℤ) :
    setPinBus b s pin r n = (true, setAssignments s
      (Function.update s.periman.pinAssignments pin ⟨busType r, busOf r, n, -1⟩)) := by
  have htype : busType r ≠ .max := by cases r <;> nofun
  rw [setPinBus, perimanSetPinBus_eq (busOf r) n (-1) hvalid htype (hcallback _)]
  rfl

theorem clearPinBus_eq (hcallback : ∀ type, s.periman.deinitCallbacks type = none)
    (hvalid : b.isValidPin pin = true) :
    clearPinBus b s pin =
      setAssignments s (Function.update s.periman.pinAssignments pin .free) := by
  rw [clearPinBus, perimanClearPinBus_eq hvalid (hcallback _)]
  rfl

/-- Clearing a pin that may be none touches the peripheral manager's assignment of it only. -/
theorem clearPinBus?_eq (hcallback : ∀ type, s.periman.deinitCallbacks type = none)
    {old : Option ℕ} (hvalid : ∀ q, old = some q → b.isValidPin q = true) :
    clearPinBus? b s old = setAssignments s fun q =>
      if old = some q then .free else s.periman.pinAssignments q := by
  cases old with
  | none => rfl
  | some q =>
    rw [clearPinBus?, Option.elim_some, clearPinBus_eq hcallback (hvalid q rfl)]
    apply congrArg (setAssignments s)
    funext q'
    rw [Function.update_apply]
    simp only [Option.some.injEq, eq_comm]

theorem clearOld_eq (hcallback : ∀ type, s.periman.deinitCallbacks type = none)
    {old : Option ℕ} (hvalid : ∀ q, old = some q → b.isValidPin q = true) :
    clearOld b s old pin = setAssignments s fun q =>
      if old = some q ∧ q ≠ pin then .free else s.periman.pinAssignments q := by
  rw [clearOld]
  split
  · rename_i hne
    rw [clearPinBus?_eq hcallback hvalid]
    apply congrArg (setAssignments s)
    funext q
    have hand : (old = some q ∧ q ≠ pin) ↔ old = some q :=
      ⟨And.left, fun h => ⟨h, fun hq => hne (hq ▸ h)⟩⟩
    simp only [hand]
  · rename_i heq
    rw [not_not] at heq
    have hfalse : ∀ q, ¬ (old = some q ∧ q ≠ pin) := by
      rintro q ⟨hq, hne⟩
      exact hne (Option.some.inj (hq.symm.trans heq))
    simp only [hfalse, if_false]
    rfl

theorem actives_setUart (uart : Uart) (hinstalled : uart.installed = (s.uarts number).installed) :
    active (setUart s number uart) = active s := by
  funext r
  cases r with
  | tx m | rx m | cts m | rts m =>
    simp only [active, setUart, Function.update_apply]
    split
    · rename_i h
      rw [hinstalled, h]
    · rfl
  | sda | scl => rfl

theorem records_setUart (number : ℕ) {r : Role} {uart : Uart}
    (hrx : recorded (setUart s number uart) (.rx number) =
      Function.update (recorded s) r (some pin) (.rx number))
    (htx : recorded (setUart s number uart) (.tx number) =
      Function.update (recorded s) r (some pin) (.tx number))
    (hcts : recorded (setUart s number uart) (.cts number) =
      Function.update (recorded s) r (some pin) (.cts number))
    (hrts : recorded (setUart s number uart) (.rts number) =
      Function.update (recorded s) r (some pin) (.rts number))
    (hr : busOf r = .uart number) :
    recorded (setUart s number uart) = Function.update (recorded s) r (some pin) := by
  funext r'
  by_cases hbus : busOf r' = .uart number
  · cases r' <;> cases hbus
    · exact htx
    · exact hrx
    · exact hcts
    · exact hrts
  · have hne : r' ≠ r := fun heq => hbus (heq ▸ hr)
    rw [Function.update_of_ne hne]
    cases r' with
    | tx m | rx m | cts m | rts m =>
      have hm : m ≠ number := fun heq => hbus (heq ▸ rfl)
      simp only [recorded, setUart, Function.update_of_ne hm]
    | sda | scl => rfl

theorem setRxPin_placed (ht : Tidy b s) (hnumber : number < b.uarts)
    (hvalid : b.isValidPin pin = true) : Placed b s (setRxPin b s number pin) (.rx number) pin := by
  have hlt := b.in_lt (.rx number) _ (by simpa [Chip.hasRole] using hnumber) rfl
  have hold : ∀ q, (s.uarts number).rxPin = some q → b.isValidPin q = true :=
    fun q hq => ht.valid (.rx number) q hq
  simp only [setRxPin]
  rw [clearOld_eq ht.noCallback hold, inAssign_eq hvalid hlt,
    setPinBus_eq (by exact ht.noCallback) hvalid]
  refine ⟨?_, actives_setUart _ rfl, rfl, rfl, ?_, ?_, ?_, rfl⟩
  · apply records_setUart (s := s) number <;>
      simp [recorded, setUart, setAssignments, busOf]
  · simp [setUart, setAssignments]
  · intro q hq hold
    have hne := hold rfl
    simp only [recorded] at hne
    simp [setUart, setAssignments, Function.update_of_ne hq, hne]
  · intro q hq _ hold
    simp only [recorded] at hold
    simp [setUart, setAssignments, hold, hq]

theorem setTxPin_placed (ht : Tidy b s) (houtput : b.isOutputPin pin = true) :
    Placed b s (setTxPin b s number pin) (.tx number) pin := by
  have hvalid := b.valid_of_output pin houtput
  have hold : ∀ q, (s.uarts number).txPin = some q → b.isValidPin q = true :=
    fun q hq => ht.valid (.tx number) q hq
  simp only [setTxPin]
  rw [clearOld_eq ht.noCallback hold, outAssign_eq houtput,
    setPinBus_eq (by exact ht.noCallback) hvalid]
  refine ⟨?_, actives_setUart _ rfl, rfl, rfl, ?_, ?_, ?_, rfl⟩
  · apply records_setUart (s := s) number <;>
      simp [recorded, setUart, setAssignments, busOf]
  · simp [setUart, setAssignments]
  · intro q hq hold
    have hne := hold rfl
    simp only [recorded] at hne
    simp [setUart, setAssignments, Function.update_of_ne hq, hne]
  · intro q hq _ hold
    simp only [recorded] at hold
    simp [setUart, setAssignments, hold, hq]

theorem setCtsPin_placed (ht : Tidy b s) (hvalid : b.isValidPin pin = true) :
    Placed b s (setCtsPin b s number pin) (.cts number) pin := by
  simp only [setCtsPin]
  rw [setPinBus_eq (by exact ht.noCallback) hvalid]
  refine ⟨?_, actives_setUart _ rfl, rfl, rfl, ?_, ?_, nofun, rfl⟩
  · apply records_setUart (s := s) number <;>
      simp [recorded, setUart, busOf]
  · simp [setUart, setAssignments]
  · intro q hq _
    exact Function.update_of_ne hq ..

theorem setRtsPin_placed (ht : Tidy b s) (hvalid : b.isValidPin pin = true) :
    Placed b s (setRtsPin b s number pin) (.rts number) pin := by
  simp only [setRtsPin]
  rw [setPinBus_eq (by exact ht.noCallback) hvalid]
  refine ⟨?_, actives_setUart _ rfl, rfl, rfl, ?_, ?_, nofun, rfl⟩
  · apply records_setUart (s := s) number <;>
      simp [recorded, setUart, busOf]
  · simp [setUart, setAssignments]
  · intro q hq _
    exact Function.update_of_ne hq ..

theorem RoutedBut.mono {stale' : ℕ → Prop} (h : RoutedBut b stale s)
    (hmono : ∀ q, stale q → stale' q) : RoutedBut b stale' s :=
  ⟨fun r signal q hrole hsignal houtput hq => h.out r signal q hrole hsignal houtput fun hs =>
    hq (hmono q hs), h.inp, h.reported⟩

/-- A role may be given a pin, or none. -/
structure Given (b : Board) (s s' : World) (r : Role) (pin : Option ℕ) : Prop where
  tidy : Tidy b s'
  records : recorded s' = pin.elim (recorded s) fun q => Function.update (recorded s) r (some q)
  actives : active s' = active s

theorem Given.configured_of_ne {r : Role} {pin : Option ℕ} (h : Given b s s' r pin) {r' : Role}
    (hne : r' ≠ r) : configured s' r' = configured s r' := by
  rw [configured, configured, h.actives, h.records]
  cases pin with
  | none => rfl
  | some q => rw [Option.elim_some, Function.update_of_ne hne]

/-- The role has the given pin, or its old one. -/
theorem Given.configured_self {r : Role} {pin : Option ℕ} (h : Given b s s' r pin) {q : ℕ}
    (hq : configured s' r = some q) : pin.or (recorded s r) = some q := by
  have hrecorded := recorded_of_configured hq
  rw [h.records] at hrecorded
  cases pin with
  | none => exact hrecorded
  | some p =>
    rw [Option.elim_some, Function.update_self] at hrecorded
    exact hrecorded

/-- One step of `uartSetPins`, when it is about a pin at all. -/
theorem RoutedBut.give (h : RoutedBut b stale s) (ht : Tidy b s) {r : Role} {pin : Option ℕ}
    {place : ℕ → World} (hplace : ∀ q, pin = some q → Placed b s (place q) r q)
    (hrole : b.hasRole r = true)
    (hactive : ∀ q, pin = some q → r.carries = true → active s r = true)
    (hvalid : ∀ q, pin = some q → b.isValidPin q = true)
    (hfree : ∀ q, pin = some q → ∀ r', b.hasRole r' = true → r'.carries = true → r' ≠ r →
      configured s r' ≠ some q)
    (hstay : ∀ q, pin = some q → b.outSignal r ≠ none →
      recorded s r = none ∨ recorded s r = some q) :
    RoutedBut b (fun q => stale q ∧ ¬ (pin = some q ∧ b.outSignal r ≠ none)) (pin.elim s place) ∧
    Given b s (pin.elim s place) r pin := by
  cases pin with
  | none => exact ⟨h.mono fun q hq => ⟨hq, fun hp => by cases hp.1⟩, ⟨ht, rfl, rfl⟩⟩
  | some q =>
    have hq := hplace q rfl
    refine ⟨(h.place hq hrole (hactive q rfl) (hfree q rfl) (hstay q rfl)).mono ?_,
      ht.place hq (hactive q rfl) (hvalid q rfl), hq.records, hq.actives⟩
    rintro p ⟨hstale, hne⟩
    exact ⟨hstale, fun hp => hne ⟨(Option.some.inj hp.1).symm, hp.2⟩⟩

/-- What `uartSetPins` asks of its pins beyond that they exist: a UART that transmits keeps its
pin, and no pin has a second role with a signal. -/
structure Fits (b : Board) (s : World) (number : ℕ) (rx tx cts rts : Option ℕ) : Prop where
  stays : ∀ q, tx = some q → recorded s (.tx number) = none ∨ recorded s (.tx number) = some q
  rxFree : ∀ q, rx = some q → ∀ r, b.hasRole r = true → r.carries = true → r ≠ .rx number →
    configured s r ≠ some q
  txFree : ∀ q, tx = some q → rx.or (recorded s (.rx number)) ≠ some q ∧
    ∀ r, b.hasRole r = true → r.carries = true → r ≠ .rx number → r ≠ .tx number →
      configured s r ≠ some q
  flowFree : ∀ q, cts = some q ∨ rts = some q → rx.or (recorded s (.rx number)) ≠ some q ∧
    tx.or (recorded s (.tx number)) ≠ some q ∧
    ∀ r, b.hasRole r = true → r.carries = true → r ≠ .rx number → r ≠ .tx number →
      configured s r ≠ some q

theorem uartSetPins_routed (h : RoutedBut b stale s) (ht : Tidy b s) (hnumber : number < b.uarts)
    {rx tx cts rts : Option ℕ} (hpins : pinsValid b rx tx cts rts = true)
    (hinstalled : rx ≠ none ∨ tx ≠ none → (s.uarts number).installed = true)
    (hfits : Fits b s number rx tx cts rts) :
    RoutedBut b (fun q => stale q ∧ tx ≠ some q) (uartSetPins b s number rx tx cts rts).2 ∧
    Tidy b (uartSetPins b s number rx tx cts rts).2 := by
  have hall : ∀ {f : ℕ → Bool} {pin : Option ℕ}, pin.all f = true → ∀ q, pin = some q → f q = true := by
    rintro f pin hf q rfl
    exact hf
  rw [uartSetPins, if_neg (by simp [hnumber, hpins])]
  simp only [pinsValid, Bool.and_eq_true] at hpins
  obtain ⟨⟨⟨hrx, htx⟩, hcts⟩, hrts⟩ := hpins
  have hrole : ∀ r, busOf r = .uart number → b.hasRole r = true := by
    intro r hr
    cases r <;> cases hr <;> exact decide_eq_true hnumber
  -- the pin that is received on
  obtain ⟨h1, g1⟩ := h.give ht (fun q hq => setRxPin_placed ht hnumber (hall hrx q hq))
    (hrole (.rx number) rfl) (fun q hq _ => hinstalled (.inl (by rw [hq]; nofun))) (hall hrx)
    hfits.rxFree (fun q _ hsignal => absurd rfl hsignal)
  dsimp only
  generalize rx.elim s (setRxPin b s number) = s1 at h1 g1 ⊢
  have hinstalled1 : ∀ q, tx = some q → active s1 (.tx number) = true := by
    intro q hq
    rw [g1.actives]
    exact hinstalled (.inr (by rw [hq]; nofun))
  have hrecorded1 : recorded s1 (.tx number) = recorded s (.tx number) := by
    rw [g1.records]
    cases rx with
    | none => rfl
    | some q => rw [Option.elim_some, Function.update_of_ne (by simp)]
  -- the pin that is transmitted on
  obtain ⟨h2, g2⟩ := h1.give g1.tidy
    (fun q hq => setTxPin_placed g1.tidy (hall htx q hq))
    (hrole (.tx number) rfl) (fun q hq _ => hinstalled1 q hq)
    (fun q hq => b.valid_of_output q (hall htx q hq))
    (by
      intro q hq r hr hcarries hne hconfigured
      by_cases hrx' : r = .rx number
      · subst hrx'
        exact (hfits.txFree q hq).1 (g1.configured_self hconfigured)
      · rw [g1.configured_of_ne hrx'] at hconfigured
        exact (hfits.txFree q hq).2 r hr hcarries hrx' hne hconfigured)
    (by
      intro q hq _
      rw [hrecorded1]
      exact hfits.stays q hq)
  generalize tx.elim s1 (setTxPin b s1 number) = s2 at h2 g2 ⊢
  have hflow : ∀ q, cts = some q ∨ rts = some q → ∀ r, b.hasRole r = true → r.carries = true →
      configured s2 r ≠ some q := by
    intro q hq r hr hcarries hconfigured
    obtain ⟨hrxq, htxq, hothers⟩ := hfits.flowFree q hq
    by_cases htx' : r = .tx number
    · subst htx'
      have hself := g2.configured_self hconfigured
      rw [hrecorded1] at hself
      exact htxq hself
    rw [g2.configured_of_ne htx'] at hconfigured
    by_cases hrx' : r = .rx number
    · subst hrx'
      exact hrxq (g1.configured_self hconfigured)
    · rw [g1.configured_of_ne hrx'] at hconfigured
      exact hothers r hr hcarries hrx' htx' hconfigured
  -- the pins of the flow control, which have no signal
  obtain ⟨h3, g3⟩ := h2.give g2.tidy
    (fun q hq => setCtsPin_placed g2.tidy (hall hcts q hq))
    (hrole (.cts number) rfl) (fun _ _ hcarries => by cases hcarries) (hall hcts)
    (fun q hq r hr hcarries _ => hflow q (.inl hq) r hr hcarries)
    (fun q _ hsignal => absurd rfl hsignal)
  generalize cts.elim s2 (setCtsPin b s2 number) = s3 at h3 g3 ⊢
  obtain ⟨h4, g4⟩ := h3.give g3.tidy
    (fun q hq => setRtsPin_placed g3.tidy (b.valid_of_output q (hall hrts q hq)))
    (hrole (.rts number) rfl) (fun _ _ hcarries => by cases hcarries)
    (fun q hq => b.valid_of_output q (hall hrts q hq))
    (fun q hq r hr hcarries _ => by
      rw [g3.configured_of_ne (by rintro rfl; cases hcarries)]
      exact hflow q (.inr hq) r hr hcarries)
    (fun q _ hsignal => absurd rfl hsignal)
  refine ⟨h4.mono ?_, g4.tidy⟩
  rintro q ⟨⟨⟨⟨hstale, -⟩, htxq⟩, -⟩, -⟩
  exact ⟨hstale, fun heq => htxq ⟨heq, nofun⟩⟩

/-- A call that changes no route: at most it frees pins that no role has. -/
theorem RoutedBut.quiet (h : RoutedBut b stale s)
    (hconfigured : ∀ r, b.hasRole r = true → r.carries = true → configured s' r = configured s r)
    (hout : s'.outMatrix = s.outMatrix) (hin : s'.inMatrix = s.inMatrix)
    (hassigned : ∀ q, s'.periman.pinAssignments q = s.periman.pinAssignments q ∨
      (s'.periman.pinAssignments q = .free ∧
        ∀ r, b.hasRole r = true → r.carries = true → configured s r ≠ some q)) :
    RoutedBut b stale s' := by
  refine ⟨?_, ?_, ?_⟩
  · intro r signal q hrole hsignal houtput hstale
    rw [hout, hconfigured r hrole (carries_of_outSignal hsignal)]
    exact h.out r signal q hrole hsignal houtput hstale
  · intro r signal q hrole hsignal hvalid
    rw [hin, hconfigured r hrole (carries_of_inSignal hsignal)]
    exact h.inp r signal q hrole hsignal hvalid
  · intro r q hrole hcarries hvalid
    rw [hconfigured r hrole hcarries]
    obtain hsame | ⟨hfree, hnone⟩ := hassigned q
    · rw [hsame]
      exact h.reported r q hrole hcarries hvalid
    · rw [hfree]
      refine iff_of_false (fun hown => ?_) (hnone r hrole hcarries)
      cases r <;> cases hown.1

theorem configured_congr {r : Role} (hactive : active s' r = active s r)
    (hrecorded : recorded s' r = recorded s r) : configured s' r = configured s r := by
  rw [configured, configured, hactive, hrecorded]

theorem configured_of_none {r : Role} (h : recorded s r = none) : configured s r = none := by
  rw [configured, h, ite_self]

theorem active_setUart_of_ne (uart : Uart) {r : Role} (hr : busOf r ≠ .uart number) :
    active (setUart s number uart) r = active s r := by
  cases r with
  | sda | scl => rfl
  | tx m | rx m | cts m | rts m =>
    have hm : m ≠ number := fun heq => hr (heq ▸ rfl)
    simp only [active, setUart, Function.update_of_ne hm]

/-- The UART is switched on or off, with its pins as they are, or has no pins with a signal. -/
structure Switches (s : World) (number : ℕ) (uart : Uart) : Prop where
  rxPin : uart.rxPin = (s.uarts number).rxPin
  txPin : uart.txPin = (s.uarts number).txPin
  ctsPin : uart.ctsPin = (s.uarts number).ctsPin
  rtsPin : uart.rtsPin = (s.uarts number).rtsPin
  installed : uart.installed = (s.uarts number).installed ∨ (uart.rxPin = none ∧ uart.txPin = none)

namespace Switches

variable {uart : Uart}

theorem recorded (h : Switches s number uart) :
    recorded (setUart s number uart) = PinRouting.recorded s := by
  funext r
  cases r with
  | sda | scl => rfl
  | tx m | rx m | cts m | rts m =>
    simp only [PinRouting.recorded, setUart, Function.update_apply]
    split
    · rename_i hm
      simp only [hm, h.rxPin, h.txPin, h.ctsPin, h.rtsPin]
    · rfl

theorem active_or (h : Switches s number uart) {r : Role} (hcarries : r.carries = true) :
    active (setUart s number uart) r = active s r ∨ PinRouting.recorded s r = none := by
  obtain hsame | ⟨hnorx, hnotx⟩ := h.installed
  · exact .inl (congrFun (actives_setUart uart hsame) r)
  · by_cases hr : busOf r = .uart number
    · cases r with
      | sda | scl => cases hr
      | cts | rts => cases hcarries
      | rx m =>
        cases hr
        exact .inr (h.rxPin.symm.trans hnorx)
      | tx m =>
        cases hr
        exact .inr (h.txPin.symm.trans hnotx)
    · exact .inl (active_setUart_of_ne uart hr)

theorem configured (h : Switches s number uart) {r : Role} (hcarries : r.carries = true) :
    configured (setUart s number uart) r = PinRouting.configured s r := by
  obtain hsame | hnone := h.active_or hcarries
  · exact configured_congr hsame (congrFun h.recorded r)
  · rw [configured_of_none hnone, configured_of_none ((congrFun h.recorded r).trans hnone)]

end Switches

theorem setUart_routed (h : RoutedBut b stale s) (ht : Tidy b s) {uart : Uart}
    (hs : Switches s number uart) :
    RoutedBut b stale (setUart s number uart) ∧ Tidy b (setUart s number uart) := by
  refine ⟨h.quiet (fun r _ hcarries => hs.configured hcarries) rfl rfl fun q => .inl rfl,
    fun r hcarries hidle => ?_, ?_, ht.noCallback⟩
  · rw [hs.recorded]
    obtain hsame | hnone := hs.active_or hcarries
    · exact ht.idle r hcarries (hsame.symm.trans hidle)
    · exact hnone
  · rw [hs.recorded]
    exact ht.valid

theorem Fits.congr {rx tx cts rts : Option ℕ} (h : Fits b s number rx tx cts rts)
    (hrecorded : recorded s' = recorded s)
    (hconfigured : ∀ r, r.carries = true → configured s' r = configured s r) :
    Fits b s' number rx tx cts rts := by
  refine ⟨?_, ?_, ?_, ?_⟩
  · rw [hrecorded]
    exact h.stays
  · intro q hq r hrole hcarries hne
    rw [hconfigured r hcarries]
    exact h.rxFree q hq r hrole hcarries hne
  · rw [hrecorded]
    intro q hq
    refine ⟨(h.txFree q hq).1, fun r hrole hcarries hne hne' => ?_⟩
    rw [hconfigured r hcarries]
    exact (h.txFree q hq).2 r hrole hcarries hne hne'
  · rw [hrecorded]
    intro q hq
    obtain ⟨hrx, htx, hothers⟩ := h.flowFree q hq
    refine ⟨hrx, htx, fun r hrole hcarries hne hne' => ?_⟩
    rw [hconfigured r hcarries]
    exact hothers r hrole hcarries hne hne'

/-- A pin with no role that carries a signal is cleared. -/
theorem clearPinBus?_routed (h : RoutedBut b stale s) (ht : Tidy b s) {old : Option ℕ}
    (hvalid : ∀ q, old = some q → b.isValidPin q = true)
    (hfree : ∀ q, old = some q → ∀ r, b.hasRole r = true → r.carries = true →
      configured s r ≠ some q) :
    RoutedBut b stale (clearPinBus? b s old) ∧ Tidy b (clearPinBus? b s old) := by
  rw [clearPinBus?_eq ht.noCallback hvalid]
  refine ⟨h.quiet (fun _ _ _ => rfl) rfl rfl fun q => ?_, ht.idle, ht.valid, ht.noCallback⟩
  simp only [setAssignments]
  split
  · rename_i hq
    exact .inr ⟨rfl, hfree q hq⟩
  · exact .inl rfl

/-- The only UART that may be ended is one that has no pin with a signal. -/
theorem uartEnd_routed (h : RoutedBut b stale s) (ht : Tidy b s)
    (hrx : (s.uarts number).rxPin = none) (htx : (s.uarts number).txPin = none)
    (hfree : ∀ q, (s.uarts number).ctsPin = some q ∨ (s.uarts number).rtsPin = some q →
      ∀ r, b.hasRole r = true → r.carries = true → configured s r ≠ some q) :
    RoutedBut b stale (uartEnd b s number) ∧ Tidy b (uartEnd b s number) := by
  rw [uartEnd]
  split
  · exact ⟨h, ht⟩
  dsimp only
  rw [hrx, htx]
  have hnone : ∀ s : World, clearPinBus? b s none = s := fun _ => rfl
  rw [hnone, hnone]
  have hcts : ∀ q, (s.uarts number).ctsPin = some q → b.isValidPin q = true :=
    fun q hq => ht.valid (.cts number) q hq
  have hrts : ∀ q, (s.uarts number).rtsPin = some q → b.isValidPin q = true :=
    fun q hq => ht.valid (.rts number) q hq
  obtain ⟨h1, t1⟩ := clearPinBus?_routed h ht hcts fun q hq => hfree q (.inl hq)
  have hcleared := clearPinBus?_eq ht.noCallback hcts
  obtain ⟨h2, t2⟩ := clearPinBus?_routed h1 t1 hrts (by
    intro q hq
    rw [hcleared]
    exact hfree q (.inr hq))
  have hcleared' := clearPinBus?_eq t1.noCallback hrts
  have huarts : (clearPinBus? b (clearPinBus? b s (s.uarts number).ctsPin)
      (s.uarts number).rtsPin).uarts = s.uarts := by
    rw [hcleared', hcleared]
    rfl
  refine setUart_routed h2 t2 ⟨?_, ?_, ?_, ?_, .inr ⟨rfl, rfl⟩⟩
  · rw [huarts, hrx]
  · rw [huarts, htx]
  · rw [huarts]
  · rw [huarts]

/-- What `uartBegin` asks of its pins, once it has got as far. -/
def BeginFits (b : Board) (s : World) (number : ℕ) (rx tx : Option ℕ) : Prop :=
  if pinsValid b rx tx none none = true then Fits b s number rx tx none none
  else recorded s (.rx number) = none ∧ recorded s (.tx number) = none

theorem uartBegin_routed (h : RoutedBut b stale s) (ht : Tidy b s) (hnumber : number < b.uarts)
    {baudrate config fifoThreshold : ℕ} {rx tx : Option ℕ} {inverted queued : Bool}
    (hbaudrate : baudrate ≠ 0) (hqueue : (s.uarts number).eventQueue = true ∨ queued = true)
    (hfits : BeginFits b s number rx tx) :
    RoutedBut b (fun q => stale q ∧ ¬ (pinsValid b rx tx none none = true ∧ tx = some q))
      (uartBegin b s number baudrate config rx tx inverted fifoThreshold queued).2 ∧
    Tidy b (uartBegin b s number baudrate config rx tx inverted fifoThreshold queued).2 := by
  have hidle : (s.uarts number).installed = true ∨
      ((s.uarts number).rxPin = none ∧ (s.uarts number).txPin = none) := by
    cases hinstalled : (s.uarts number).installed with
    | true => exact .inl rfl
    | false => exact .inr ⟨ht.idle (.rx number) rfl hinstalled, ht.idle (.tx number) rfl hinstalled⟩
  rw [uartBegin, if_neg (by simp [hnumber, hbaudrate]), if_neg (by
    rintro ⟨hno, hnot⟩
    rw [hno, hnot] at hqueue
    obtain hqueue | hqueue := hqueue <;> cases hqueue)]
  let on : Uart := { s.uarts number with
    eventQueue := true
    installed := true
    baudRate := baudrate
    config := config
    fifoThreshold := fifoThreshold
    inverted := inverted }
  have hon : Switches s number on := ⟨rfl, rfl, rfl, rfl, hidle.imp_left Eq.symm⟩
  change RoutedBut b _ (ite _ _ _ : Bool × World).2 ∧ Tidy b (ite _ _ _ : Bool × World).2
  obtain ⟨h1, t1⟩ := setUart_routed h ht hon
  have hself : (setUart s number on).uarts number = on := Function.update_self ..
  rw [BeginFits] at hfits
  split at hfits
  · rename_i hpins
    obtain ⟨h2, t2⟩ := uartSetPins_routed h1 t1 hnumber hpins (fun _ => by rw [hself])
      (hfits.congr hon.recorded fun r hcarries => hon.configured hcarries)
    have hset : (uartSetPins b (setUart s number on) number rx tx none none).1 = true := by
      rw [uartSetPins, if_neg (by simp [hnumber, hpins])]
    rw [if_pos hset]
    refine ⟨h2.mono ?_, t2⟩
    rintro q ⟨hstale, htx⟩
    exact ⟨hstale, fun heq => htx heq.2⟩
  · rename_i hpins
    have hset : uartSetPins b (setUart s number on) number rx tx none none =
        (false, setUart s number on) := by
      rw [uartSetPins, if_pos (.inr (by simpa using hpins))]
    have hoff : Switches (setUart s number on) number
        { (setUart s number on).uarts number with installed := false } := by
      rw [hself]
      refine ⟨?_, ?_, ?_, ?_, .inr hfits⟩ <;> rw [hself]
    have hfinal := setUart_routed h1 t1 hoff
    rw [hset, if_neg Bool.false_ne_true]
    exact ⟨hfinal.1.mono fun q hstale => ⟨hstale, fun heq => hpins heq.1⟩, hfinal.2⟩

/-- A bus with the record `i2c`, its pins and signals in the matrices changed at one role. -/
def withI2c (s : World) (bus : ℕ) (i2c : I2c) (r : Role) (b : Board) (pin : ℕ) : World where
  uarts := s.uarts
  i2cs := Function.update s.i2cs bus i2c
  outMatrix := (b.outSignal r).elim s.outMatrix (Function.update s.outMatrix pin)
  inMatrix := (b.inSignal r).elim s.inMatrix fun signal => Function.update s.inMatrix signal pin
  periman := { s.periman with
    pinAssignments := Function.update s.periman.pinAssignments pin ⟨busType r, busOf r, bus, -1⟩ }

theorem withI2c_placed {i2c : I2c} {r : Role} (hr : r = .sda bus ∨ r = .scl bus)
    (hinit : i2c.initialized = (s.i2cs bus).initialized)
    (hsda : i2c.sda = Function.update (recorded s) r (some pin) (.sda bus))
    (hscl : i2c.scl = Function.update (recorded s) r (some pin) (.scl bus))
    (hstay : recorded s r = none ∨ recorded s r = some pin) :
    Placed b s (withI2c s bus i2c r b pin) r pin := by
  refine ⟨?_, ?_, rfl, rfl, ?_, ?_, ?_, rfl⟩
  · funext r'
    by_cases hbus : busOf r' = .i2c bus
    · cases r' <;> cases hbus
      · simpa [recorded, withI2c] using hsda
      · simpa [recorded, withI2c] using hscl
    · have hne : r' ≠ r := by
        rintro rfl
        obtain rfl | rfl := hr <;> exact hbus rfl
      rw [Function.update_of_ne hne]
      cases r' with
      | tx | rx | cts | rts => rfl
      | sda k | scl k =>
        have hk : k ≠ bus := fun heq => hbus (heq ▸ rfl)
        simp only [recorded, withI2c, Function.update_of_ne hk]
  · funext r'
    cases r' with
    | tx | rx | cts | rts => rfl
    | sda k | scl k =>
      simp only [active, withI2c, Function.update_apply]
      split
      · rename_i hk
        rw [hinit, hk]
      · rfl
  · simp [withI2c]
  · intro q hq _
    exact Function.update_of_ne hq ..
  · intro q hq _ hold
    obtain hnone | hsame := hstay
    · cases hnone.symm.trans hold
    · exact absurd (Option.some.inj (hold.symm.trans hsame)) hq

/-- The bus may have the pins. -/
structure InitFree (b : Board) (s : World) (bus sda scl : ℕ) : Prop where
  distinct : sda ≠ scl
  free : ∀ r, b.hasRole r = true → r.carries = true → r ≠ .sda bus → r ≠ .scl bus →
    configured s r ≠ some sda ∧ configured s r ≠ some scl

theorem routePins_eq (hbus : bus < b.i2cs) {sda scl : ℕ} (hsda : b.isOutputPin sda = true)
    (hscl : b.isOutputPin scl = true) : routePins b s bus sda scl = { s with
      outMatrix := Function.update (Function.update s.outMatrix sda (b.sdaOut bus)) scl
        (b.sclOut bus)
      inMatrix := Function.update (Function.update s.inMatrix (b.sdaIn bus) sda) (b.sclIn bus)
        scl } := by
  have hltsda := b.in_lt (.sda bus) _ (decide_eq_true hbus) rfl
  have hltscl := b.in_lt (.scl bus) _ (decide_eq_true hbus) rfl
  rw [routePins, outAssign_eq hsda, inAssign_eq (b.valid_of_output sda hsda) hltsda,
    outAssign_eq hscl, inAssign_eq (b.valid_of_output scl hscl) hltscl]

def clampFrequency (frequency : ℕ) : ℕ :=
  let frequency := if frequency = 0 then 100000 else frequency
  if 1000000 < frequency then 1000000 else frequency

theorem i2cInit_eq (ht : Tidy b s) (hbus : bus < b.i2cs) {sda scl : ℕ}
    (hsda : b.isOutputPin sda = true) (hscl : b.isOutputPin scl = true) (frequency : ℕ) :
    (i2cInit b s bus (some sda) (some scl) frequency).2 =
      withI2c (withI2c s bus ⟨true, some sda, (s.i2cs bus).scl, clampFrequency frequency⟩
        (.sda bus) b sda) bus
        ⟨true, some sda, some scl, clampFrequency frequency⟩ (.scl bus) b scl := by
  have hfirst := setPinBus_eq ht.noCallback (b.valid_of_output sda hsda) (.sda bus) bus
  have hsecond := setPinBus_eq (b := b) (s := (setPinBus b s sda (.sda bus) bus).2)
    (by rw [hfirst]; exact ht.noCallback) (b.valid_of_output scl hscl) (.scl bus) bus
  simp only [i2cInit]
  rw [if_neg (by simp [hbus, hsda, hscl]), if_neg (by rw [hfirst]; nofun),
    if_neg (by rw [hsecond]; nofun), routePins_eq hbus hsda hscl, hsecond, hfirst]
  simp only [withI2c, setI2c, setAssignments, Function.update_idem, Chip.outSignal, Chip.inSignal,
    Option.elim_some, clampFrequency]

/-- The bus is initialised, still with its old pins. -/
def i2cOn (s : World) (bus frequency : ℕ) : World :=
  setI2c s bus { s.i2cs bus with
    initialized := true
    frequency := frequency }

theorem recorded_i2cOn (s : World) (bus frequency : ℕ) :
    recorded (i2cOn s bus frequency) = recorded s := by
  funext r
  cases r with
  | tx | rx | cts | rts => rfl
  | sda k | scl k =>
    simp only [recorded, i2cOn, setI2c, Function.update_apply]
    split
    · rename_i hk
      rw [hk]
    · rfl

/-- A bus that was not initialised had no pins. -/
theorem active_i2cOn (ht : Tidy b s) (bus frequency : ℕ) (r : Role) :
    active (i2cOn s bus frequency) r = active s r ∨ recorded s r = none := by
  cases r with
  | tx | rx | cts | rts => exact .inl rfl
  | sda k | scl k =>
    by_cases hk : k = bus
    · subst hk
      cases hinit : (s.i2cs k).initialized with
      | true => exact .inl (by simp [active, i2cOn, setI2c, hinit])
      | false => exact .inr (ht.idle _ rfl hinit)
    · exact .inl (by simp only [active, i2cOn, setI2c, Function.update_of_ne hk])

theorem configured_i2cOn (ht : Tidy b s) (bus frequency : ℕ) (r : Role) :
    configured (i2cOn s bus frequency) r = configured s r := by
  have hrecorded := congrFun (recorded_i2cOn s bus frequency) r
  obtain hsame | hnone := active_i2cOn ht bus frequency r
  · exact configured_congr hsame hrecorded
  · rw [configured_of_none hnone, configured_of_none (hrecorded.trans hnone)]

theorem i2cOn_routed (h : RoutedBut b stale s) (ht : Tidy b s) (bus frequency : ℕ) :
    RoutedBut b stale (i2cOn s bus frequency) ∧ Tidy b (i2cOn s bus frequency) := by
  have hrecorded := recorded_i2cOn s bus frequency
  refine ⟨h.quiet (fun r _ _ => configured_i2cOn ht bus frequency r) rfl rfl fun q => .inl rfl,
    fun r hcarries hidle => ?_, by rw [hrecorded]; exact ht.valid, ht.noCallback⟩
  rw [hrecorded]
  obtain hsame | hnone := active_i2cOn ht bus frequency r
  · exact ht.idle r hcarries (hsame.symm.trans hidle)
  · exact hnone

theorem i2cInit_routed (h : RoutedBut b stale s) (ht : Tidy b s) (hbus : bus < b.i2cs)
    {sda scl : ℕ} (hsda : b.isOutputPin sda = true) (hscl : b.isOutputPin scl = true)
    (frequency : ℕ) (hfits : InitFree b s bus sda scl)
    (hstays : (s.i2cs bus).initialized = true →
      (s.i2cs bus).sda = some sda ∧ (s.i2cs bus).scl = some scl) :
    RoutedBut b (fun q => stale q ∧ ¬ (sda = q ∨ scl = q))
      (i2cInit b s bus (some sda) (some scl) frequency).2 ∧
    Tidy b (i2cInit b s bus (some sda) (some scl) frequency).2 := by
  have heq := i2cInit_eq ht hbus hsda hscl frequency
  generalize clampFrequency frequency = f at heq
  have hold : (s.i2cs bus).initialized = true ∨
      ((s.i2cs bus).sda = none ∧ (s.i2cs bus).scl = none) := by
    cases hinit : (s.i2cs bus).initialized with
    | true => exact .inl rfl
    | false => exact .inr ⟨ht.idle (.sda bus) rfl hinit, ht.idle (.scl bus) rfl hinit⟩
  let on : World := i2cOn s bus f
  have hrecorded : recorded on = recorded s := recorded_i2cOn s bus f
  have hconfigured : ∀ r, configured on r = configured s r := configured_i2cOn ht bus f
  obtain ⟨hon, hton⟩ := i2cOn_routed h ht bus f
  have honsda : recorded on (.sda bus) = none ∨ recorded on (.sda bus) = some sda := by
    rw [hrecorded]
    exact hold.symm.imp And.left fun hinit => (hstays hinit).1
  have honscl : recorded on (.scl bus) = none ∨ recorded on (.scl bus) = some scl := by
    rw [hrecorded]
    exact hold.symm.imp And.right fun hinit => (hstays hinit).2
  have hin : ∀ r, r = .sda bus ∨ r = .scl bus → active on r = true := by
    rintro r (rfl | rfl) <;> simp [active, on, i2cOn, setI2c]
  have hscl' : recorded on (.scl bus) = (s.i2cs bus).scl := congrFun hrecorded (.scl bus)
  -- the data line
  let first : World := withI2c on bus ⟨true, some sda, (s.i2cs bus).scl, f⟩ (.sda bus) b sda
  have hp1 : Placed b on first (.sda bus) sda :=
    withI2c_placed (.inl rfl) (by simp [on, i2cOn, setI2c]) (by simp) (by simp [hscl']) honsda
  have hrole : ∀ r, r = .sda bus ∨ r = .scl bus → b.hasRole r = true := by
    rintro r (rfl | rfl) <;> exact decide_eq_true hbus
  have hfree1 : ∀ r, b.hasRole r = true → r.carries = true → r ≠ .sda bus →
      configured on r ≠ some sda := by
    intro r hr hcarries hne
    by_cases hscl : r = .scl bus
    · subst hscl
      intro hsame
      have hscl := recorded_of_configured hsame
      obtain hnone | hsame := honscl
      · cases hnone.symm.trans hscl
      · exact hfits.distinct (Option.some.inj (hscl.symm.trans hsame))
    · rw [hconfigured]
      exact (hfits.free r hr hcarries hne hscl).1
  have h1 := hon.place hp1 (hrole _ (.inl rfl)) (fun _ => hin _ (.inl rfl)) hfree1 fun _ => honsda
  have ht1 := hton.place hp1 (fun _ => hin _ (.inl rfl)) (b.valid_of_output sda hsda)
  have hscl1 : recorded first (.scl bus) = recorded on (.scl bus) := by
    rw [hp1.records, Function.update_of_ne (by simp)]
  -- the clock line
  let second : World := withI2c first bus ⟨true, some sda, some scl, f⟩ (.scl bus) b scl
  have hp2 : Placed b first second (.scl bus) scl :=
    withI2c_placed (.inr rfl) (by simp [first, withI2c])
      (by rw [hp1.records]; simp) (by simp) (by rw [hscl1]; exact honscl)
  have hin1 : active first (.scl bus) = true := by
    rw [hp1.actives]
    exact hin _ (.inr rfl)
  have hfree2 : ∀ r, b.hasRole r = true → r.carries = true → r ≠ .scl bus →
      configured first r ≠ some scl := by
    intro r hr hcarries hne
    by_cases hsda : r = .sda bus
    · subst hsda
      rw [hp1.configured_self (hin _ (.inl rfl))]
      exact fun heq => hfits.distinct (Option.some.inj heq)
    · rw [hp1.configured_of_ne hsda, hconfigured]
      exact (hfits.free r hr hcarries hsda hne).2
  have h2 := h1.place hp2 (hrole _ (.inr rfl)) (fun _ => hin1) hfree2
    fun _ => by rw [hscl1]; exact honscl
  have ht2 := ht1.place hp2 (fun _ => hin1) (b.valid_of_output scl hscl)
  have hfinal : (i2cInit b s bus (some sda) (some scl) frequency).2 = second := by
    rw [heq]
    simp [second, first, on, i2cOn, withI2c, setI2c]
  rw [hfinal]
  refine ⟨h2.mono ?_, ht2⟩
  rintro q ⟨⟨hstale, hnesda⟩, hnescl⟩
  refine ⟨hstale, ?_⟩
  rintro (rfl | rfl)
  · exact hnesda ⟨rfl, nofun⟩
  · exact hnescl ⟨rfl, nofun⟩

/-- The role loses its pin, which may be none, in every table. -/
structure Removed (b : Board) (s s' : World) (r : Role) : Prop where
  records : recorded s' = Function.update (recorded s) r none
  actives : active s' = active s
  out : ∀ q, b.isOutputPin q = true → s'.outMatrix q =
    if recorded s r = some q then b.kMatrixDetachOutSig else s.outMatrix q
  inp : s'.inMatrix = (b.inSignal r).elim s.inMatrix fun signal =>
    Function.update s.inMatrix signal kMatrixDetachInUndefPin
  assigned : s'.periman.pinAssignments = fun q =>
    if recorded s r = some q then .free else s.periman.pinAssignments q
  callbacks : s'.periman.deinitCallbacks = s.periman.deinitCallbacks

theorem Removed.configured_of_ne {r r' : Role} (h : Removed b s s' r) (hne : r' ≠ r) :
    configured s' r' = configured s r' := by
  rw [configured, configured, h.actives, h.records, Function.update_of_ne hne]

theorem Removed.configured_self {r : Role} (h : Removed b s s' r) : configured s' r = none :=
  configured_of_none (by rw [h.records, Function.update_self])

/-- No two roles have one pin. -/
theorem RoutedBut.role_eq (h : RoutedBut b stale s) {r r' : Role} {q : ℕ} (hr : b.hasRole r = true)
    (hr' : b.hasRole r' = true) (hcarries : r.carries = true) (hcarries' : r'.carries = true)
    (hq : b.isValidPin q = true) (hconfigured : configured s r = some q)
    (hconfigured' : configured s r' = some q) : r = r' := by
  have hown := (h.reported r q hr hcarries hq).mpr hconfigured
  have hown' := (h.reported r' q hr' hcarries' hq).mpr hconfigured'
  exact busType_injective (hown.1.symm.trans hown'.1) (hown.2.symm.trans hown'.2)

theorem RoutedBut.remove (h : RoutedBut b stale s) {r : Role} (hd : Removed b s s' r)
    (hrole : b.hasRole r = true) (hcarries : r.carries = true) (hactive : active s r = true) :
    RoutedBut b stale s' := by
  have hself := configured_of_active hactive
  refine ⟨?_, ?_, ?_⟩
  · intro r' signal q hrole' hsignal houtput hstale
    have hcarries' := carries_of_outSignal hsignal
    have hdetach : b.kMatrixDetachOutSig ≠ signal := by
      rintro rfl
      exact b.out_ne_detach r' hrole' hsignal
    rw [hd.out q houtput]
    by_cases hr : r' = r
    · subst hr
      rw [hd.configured_self]
      split
      · exact iff_of_false hdetach nofun
      · rename_i hne
        rw [h.out r' signal q hrole' hsignal houtput hstale, hself]
        exact iff_of_false hne nofun
    · rw [hd.configured_of_ne hr]
      split
      · rename_i hold
        refine iff_of_false hdetach fun hconfigured => hr ?_
        exact h.role_eq hrole' hrole hcarries' hcarries (b.valid_of_output q houtput) hconfigured
          (hself.trans hold)
      · exact h.out r' signal q hrole' hsignal houtput hstale
  · intro r' signal q hrole' hsignal hvalid
    rw [hd.inp]
    by_cases hr : r' = r
    · subst hr
      rw [hsignal, Option.elim_some, Function.update_self, hd.configured_self]
      refine iff_of_false ?_ nofun
      rintro rfl
      cases b.undef_invalid.symm.trans hvalid
    · rw [hd.configured_of_ne hr]
      cases hown : b.inSignal r with
      | none => exact h.inp r' signal q hrole' hsignal hvalid
      | some own =>
        have hne : signal ≠ own := fun heq =>
          hr (b.in_injective r' r signal hrole' hrole hsignal (heq ▸ hown))
        rw [Option.elim_some, Function.update_of_ne hne]
        exact h.inp r' signal q hrole' hsignal hvalid
  · intro r' q hrole' hcarries' hvalid
    have hfree : ¬ (PinAssignment.free.type = busType r' ∧ PinAssignment.free.bus = busOf r') := by
      rintro ⟨htype, -⟩
      cases r' <;> cases htype
    rw [hd.assigned]
    dsimp only
    by_cases hr : r' = r
    · subst hr
      rw [hd.configured_self]
      split
      · exact iff_of_false hfree nofun
      · rename_i hne
        rw [h.reported r' q hrole' hcarries' hvalid, hself]
        exact iff_of_false hne nofun
    · rw [hd.configured_of_ne hr]
      split
      · rename_i hold
        refine iff_of_false hfree fun hconfigured => hr ?_
        exact h.role_eq hrole' hrole hcarries' hcarries hvalid hconfigured (hself.trans hold)
      · exact h.reported r' q hrole' hcarries' hvalid

theorem Tidy.remove (ht : Tidy b s) {r : Role} (hd : Removed b s s' r) : Tidy b s' := by
  refine ⟨?_, ?_, ?_⟩
  · intro r' hcarries hidle
    rw [hd.actives] at hidle
    rw [hd.records, Function.update_apply, ht.idle r' hcarries hidle, ite_self]
  · intro r' q hq
    rw [hd.records, Function.update_apply] at hq
    split at hq
    · cases hq
    · exact ht.valid r' q hq
  · intro type
    rw [hd.callbacks]
    exact ht.noCallback type

/-- The out matrix without the signal on a pin that may be none. -/
def detached (b : Board) (out : ℕ → ℕ) (pin : Option ℕ) (q : ℕ) : ℕ :=
  if pin = some q ∧ b.isOutputPin q = true then b.kMatrixDetachOutSig else out q

theorem outAssign_detach (pin : Option ℕ) :
    (pin.elim s fun q => outAssign b s q b.kMatrixDetachOutSig) =
      { s with outMatrix := detached b s.outMatrix pin } := by
  have hsame : ∀ out : ℕ → ℕ, out = s.outMatrix → s = { s with outMatrix := out } := by
    rintro out rfl
    rfl
  cases pin with
  | none =>
    apply hsame
    funext q
    exact if_neg nofun
  | some p =>
    rw [Option.elim_some, outAssign]
    split
    · rename_i hno
      apply hsame
      funext q
      apply if_neg
      rintro ⟨heq, houtput⟩
      rw [Option.some.inj heq] at hno
      cases hno.symm.trans houtput
    · rename_i houtput
      rw [Bool.not_eq_false] at houtput
      congr 1
      funext q
      rw [Function.update_apply, detached]
      by_cases hq : q = p
      · rw [if_pos hq, if_pos ⟨hq ▸ rfl, hq ▸ houtput⟩]
      · rw [if_neg hq, if_neg fun heq => hq (Option.some.inj heq.1).symm]

theorem inAssign_undef {signal : ℕ} (hlt : signal < 256) :
    inAssign b s kMatrixDetachInUndefPin signal =
      { s with inMatrix := Function.update s.inMatrix signal kMatrixDetachInUndefPin } := by
  rw [inAssign, if_neg (Nat.not_le.mpr hlt), if_neg (by simp)]

/-- A bus with the record `i2c`, and one role of it detached. -/
def dropI2c (s : World) (bus : ℕ) (i2c : I2c) (r : Role) (b : Board) (pin : Option ℕ) : World where
  uarts := s.uarts
  i2cs := Function.update s.i2cs bus i2c
  outMatrix := detached b s.outMatrix pin
  inMatrix := (b.inSignal r).elim s.inMatrix fun signal =>
    Function.update s.inMatrix signal kMatrixDetachInUndefPin
  periman := { s.periman with
    pinAssignments := fun q => if pin = some q then .free else s.periman.pinAssignments q }

theorem dropI2c_removed {i2c : I2c} {r : Role} (hr : r = .sda bus ∨ r = .scl bus)
    (hinit : i2c.initialized = (s.i2cs bus).initialized)
    (hsda : i2c.sda = Function.update (recorded s) r none (.sda bus))
    (hscl : i2c.scl = Function.update (recorded s) r none (.scl bus)) :
    Removed b s (dropI2c s bus i2c r b (recorded s r)) r := by
  refine ⟨?_, ?_, ?_, rfl, rfl, rfl⟩
  · funext r'
    by_cases hbus : busOf r' = .i2c bus
    · cases r' <;> cases hbus
      · simpa [recorded, dropI2c] using hsda
      · simpa [recorded, dropI2c] using hscl
    · have hne : r' ≠ r := by
        rintro rfl
        obtain rfl | rfl := hr <;> exact hbus rfl
      rw [Function.update_of_ne hne]
      cases r' with
      | tx | rx | cts | rts => rfl
      | sda k | scl k =>
        have hk : k ≠ bus := fun heq => hbus (heq ▸ rfl)
        simp only [recorded, dropI2c, Function.update_of_ne hk]
  · funext r'
    cases r' with
    | tx | rx | cts | rts => rfl
    | sda k | scl k =>
      simp only [active, dropI2c, Function.update_apply]
      split
      · rename_i hk
        rw [hinit, hk]
      · rfl
  · intro q houtput
    simp only [dropI2c, detached, houtput, and_true]

theorem recorded_setI2c_of_ne (i2c : I2c) {r : Role} (hr : busOf r ≠ .i2c bus) :
    recorded (setI2c s bus i2c) r = recorded s r := by
  cases r with
  | tx | rx | cts | rts => rfl
  | sda k | scl k =>
    have hk : k ≠ bus := fun heq => hr (heq ▸ rfl)
    simp only [recorded, setI2c, Function.update_of_ne hk]

theorem active_setI2c_of_ne (i2c : I2c) {r : Role} (hr : busOf r ≠ .i2c bus) :
    active (setI2c s bus i2c) r = active s r := by
  cases r with
  | tx | rx | cts | rts => rfl
  | sda k | scl k =>
    have hk : k ≠ bus := fun heq => hr (heq ▸ rfl)
    simp only [active, setI2c, Function.update_of_ne hk]

/-- A bus without pins is reset. -/
theorem resetI2c_routed (h : RoutedBut b stale s) (ht : Tidy b s)
    (hnone : ∀ r, busOf r = .i2c bus → recorded s r = none) :
    RoutedBut b stale (setI2c s bus {}) ∧ Tidy b (setI2c s bus {}) := by
  have hreset : ∀ r, busOf r = .i2c bus → recorded (setI2c s bus {}) r = none := by
    intro r hr
    cases r <;> cases hr <;> simp [recorded, setI2c]
  refine ⟨h.quiet (fun r _ _ => ?_) rfl rfl fun q => .inl rfl, ?_, ?_, ht.noCallback⟩
  · by_cases hr : busOf r = .i2c bus
    · rw [configured_of_none (hreset r hr), configured_of_none (hnone r hr)]
    · exact configured_congr (active_setI2c_of_ne {} hr) (recorded_setI2c_of_ne {} hr)
  · intro r hcarries hidle
    by_cases hr : busOf r = .i2c bus
    · exact hreset r hr
    · rw [active_setI2c_of_ne {} hr] at hidle
      rw [recorded_setI2c_of_ne {} hr]
      exact ht.idle r hcarries hidle
  · intro r q hq
    by_cases hr : busOf r = .i2c bus
    · cases (hreset r hr).symm.trans hq
    · rw [recorded_setI2c_of_ne {} hr] at hq
      exact ht.valid r q hq

theorem unroutePins_eq (hbus : bus < b.i2cs) (sda scl : Option ℕ) :
    unroutePins b s bus sda scl = { s with
      outMatrix := detached b (detached b s.outMatrix sda) scl
      inMatrix := Function.update
        (Function.update s.inMatrix (b.sdaIn bus) kMatrixDetachInUndefPin)
        (b.sclIn bus) kMatrixDetachInUndefPin } := by
  have hltsda := b.in_lt (.sda bus) _ (decide_eq_true hbus) rfl
  have hltscl := b.in_lt (.scl bus) _ (decide_eq_true hbus) rfl
  rw [unroutePins, outAssign_detach, inAssign_undef hltsda, outAssign_detach,
    inAssign_undef hltscl]

/-- The bus loses its data line and then its clock line. -/
def dropBoth (b : Board) (s : World) (bus : ℕ) : World :=
  let i2c := s.i2cs bus
  dropI2c (dropI2c s bus { i2c with sda := none } (.sda bus) b i2c.sda) bus
    { i2c with sda := none, scl := none } (.scl bus) b i2c.scl

theorem i2cDeinit_eq (ht : Tidy b s) (hbus : bus < b.i2cs)
    (hinit : (s.i2cs bus).initialized = true) :
    (i2cDeinit b s bus).2 = setI2c (dropBoth b s bus) bus {} := by
  have hsda : ∀ q, (s.i2cs bus).sda = some q → b.isValidPin q = true :=
    fun q hq => ht.valid (.sda bus) q hq
  have hscl : ∀ q, (s.i2cs bus).scl = some q → b.isValidPin q = true :=
    fun q hq => ht.valid (.scl bus) q hq
  rw [i2cDeinit, if_neg (Nat.not_le.mpr hbus)]
  simp only [hinit, if_true]
  rw [unroutePins_eq hbus, clearPinBus?_eq (by exact ht.noCallback) hsda,
    clearPinBus?_eq (by exact ht.noCallback) hscl]
  simp only [setI2c, setAssignments, dropBoth, dropI2c, Function.update_idem, Chip.inSignal,
    Option.elim_some]

theorem i2cDeinit_routed (h : RoutedBut b stale s) (ht : Tidy b s) :
    RoutedBut b stale (i2cDeinit b s bus).2 ∧ Tidy b (i2cDeinit b s bus).2 := by
  by_cases hbus : b.i2cs ≤ bus
  · rw [i2cDeinit, if_pos hbus]
    exact ⟨h, ht⟩
  rw [Nat.not_le] at hbus
  cases hinit : (s.i2cs bus).initialized with
  | false =>
    have hsda : (s.i2cs bus).sda = none := ht.idle (.sda bus) rfl hinit
    have hscl : (s.i2cs bus).scl = none := ht.idle (.scl bus) rfl hinit
    have heq : (i2cDeinit b s bus).2 = setI2c s bus {} := by
      rw [i2cDeinit, if_neg (Nat.not_le.mpr hbus)]
      simp only [hinit, hsda, hscl]
      rfl
    rw [heq]
    apply resetI2c_routed h ht
    intro r hr
    cases r <;> cases hr
    · exact hsda
    · exact hscl
  | true =>
    rw [i2cDeinit_eq ht hbus hinit]
    let first := dropI2c s bus { s.i2cs bus with sda := none } (.sda bus) b (s.i2cs bus).sda
    have hd1 : Removed b s first (.sda bus) :=
      dropI2c_removed (.inl rfl) rfl (by simp) (by simp [recorded])
    have hactive : active s (.sda bus) = true ∧ active s (.scl bus) = true := ⟨hinit, hinit⟩
    have h1 := h.remove hd1 (decide_eq_true hbus) rfl hactive.1
    have ht1 := ht.remove hd1
    have hscl1 : recorded first (.scl bus) = (s.i2cs bus).scl := by
      rw [hd1.records, Function.update_of_ne (by nofun)]
      rfl
    have hd2 : Removed b first (dropBoth b s bus) (.scl bus) := by
      change Removed b first (dropI2c first bus { s.i2cs bus with sda := none, scl := none }
        (.scl bus) b (s.i2cs bus).scl) (.scl bus)
      rw [← hscl1]
      apply dropI2c_removed (.inr rfl)
      · simp [first, dropI2c]
      · rw [hd1.records]
        simp
      · simp
    have h2 := h1.remove hd2 (decide_eq_true hbus) rfl (by rw [hd1.actives]; exact hactive.2)
    have ht2 := ht1.remove hd2
    apply resetI2c_routed h2 ht2
    intro r hr
    rw [hd2.records, hd1.records]
    cases r <;> cases hr
    · rw [Function.update_of_ne (by nofun), Function.update_self]
    · rw [Function.update_self]

/-- The other peripherals keep their pins. -/
theorem i2cDeinit_configured (ht : Tidy b s) (hbus : bus < b.i2cs)
    (hinit : (s.i2cs bus).initialized = true) {r : Role} (hr : busOf r ≠ .i2c bus) :
    configured (i2cDeinit b s bus).2 r = configured s r := by
  rw [i2cDeinit_eq ht hbus hinit]
  cases r with
  | tx | rx | cts | rts => rfl
  | sda k | scl k =>
    have hk : k ≠ bus := fun heq => hr (heq ▸ rfl)
    apply configured_congr
    · simp only [active, setI2c, dropBoth, dropI2c, Function.update_of_ne hk]
    · simp only [recorded, setI2c, dropBoth, dropI2c, Function.update_of_ne hk]

/-- A bus that swaps its two pins gets what it would get after it was deinitialised. -/
theorem i2cInit_swap (ht : Tidy b s) (hbus : bus < b.i2cs) {sda scl : ℕ}
    (hsda : b.isOutputPin sda = true) (hscl : b.isOutputPin scl = true) (frequency : ℕ)
    (hinit : (s.i2cs bus).initialized = true) (hold : (s.i2cs bus).sda = some scl)
    (hold' : (s.i2cs bus).scl = some sda) (ht' : Tidy b (i2cDeinit b s bus).2) :
    (i2cInit b s bus (some sda) (some scl) frequency).2 =
      (i2cInit b (i2cDeinit b s bus).2 bus (some sda) (some scl) frequency).2 := by
  rw [i2cInit_eq ht hbus hsda hscl, i2cInit_eq ht' hbus hsda hscl, i2cDeinit_eq ht hbus hinit]
  have hout : ∀ q (f : ℕ → ℕ), q ≠ sda → q ≠ scl → detached b f (some sda) q = f q ∧
      detached b f (some scl) q = f q := by
    intro q f hne hne'
    exact ⟨if_neg fun h => hne (Option.some.inj h.1).symm,
      if_neg fun h => hne' (Option.some.inj h.1).symm⟩
  simp only [withI2c, setI2c, dropBoth, dropI2c, hold, hold', Function.update_idem,
    Chip.outSignal, Chip.inSignal, Option.elim_some, World.mk.injEq, true_and]
  refine ⟨?_, ?_, ?_⟩
  · funext signal
    simp only [Function.update_apply]
    split
    · rfl
    · split <;> rfl
  · funext q
    simp only [Function.update_apply]
    split
    · rfl
    · split
      · rfl
      · rename_i hne' hne
        rw [(hout q _ hne hne').1, (hout q _ hne hne').2]
  · congr 1
    funext q
    simp only [Function.update_apply]
    split
    · rfl
    · split
      · rfl
      · rename_i hne' hne
        rw [if_neg fun h => hne (Option.some.inj h).symm,
          if_neg fun h => hne' (Option.some.inj h).symm]

end Sections

section Runs

variable {b : Board} {s s' : World} {stale : ℕ → Prop} {calls : List Call}

/-- The call gets past its checks. -/
def Accepted (b : Board) (s : World) : Call → Prop
  | .uartBegin number baudrate _ _ _ _ _ queued => number < b.uarts ∧ baudrate ≠ 0 ∧
    ((s.uarts number).eventQueue = true ∨ queued = true)
  | .uartSetPins number rx tx cts rts => number < b.uarts ∧ pinsValid b rx tx cts rts = true
  | .uartEnd number => number < b.uarts
  | .i2cInit bus (some sda) (some scl) _ =>
    bus < b.i2cs ∧ b.isOutputPin sda = true ∧ b.isOutputPin scl = true
  | .i2cInit .. => False
  | .i2cDeinit bus => bus < b.i2cs

/-- An accepted call leaves none of the routes that were set before it behind, and takes no pin
that has a role already. -/
def Fitting (b : Board) (s : World) : Call → Prop
  | .uartBegin number _ _ rx tx _ _ _ => BeginFits b s number rx tx
  | .uartSetPins number rx tx cts rts =>
    (rx ≠ none ∨ tx ≠ none → (s.uarts number).installed = true) ∧ Fits b s number rx tx cts rts
  | .uartEnd number => (s.uarts number).rxPin = none ∧ (s.uarts number).txPin = none ∧
    ∀ q, (s.uarts number).ctsPin = some q ∨ (s.uarts number).rtsPin = some q →
      ∀ r, b.hasRole r = true → r.carries = true → configured s r ≠ some q
  | .i2cInit bus (some sda) (some scl) _ => InitFree b s bus sda scl ∧
    ((s.i2cs bus).initialized = true →
      ((s.i2cs bus).sda = some sda ∧ (s.i2cs bus).scl = some scl) ∨
      ((s.i2cs bus).sda = some scl ∧ (s.i2cs bus).scl = some sda))
  | .i2cInit .. | .i2cDeinit _ => True

/-- The pin becomes one that a peripheral drives. -/
def Gives (b : Board) (q : ℕ) : Call → Prop
  | .uartBegin _ _ _ rx tx _ _ _ => pinsValid b rx tx none none = true ∧ tx = some q
  | .uartSetPins _ _ tx _ _ => tx = some q
  | .i2cInit _ (some sda) (some scl) _ => sda = q ∨ scl = q
  | .i2cInit .. | .uartEnd _ | .i2cDeinit _ => False

def Settled (b : Board) (s : World) (c : Call) : Prop := Accepted b s c → Fitting b s c

theorem perform_refused {c : Call} (h : ¬ Accepted b s c) : perform b s c = s := by
  cases c with
  | uartBegin number baudrate config rx tx inverted fifoThreshold queued =>
    rw [perform, uartBegin]
    split
    · rfl
    · rename_i hno
      rw [if_pos]
      rw [not_or, Nat.not_le] at hno
      by_contra hqueue
      refine h ⟨hno.1, hno.2, ?_⟩
      rw [not_and_or, Bool.not_eq_false, Bool.not_eq_false] at hqueue
      exact hqueue
  | uartSetPins number rx tx cts rts =>
    rw [perform, uartSetPins, if_pos]
    by_contra hno
    rw [not_or, Nat.not_le, Bool.not_eq_false] at hno
    exact h hno
  | uartEnd number => exact if_pos (Nat.not_lt.mp h)
  | i2cInit bus sda scl frequency =>
    cases sda with
    | none => rfl
    | some sda =>
      cases scl with
      | none => rfl
      | some scl =>
        rw [perform, i2cInit, if_pos]
        by_contra hno
        simp only [not_or, Nat.not_le, Bool.not_eq_false] at hno
        exact h hno
  | i2cDeinit bus =>
    rw [perform, i2cDeinit, if_pos (Nat.not_lt.mp h)]

/-- What one call does to the agreement of the tables. -/
theorem perform_routed (h : RoutedBut b stale s) (ht : Tidy b s) {c : Call}
    (hc : Settled b s c) :
    RoutedBut b (fun q => stale q ∧ ¬ (Accepted b s c ∧ Gives b q c)) (perform b s c) ∧
    Tidy b (perform b s c) := by
  by_cases haccepted : Accepted b s c
  · have hfits := hc haccepted
    have hmono : ∀ {stale' : ℕ → Prop}, RoutedBut b stale' (perform b s c) ∧
        Tidy b (perform b s c) → (∀ q, stale' q → stale q ∧ ¬ Gives b q c) →
        RoutedBut b (fun q => stale q ∧ ¬ (Accepted b s c ∧ Gives b q c)) (perform b s c) ∧
        Tidy b (perform b s c) := by
      intro stale' hrouted hstale
      exact ⟨hrouted.1.mono fun q hq => ⟨(hstale q hq).1, fun hg => (hstale q hq).2 hg.2⟩,
        hrouted.2⟩
    cases c with
    | uartBegin number baudrate config rx tx inverted fifoThreshold queued =>
      obtain ⟨hnumber, hbaudrate, hqueue⟩ := haccepted
      exact hmono (uartBegin_routed h ht hnumber hbaudrate hqueue hfits) fun _ hq => hq
    | uartSetPins number rx tx cts rts =>
      exact hmono (uartSetPins_routed h ht haccepted.1 haccepted.2 hfits.1 hfits.2) fun _ hq => hq
    | uartEnd number =>
      exact hmono (uartEnd_routed h ht hfits.1 hfits.2.1 hfits.2.2) fun _ hq => ⟨hq, id⟩
    | i2cInit bus sda scl frequency =>
      cases sda with
      | none => cases haccepted
      | some sda =>
        cases scl with
        | none => cases haccepted
        | some scl =>
          obtain ⟨hbus, hsda, hscl⟩ := haccepted
          obtain ⟨hfree, hold⟩ := hfits
          by_cases hstays : (s.i2cs bus).initialized = true →
              (s.i2cs bus).sda = some sda ∧ (s.i2cs bus).scl = some scl
          · exact hmono (i2cInit_routed h ht hbus hsda hscl frequency hfree hstays) fun _ hq => hq
          · rw [Classical.not_imp] at hstays
            obtain hsame | ⟨hswap, hswap'⟩ := hold hstays.1
            · exact absurd hsame hstays.2
            obtain ⟨hd, htd⟩ : RoutedBut b _ (i2cDeinit b s bus).2 ∧
                Tidy b (i2cDeinit b s bus).2 := i2cDeinit_routed h ht
            have heq := i2cInit_swap ht hbus hsda hscl frequency hstays.1 hswap hswap' htd
            have hinit := i2cInit_routed hd htd hbus hsda hscl frequency ?_ ?_
            · rw [← heq] at hinit
              exact hmono hinit fun _ hq => hq
            · refine ⟨hfree.distinct, fun r hrole hcarries hne hne' => ?_⟩
              have hr : busOf r ≠ .i2c bus := by
                intro hr
                cases r <;> cases hr
                · exact hne rfl
                · exact hne' rfl
              rw [i2cDeinit_configured ht hbus hstays.1 hr]
              exact hfree.free r hrole hcarries hne hne'
            · rw [i2cDeinit_eq ht hbus hstays.1]
              simp [setI2c]
    | i2cDeinit bus => exact hmono (i2cDeinit_routed h ht) fun _ hq => ⟨hq, id⟩
  · rw [perform_refused haccepted]
    exact ⟨h.mono fun q hq => ⟨hq, fun hg => haccepted hg.1⟩, ht⟩

/-- The runs that give the pin to no peripheral that drives it. -/
def Undriven (b : Board) (q : ℕ) : World → List Call → Prop
  | _, [] => True
  | s, c :: calls => ¬ (Accepted b s c ∧ Gives b q c) ∧ Undriven b q (perform b s c) calls

theorem run_routed (h : RoutedBut b stale s) (ht : Tidy b s)
    (hmeets : Meets (step b) (Settled b) s calls) (hrun : run (step b) s calls = some s') :
    RoutedBut b (fun q => stale q ∧ Undriven b q s calls) s' := by
  induction calls generalizing s stale with
  | nil =>
    cases hrun
    exact h.mono fun q hq => ⟨hq, trivial⟩
  | cons c calls ih =>
    obtain ⟨t, hstep, hrun⟩ := run_cons_eq_some.mp hrun
    cases hstep
    obtain ⟨hstep, ht'⟩ := perform_routed h ht hmeets.1
    refine (ih hstep ht' (hmeets.2 _ rfl) hrun).mono ?_
    rintro q ⟨⟨hstale, hgives⟩, hundriven⟩
    exact ⟨hstale, hgives, hundriven⟩

theorem boot_eq : boot b = { boot b with
    uarts := fun _ => {}
    i2cs := fun _ => {}
    inMatrix := fun _ => kMatrixDetachInUndefPin
    periman := .initial } := by
  rw [boot, outAssign]
  split <;> rfl

theorem boot_tidy : Tidy b (boot b) := by
  have hrecorded : ∀ r, recorded (boot b) r = none := by
    intro r
    rw [boot_eq]
    cases r <;> rfl
  refine ⟨fun r _ _ => hrecorded r, fun r q hq => ?_, fun type => ?_⟩
  · cases (hrecorded r).symm.trans hq
  · rw [boot_eq]
    rfl

/-- Only the console's pin carries a signal that no driver has put there. -/
theorem boot_routed : RoutedBut b (fun q => q = b.kConsoleTx) (boot b) := by
  have hconfigured : ∀ r, configured (boot b) r = none := by
    intro r
    apply configured_of_none
    rw [boot_eq]
    cases r <;> rfl
  refine ⟨?_, ?_, ?_⟩
  · intro r signal q hrole hsignal _ hq
    rw [hconfigured]
    refine iff_of_false (fun heq => ?_) nofun
    have hdetach : (boot b).outMatrix q = b.kMatrixDetachOutSig := by
      rw [boot, outAssign]
      split
      · rfl
      · exact Function.update_of_ne hq ..
    exact b.out_ne_detach r hrole (hsignal.trans (congrArg some (heq.symm.trans hdetach)))
  · intro r signal q _ _ hvalid
    rw [hconfigured, boot_eq]
    refine iff_of_false ?_ nofun
    rintro rfl
    cases b.undef_invalid.symm.trans hvalid
  · intro r q _ _ _
    rw [hconfigured, boot_eq]
    refine iff_of_false ?_ nofun
    rintro ⟨htype, -⟩
    cases r <;> cases htype

/-- After every run of calls that leave no old route behind, matrices, drivers and peripheral
manager agree on all pins, once the console's pin has got a peripheral. -/
theorem pins_routed (b : Board) (calls : List Call) {s : World}
    (hmeets : Meets (step b) (Settled b) (boot b) calls)
    (hconsole : ¬ Undriven b b.kConsoleTx (boot b) calls)
    (hrun : run (step b) (boot b) calls = some s) : Routed b s := by
  apply (run_routed boot_routed boot_tidy hmeets hrun).mono
  rintro q ⟨rfl, hundriven⟩
  exact hconsole hundriven

end Runs

def esp32Chip : Chip where
  isValidPin pin := decide (pin < 40) && !([24, 28, 29, 30, 31].contains pin)
  isOutputPin pin := decide (pin < 34) && !([24, 28, 29, 30, 31].contains pin)
  uarts := 3
  i2cs := 2
  kUartTxSignals := ([14, 17, 198].getD · 0)
  kUartRxSignals := ([14, 17, 198].getD · 0)
  sdaOut := ([30, 96].getD · 0)
  sdaIn := ([30, 96].getD · 0)
  sclOut := ([29, 95].getD · 0)
  sclIn := ([29, 95].getD · 0)
  kMatrixDetachOutSig := 256
  kMatrixDetachInLowPin := 48
  kMatrixDetachInHighPin := 56
  kConsoleTx := 1

def Chip.roles (b : Chip) : List Role :=
  (List.range b.uarts).flatMap (fun number => [.tx number, .rx number, .cts number, .rts number]) ++
    (List.range b.i2cs).flatMap fun bus => [.sda bus, .scl bus]

theorem Chip.mem_roles {b : Chip} {r : Role} (h : b.hasRole r = true) : r ∈ b.roles := by
  cases r <;> simpa [hasRole, roles] using h

/-- Distinct roles of the list have distinct signals. -/
theorem signals_injective {signalOf : Role → Option ℕ}
    (h : ∀ r ∈ esp32Chip.roles, ∀ r' ∈ esp32Chip.roles, signalOf r = signalOf r' →
      signalOf r = none ∨ r = r') {r r' : Role} {signal : ℕ} (hr : esp32Chip.hasRole r = true)
    (hr' : esp32Chip.hasRole r' = true) (hsignal : signalOf r = some signal)
    (hsignal' : signalOf r' = some signal) : r = r' := by
  obtain hnone | heq := h r (Chip.mem_roles hr) r' (Chip.mem_roles hr')
    (hsignal.trans hsignal'.symm)
  · cases hnone.symm.trans hsignal
  · exact heq

def esp32 : Board where
  toChip := esp32Chip
  valid_of_output := by
    intro pin h
    simp only [esp32Chip, Bool.and_eq_true, decide_eq_true_eq] at h ⊢
    exact ⟨by omega, h.2⟩
  undef_invalid := by decide
  out_injective := fun _ _ _ hr hr' => signals_injective (by decide +kernel) hr hr'
  out_ne_detach := by
    intro r hr
    have hall : ∀ r ∈ esp32Chip.roles, esp32Chip.outSignal r ≠ some 256 := by decide +kernel
    exact hall r (Chip.mem_roles hr)
  in_injective := fun _ _ _ hr hr' => signals_injective (by decide +kernel) hr hr'
  in_lt := by
    intro r signal hr hsignal
    have hall : ∀ r ∈ esp32Chip.roles, ∀ signal ∈ esp32Chip.inSignal r, signal < 256 := by
      decide +kernel
    exact hall r (Chip.mem_roles hr) signal hsignal

/-- The pin is free in the peripheral manager's table. -/
def isFree (s : World) (pin : ℕ) : Bool := (s.periman.pinAssignments pin).type = .init

theorem configured_ne_of_isFree {b : Board} {s : World} {stale : ℕ → Prop}
    (h : RoutedBut b stale s) {pin : ℕ} (hfree : isFree s pin = true)
    (hvalid : b.isValidPin pin = true) (r : Role) (hr : b.hasRole r = true)
    (hcarries : r.carries = true) : configured s r ≠ some pin := by
  intro hconfigured
  have hown := (h.reported r pin hr hcarries hvalid).mpr hconfigured
  have hinit := of_decide_eq_true hfree
  rw [hinit] at hown
  cases r <;> cases hown.1

/-- A peripheral without pins gets two that are free. -/
def onFreePins (b : Board) (s : World) : Call → Bool
  | .uartBegin number _ _ (some rx) (some tx) _ _ _ =>
    decide ((s.uarts number).rxPin = none) && decide ((s.uarts number).txPin = none) &&
      decide (rx ≠ tx) && b.isValidPin rx && b.isOutputPin tx && isFree s rx && isFree s tx
  | .i2cInit bus (some sda) (some scl) _ =>
    decide ((s.i2cs bus).initialized = false) && decide (sda ≠ scl) && isFree s sda && isFree s scl
  | .i2cDeinit _ => true
  | _ => false

theorem settled_of_onFreePins {b : Board} {s : World} {stale : ℕ → Prop}
    (h : RoutedBut b stale s) {c : Call} (hc : onFreePins b s c = true) : Settled b s c := by
  intro haccepted
  cases c with
  | uartBegin number baudrate config rx tx inverted fifoThreshold queued =>
    cases rx with
    | none => cases hc
    | some rx =>
      cases tx with
      | none => cases hc
      | some tx =>
        simp only [onFreePins, Bool.and_eq_true, decide_eq_true_eq] at hc
        obtain ⟨⟨⟨⟨⟨⟨hnorx, hnotx⟩, hne⟩, hrx⟩, htx⟩, hrxfree⟩, htxfree⟩ := hc
        have hrxs := configured_ne_of_isFree h hrxfree hrx
        have htxs := configured_ne_of_isFree h htxfree (b.valid_of_output tx htx)
        rw [Fitting, BeginFits, if_pos (by simp [pinsValid, hrx, htx])]
        refine ⟨fun _ _ => .inl hnotx, ?_, ?_, ?_⟩
        · rintro q hq r hr hcarries -
          cases hq
          exact hrxs r hr hcarries
        · intro q hq
          cases hq
          refine ⟨fun heq => hne (Option.some.inj heq), ?_⟩
          rintro r hr hcarries - -
          exact htxs r hr hcarries
        · intro q hq
          obtain hq | hq := hq <;> cases hq
  | i2cInit bus sda scl frequency =>
    cases sda with
    | none => cases haccepted
    | some sda =>
      cases scl with
      | none => cases haccepted
      | some scl =>
        simp only [onFreePins, Bool.and_eq_true, decide_eq_true_eq] at hc
        obtain ⟨⟨⟨hinit, hne⟩, hsda⟩, hscl⟩ := hc
        obtain ⟨-, hsdaOut, hsclOut⟩ := haccepted
        have hsdas := configured_ne_of_isFree h hsda (b.valid_of_output sda hsdaOut)
        have hscls := configured_ne_of_isFree h hscl (b.valid_of_output scl hsclOut)
        refine ⟨⟨hne, ?_⟩, fun hinit' => ?_⟩
        · rintro r hr hcarries - -
          exact ⟨hsdas r hr hcarries, hscls r hr hcarries⟩
        · cases hinit.symm.trans hinit'
  | i2cDeinit => trivial
  | uartSetPins | uartEnd => cases hc

/-- The console, a second UART, and a bus that moves to other pins in between. -/
def ports : List Call :=
  [.uartBegin 0 115200 0 (some 3) (some 1) false 120 true,
    .uartBegin 2 9600 0 (some 16) (some 17) false 120 true,
    .i2cInit 0 (some 21) (some 22) 100000, .i2cDeinit 0, .i2cInit 0 (some 25) (some 26) 400000]

theorem pins_routed_ports : ∃ s, run (step esp32) (boot esp32) ports = some s ∧ Routed esp32 s := by
  obtain ⟨s, hs⟩ := Option.isSome_iff_exists.mp
    (show (run (step esp32) (boot esp32) ports).isSome = true by decide +kernel)
  refine ⟨s, hs, pins_routed esp32 ports ?_ ?_ hs⟩
  · have hcheck : check (step esp32) (onFreePins esp32) (boot esp32) ports = true := by
      decide +kernel
    refine Meets.of_check (I := fun s => (∃ stale, RoutedBut esp32 stale s) ∧ Tidy esp32 s)
      ?_ ?_ ⟨⟨_, boot_routed⟩, boot_tidy⟩ hcheck
    · rintro s c s' ⟨⟨stale, hrouted⟩, htidy⟩ htest hstep
      cases hstep
      obtain ⟨hrouted', htidy'⟩ := perform_routed hrouted htidy (settled_of_onFreePins hrouted htest)
      exact ⟨⟨_, hrouted'⟩, htidy'⟩
    · rintro s c ⟨⟨stale, hrouted⟩, -⟩ htest
      exact settled_of_onFreePins hrouted htest
  · intro hundriven
    refine hundriven.1 ⟨⟨by decide, by decide, .inr rfl⟩, by decide, rfl⟩

/-- A UART is ended. -/
def ended : List Call :=
  [.uartBegin 0 115200 0 (some 3) (some 1) false 120 true,
    .uartBegin 2 9600 0 (some 16) (some 17) false 120 true, .uartEnd 2]

/-- Its signal stays on the pin. -/
theorem ended_still_drives : ∃ s, run (step esp32) (boot esp32) ended = some s ∧
    (s.uarts 2).installed = false ∧ s.outMatrix 17 = esp32.kUartTxSignals 2 ∧ ¬ Routed esp32 s := by
  have hrun : (run (step esp32) (boot esp32) ended).map (fun s =>
      ((s.uarts 2).installed, s.outMatrix 17)) = some (false, 198) := by decide +kernel
  obtain ⟨s, hs, hstate⟩ := Option.map_eq_some_iff.mp hrun
  obtain ⟨hinstalled, hout⟩ := Prod.mk.inj hstate
  refine ⟨s, hs, hinstalled, hout, fun hrouted => ?_⟩
  have hconfigured := (hrouted.out (.tx 2) 198 17 (by decide) rfl (by decide) id).mp hout
  rw [configured, active, hinstalled] at hconfigured
  cases hconfigured

end RooTesting.PinRouting
