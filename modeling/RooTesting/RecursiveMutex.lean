import Mathlib.Data.Nat.Notation
import Mathlib.Logic.Function.Basic
import Mathlib.Tactic.Cases
import Mathlib.Tactic.Common

/-! # Recursive mutexes

A recursive mutex counts how often its holder has taken it. It accounts for a table of needs when
each task has taken it as often as the table says, so at most one task has any need. -/
namespace RooTesting

universe u
variable {τ : Type u} [DecidableEq τ]

structure RecursiveMutex (τ : Type u) where
  holder : Option τ := none
  count : ℕ := 0

namespace RecursiveMutex

variable {m m' : RecursiveMutex τ} {need : τ → ℕ} {t u : τ}

/-- Enabled when the mutex is free or the task holds it already. -/
def take (m : RecursiveMutex τ) (t : τ) : Option (RecursiveMutex τ) :=
  match m.holder with
  | none => some ⟨some t, 1⟩
  | some u => if u = t then some ⟨some t, m.count + 1⟩ else none

/-- Refused to a task that does not hold the mutex. -/
def give (m : RecursiveMutex τ) (t : τ) : Option (RecursiveMutex τ) :=
  if m.holder = some t then
    some (if m.count ≤ 1 then ⟨none, 0⟩ else ⟨some t, m.count - 1⟩)
  else none

/-- Each task has taken the mutex as often as it needs. -/
structure Accounts (m : RecursiveMutex τ) (need : τ → ℕ) : Prop where
  free : m.holder = none → ∀ t, need t = 0
  held : ∀ t, m.holder = some t → m.count = need t ∧ 0 < need t
  others : ∀ t u, m.holder = some t → u ≠ t → need u = 0

namespace Accounts

omit [DecidableEq τ] in
theorem start : Accounts ({} : RecursiveMutex τ) fun _ => 0 where
  free _ _ := rfl
  held t h := by cases h
  others t u h := by cases h

/-- A task in need holds the mutex. -/
theorem holder (h : m.Accounts need) (ht : 0 < need t) : m.holder = some t := by
  cases hm : m.holder with
  | none =>
    have := h.free hm t
    omega
  | some u =>
    by_cases htu : t = u
    · rw [htu]
    · have := h.others u t hm htu
      omega

theorem exclusive (h : m.Accounts need) (ht : 0 < need t) (hu : 0 < need u) : t = u :=
  Option.some.inj ((h.holder ht).symm.trans (h.holder hu))

theorem take (h : m.Accounts need) (hm : m.take t = some m') :
    m'.Accounts (Function.update need t (need t + 1)) := by
  unfold RecursiveMutex.take at hm
  cases hholder : m.holder with
  | none =>
    rw [hholder] at hm
    cases hm
    have hnone := h.free hholder
    constructor
    · intro hno
      cases hno
    · intro u hu
      obtain rfl := Option.some.inj hu
      rw [Function.update_self, hnone t]
      exact ⟨rfl, Nat.zero_lt_one⟩
    · intro u v hu hv
      obtain rfl := Option.some.inj hu
      rw [Function.update_of_ne hv, hnone v]
  | some u =>
    rw [hholder] at hm
    dsimp only at hm
    split at hm
    · rename_i hut
      subst hut
      cases hm
      obtain ⟨hcount, hpos⟩ := h.held u hholder
      constructor
      · intro hno
        cases hno
      · intro v hv
        obtain rfl := Option.some.inj hv
        rw [Function.update_self, hcount]
        exact ⟨rfl, Nat.succ_pos _⟩
      · intro v w hv hw
        obtain rfl := Option.some.inj hv
        rw [Function.update_of_ne hw, h.others _ w hholder hw]
    · cases hm

theorem give (h : m.Accounts need) (hm : m.give t = some m') :
    0 < need t ∧ m'.Accounts (Function.update need t (need t - 1)) := by
  unfold RecursiveMutex.give at hm
  split at hm
  · rename_i hholder
    obtain ⟨hcount, hpos⟩ := h.held t hholder
    refine ⟨hpos, ?_⟩
    have hothers := fun u hu => h.others t u hholder hu
    obtain rfl := Option.some.inj hm
    split
    · constructor
      · intro _ u
        by_cases hu : u = t
        · subst hu
          rw [Function.update_self]
          omega
        · rw [Function.update_of_ne hu, hothers u hu]
      · intro u hu
        cases hu
      · intro u v hu
        cases hu
    · constructor
      · intro hno
        cases hno
      · intro u hu
        obtain rfl := Option.some.inj hu
        rw [Function.update_self]
        exact ⟨by rw [hcount], by omega⟩
      · intro u v hu hv
        obtain rfl := Option.some.inj hu
        rw [Function.update_of_ne hv, hothers v hv]
  · cases hm

end Accounts

end RecursiveMutex

end RooTesting
