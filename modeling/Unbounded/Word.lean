/-
This file fixes the machine arithmetic the rest of the development counts in.
A machine word of width `bits` is a natural number below `2 ^ bits`. A checked
operation fails where its machine counterpart would wrap, and a saturating one
stops at the largest word. Saturating subtraction is truncated subtraction of
natural numbers and needs no definition of its own.
-/

import Mathlib

namespace Unbounded.Word

variable (bits : Nat)

/-- Addition that fails instead of wrapping. -/
def checkedAdd (first second : Nat) : Option Nat :=
  if first + second < 2 ^ bits then some (first + second) else none

/-- Subtraction that fails instead of wrapping below zero. -/
def checkedSub (first second : Nat) : Option Nat :=
  if second ≤ first then some (first - second) else none

/-- Multiplication that fails instead of wrapping. -/
def checkedMul (first second : Nat) : Option Nat :=
  if first * second < 2 ^ bits then some (first * second) else none

/-- Addition that stops at the largest word. -/
def saturatingAdd (first second : Nat) : Nat := min (first + second) (2 ^ bits - 1)

/-- Subtraction that wraps below zero. -/
def wrappingSub (first second : Nat) : Nat := (first + 2 ^ bits - second) % 2 ^ bits

/-- Multiplication that stops at the largest word. -/
def saturatingMul (first second : Nat) : Nat := min (first * second) (2 ^ bits - 1)

theorem checkedAdd_eq_some {bits first second sum : Nat} : checkedAdd bits first second = some sum ↔
      first + second < 2 ^ bits ∧ sum = first + second := by
  rw [checkedAdd, Option.ite_none_right_eq_some, Option.some_inj, eq_comm (a := sum)]

theorem checkedSub_eq_some {first second difference : Nat} :
    checkedSub first second = some difference ↔ second ≤ first ∧ difference = first - second := by
  rw [checkedSub, Option.ite_none_right_eq_some, Option.some_inj, eq_comm (a := difference)]

theorem checkedMul_eq_some {bits first second product : Nat} :
    checkedMul bits first second = some product ↔
      first * second < 2 ^ bits ∧ product = first * second := by
  rw [checkedMul, Option.ite_none_right_eq_some, Option.some_inj, eq_comm (a := product)]

theorem checkedAdd_of_lt {bits first second : Nat} (small : first + second < 2 ^ bits) :
    checkedAdd bits first second = some (first + second) := by
  rw [checkedAdd, if_pos small]

theorem checkedSub_of_le {first second : Nat} (le : second ≤ first) :
    checkedSub first second = some (first - second) := by
  rw [checkedSub, if_pos le]

theorem saturatingAdd_le (first second : Nat) : saturatingAdd bits first second ≤ first + second :=
  Nat.min_le_left _ _

/-- A checked sum succeeds when the whole sum fits the word. -/
theorem foldlM_checkedAdd {Item : Type*} (bits : Nat) (measure : Item → Nat) (items : List Item)
    (start : Nat) (small : start + (items.map measure).sum < 2 ^ bits) :
    items.foldlM (fun sum item => checkedAdd bits sum (measure item)) start =
      some (start + (items.map measure).sum) := by
  induction items generalizing start with
  | nil => rfl
  | cons _ _ ih =>
    rw [List.map_cons, List.sum_cons, ← Nat.add_assoc] at small ⊢
    rw [List.foldlM_cons, checkedAdd_of_lt (lt_of_le_of_lt (Nat.le_add_right _ _) small)]
    exact ih _ small

/-- A checked sum that succeeds is the sum. -/
theorem foldlM_checkedAdd_eq_some {Item : Type*} {bits : Nat} (measure : Item → Nat)
    {items : List Item} {start total : Nat}
    (summed : items.foldlM (fun sum item => checkedAdd bits sum (measure item)) start =
      some total) :
    total = start + (items.map measure).sum := by
  induction items generalizing start with
  | nil => exact (Option.some_inj.mp summed).symm
  | cons _ _ ih =>
    obtain ⟨_, added, rest⟩ := Option.bind_eq_some_iff.mp summed
    rw [ih rest, (checkedAdd_eq_some.mp added).2, List.map_cons, List.sum_cons, Nat.add_assoc]

end Unbounded.Word
