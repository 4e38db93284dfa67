/-
This file is the library of labelled transition systems the development runs
its components in. A run is a finite sequence of steps, each carrying a label;
it grows at its end, so that an induction on a run argues about its last step.

Four rules follow from that one induction. An invariant that every step keeps
holds at the end of a run, and so does a property of the labels so far and the
state they lead to. A reflexive and transitive relation that every step
respects relates the two ends of a run. A measure that pays for every counted
step bounds how many of them a run takes.
-/

import Mathlib

namespace Unbounded.Transition

open List

variable {State Label : Type*} {step : State → Label → State → Prop}

/-- A finite run: the labels of its steps, in order, between its two ends. -/
inductive Run (step : State → Label → State → Prop) : State → List Label → State → Prop
  | nil (state : State) : Run step state [] state
  | snoc {first middle last : State} {labels : List Label} {label : Label}
      (earlier : Run step first labels middle) (final : step middle label last) :
      Run step first (labels ++ [label]) last

variable {first last : State} {labels : List Label} {label : Label}

theorem Run.single (final : step first label last) : Run step first [label] last :=
  Run.snoc (Run.nil first) final

theorem Run.trans {middle : State} {before after : List Label}
    (earlier : Run step first before middle) (later : Run step middle after last) :
    Run step first (before ++ after) last := by
  induction later with
  | nil => rw [append_nil]; exact earlier
  | snoc _ final ih =>
    rw [← append_assoc]
    exact Run.snoc ih final

/-- A run may also be grown at its front. -/
theorem Run.cons {first middle last : State} {labels : List Label} (head : step first label middle)
    (tail : Run step middle labels last) : Run step first (label :: labels) last :=
  (Run.single head).trans tail

/-- A run of two sequences of labels passes through a state between them. -/
theorem Run.between {before after : List Label} (run : Run step first (before ++ after) last) :
    ∃ middle, Run step first before middle ∧ Run step middle after last := by
  generalize whole : before ++ after = labels at run
  induction run generalizing after with
  | nil =>
    obtain ⟨rfl, rfl⟩ := append_eq_nil_iff.mp whole
    exact ⟨_, .nil _, .nil _⟩
  | snoc earlier final ih =>
    rcases eq_nil_or_concat after with rfl | ⟨_, _, rfl⟩
    · rw [append_nil] at whole
      exact ⟨_, whole ▸ .snoc earlier final, .nil _⟩
    · rw [concat_eq_append, ← append_assoc] at whole
      obtain ⟨same, last⟩ := append_inj' whole rfl
      obtain ⟨middle, left, right⟩ := ih same
      rw [concat_eq_append, last]
      exact ⟨middle, left, .snoc right final⟩

/-- A run of one label and more begins with a step. -/
theorem Run.uncons (run : Run step first (label :: labels) last) :
    ∃ middle, step first label middle ∧ Run step middle labels last := by
  have parts : Run step first ([label] ++ labels) last := run
  obtain ⟨middle, head, tail⟩ := parts.between
  generalize whole : [label] = single at head
  cases head with
  | nil => cases whole
  | snoc earlier final =>
    obtain ⟨empty, same⟩ := append_inj' (show [] ++ [label] = _ ++ [_] from whole) rfl
    cases same
    subst empty
    generalize none : ([] : List Label) = empty at earlier
    cases earlier with
    | nil => exact ⟨middle, final, tail⟩
    | snoc => exact absurd none.symm (append_ne_nil_of_right_ne_nil _ (cons_ne_nil _ _))

/-- A run whose labels all meet a condition is a run of the steps that meet it. -/
theorem Run.guarded (condition : Label → Prop)
    (run : Run step first labels last) (meets : ∀ label ∈ labels, condition label) :
    Run (fun state label next => step state label next ∧ condition label) first labels last := by
  induction run with
  | nil => exact Run.nil _
  | @snoc _ _ _ label _ final ih =>
    refine Run.snoc (ih fun earlier member => ?_) ⟨final, ?_⟩
    · exact meets earlier (mem_append_left _ member)
    · exact meets label (mem_concat_self)

variable (property : State → Prop)

/-- An invariant that every step keeps holds at the end of a run. -/
theorem Run.invariant
    (kept : ∀ state label next, property state → step state label next → property next)
    (run : Run step first labels last) (start : property first) : property last := by
  induction run with
  | nil => exact start
  | snoc _ final ih => exact kept _ _ _ ih final

/-- A property of the labels so far and the state they lead to, kept by every step, holds at the
end of a run. -/
theorem Run.history (property : List Label → State → Prop)
    (kept : ∀ labels state label next, property labels state → step state label next →
      property (labels ++ [label]) next) (run : Run step first labels last)
    (start : property [] first) : property labels last := by
  induction run with
  | nil => exact start
  | snoc _ final ih => exact kept _ _ _ _ ih final

/-- A reflexive and transitive relation that every step from an invariant state respects
relates the two ends of a run. -/
theorem Run.related (relation : State → State → Prop)
    (kept : ∀ state label next, property state → step state label next → property next)
    (reflexive : ∀ state, relation state state) (transitive : ∀ first second third,
      relation first second → relation second third → relation first third)
    (respected : ∀ state label next, property state → step state label next →
      relation state next) (run : Run step first labels last) (start : property first) :
    relation first last := by
  induction run with
  | nil => exact reflexive _
  | snoc earlier final ih =>
    exact transitive _ _ _ ih
      (respected _ _ _ (earlier.invariant property kept start) final)

/-- A measure that pays for every counted step bounds how many of them a run takes. -/
theorem Run.countP_le (measure : State → Nat) (counts : Label → Bool)
    (kept : ∀ state label next, property state → step state label next → property next)
    (pays : ∀ state label next, property state → step state label next →
      (measure next + if counts label then 1 else 0) ≤ measure state)
    (run : Run step first labels last) (start : property first) :
    measure last + labels.countP counts ≤ measure first := by
  induction run with
  | nil => exact Nat.le_refl _
  | snoc earlier final =>
    have paid := pays _ _ _ (earlier.invariant property kept start) final
    rw [countP_append, countP_singleton]
    omega

end Unbounded.Transition
