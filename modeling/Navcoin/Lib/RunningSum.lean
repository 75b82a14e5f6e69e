import Mathlib.Algebra.BigOperators.Group.List.Basic

/-!
# Running sums with a first-element flag

Group code that has no cheap neutral element often keeps a flag "nothing added yet"
and lets the first term replace the accumulator instead of adding to it.  The record
carries the fact that makes this correct: while the flag is set the accumulator is
still zero.  `total_push` then says that a push is an addition, whatever the flag.
-/

/-- An accumulator and its flag. -/
structure RunningSum (G : Type) [AddCommMonoid G] where
  total : G
  isFirst : Bool
  total_of_isFirst : isFirst = true → total = 0

namespace RunningSum

variable {G : Type} [AddCommMonoid G]

def empty : RunningSum G := ⟨0, true, fun _ => rfl⟩

/-- `acc = first ? t : acc + t; first = false` -/
def push (s : RunningSum G) (t : G) : RunningSum G :=
  ⟨if s.isFirst then t else s.total + t, false, fun h => absurd h Bool.false_ne_true⟩

@[simp] theorem total_empty : (empty : RunningSum G).total = 0 := rfl

@[simp] theorem isFirst_empty : (empty : RunningSum G).isFirst = true := rfl

@[simp] theorem isFirst_push (s : RunningSum G) (t : G) : (s.push t).isFirst = false := rfl

@[simp] theorem total_push (s : RunningSum G) (t : G) : (s.push t).total = s.total + t := by
  unfold push
  by_cases h : s.isFirst = true
  · simp [h, s.total_of_isFirst h]
  · simp [h]

end RunningSum
