import Mathlib.Algebra.Order.Group.Int
import Mathlib.Data.List.Induction

/-!
# A loop that keeps the highest value

The best value so far is replaced by one that is strictly higher, and the first one has to be above
zero.

* `isHighest_foldl`: what such a loop returns.
-/

namespace Highest

variable {α : Type} (height : α → Int)

/-- The height that the next value has to pass. -/
def bound (best : Option α) : Int := (best.map height).getD 0

/-- One round. -/
def keep (best : Option α) (a : α) : Option α :=
  if height a > bound height best then some a else best

/-- The best of some values: a positive one that none is above. -/
structure IsHighest (l : List α) (best : Option α) : Prop where
  mem : ∀ b, best = some b → b ∈ l ∧ 0 < height b
  le : ∀ a ∈ l, height a ≤ bound height best

variable {height}

theorem isHighest_keep {l : List α} {best : Option α} (h : IsHighest height l best) (a : α) :
    IsHighest height (l ++ [a]) (keep height best a) := by
  have hbound : 0 ≤ bound height best := by
    cases best with
    | none => exact le_rfl
    | some b => exact (h.mem b rfl).2.le
  unfold keep
  split
  · next hlt =>
    refine ⟨fun b hb => ?_, List.forall_mem_append.mpr ⟨fun b hb => ?_, ?_⟩⟩
    · cases hb
      exact ⟨by simp, hbound.trans_lt hlt⟩
    · exact (h.le b hb).trans hlt.le
    · simp [bound]
  · next hle =>
    refine ⟨fun b hb => ?_, List.forall_mem_append.mpr ⟨h.le, ?_⟩⟩
    · exact ⟨List.mem_append_left _ (h.mem b hb).1, (h.mem b hb).2⟩
    · simpa using hle

/-- **What the loop returns.** -/
theorem isHighest_foldl (l : List α) : IsHighest height l (l.foldl (keep height) none) := by
  induction l using List.reverseRecOn with
  | nil => exact ⟨fun b hb => (by cases hb), by simp⟩
  | append_singleton l a ih =>
    rw [List.foldl_append]
    exact isHighest_keep ih a

end Highest
