import Mathlib.Data.List.DropRight
import Mathlib.Data.List.Forall2

/-!
# Vectors with holes

A vector whose holes at the end are dropped stands for a function that is a hole almost
everywhere: position `i` holds `l.getD i d`, where `d` is the hole that stands for all others.

* `getD_rdropWhile`: dropping holes at the end does not change the function;
* `forall₂_of_getD`: vectors without a hole at the end are compared position by position.
-/

namespace SparseVector

variable {α : Type} {hole : α → Bool} {d : α}

/-- What is dropped is a hole, so it does not matter when all holes are the same. -/
theorem getD_rdropWhile {l : List α} (h : ∀ a ∈ l, hole a = true → a = d) (i : Nat) :
    (l.rdropWhile hole).getD i d = l.getD i d := by
  induction l using List.reverseRecOn with
  | nil => rfl
  | append_singleton l a ih =>
    have hl : ∀ b ∈ l, hole b = true → b = d := fun b hb => h b (List.mem_append_left _ hb)
    cases ha : hole a with
    | false => rw [List.rdropWhile_concat_neg _ _ _ (by simp [ha])]
    | true =>
      obtain rfl : a = d := h a (by simp) ha
      rw [List.rdropWhile_concat_pos _ _ _ ha, ih hl]
      simp only [List.getD_eq_getElem?_getD, List.getElem?_append]
      split
      · rfl
      · next hi =>
        rw [List.getElem?_eq_none (by omega)]
        cases hj : i - l.length <;> simp

/-- A position either keeps its value or becomes a hole. -/
theorem getD_rdropWhile_or (hole : α → Bool) (d : α) (l : List α) (i : Nat) :
    (l.rdropWhile hole).getD i d = l.getD i d ∨ (l.rdropWhile hole).getD i d = d := by
  by_cases hi : i < (l.rdropWhile hole).length
  · left
    obtain ⟨t, ht⟩ := List.rdropWhile_prefix hole (l := l)
    rw [List.getD_eq_getElem?_getD, List.getD_eq_getElem?_getD]
    nth_rewrite 2 [← ht]
    rw [List.getElem?_append_left hi]
  · right
    simp [List.getD_eq_getElem?_getD, List.getElem?_eq_none (not_lt.mp hi)]

/-- The last position of a trimmed vector is not a hole. -/
theorem hole_last {l : List α} (h : l.rdropWhile hole = l) (hne : l ≠ []) :
    hole (l.getD (l.length - 1) d) = false := by
  have hlast := List.rdropWhile_eq_self_iff.mp h hne
  have hlen : 0 < l.length := List.length_pos_iff.mpr hne
  rw [List.getD_eq_getElem?_getD, List.getElem?_eq_getElem (by omega),
    ← List.getLast_eq_getElem hne]
  simpa using hlast

theorem length_le {l l' : List α} (hd : hole d = true) (h : l.rdropWhile hole = l)
    (hholes : ∀ i, hole (l'.getD i d) = true → hole (l.getD i d) = true) :
    l.length ≤ l'.length := by
  by_contra hlt
  have hne : l ≠ [] := by
    rintro rfl
    simp at hlt
  have hlast := hole_last (d := d) h hne
  rw [hholes] at hlast
  · cases hlast
  · rw [List.getD_eq_getElem?_getD, List.getElem?_eq_none (by omega)]
    exact hd

/-- **Position by position.**  A relation that sees holes relates trimmed vectors as soon as it
relates all positions. -/
theorem forall₂_of_getD (hole : α → Bool) {d : α} {R : α → α → Prop} {l l' : List α}
    (hd : hole d = true) (hR : ∀ a b, R a b → hole a = hole b) (h : l.rdropWhile hole = l)
    (h' : l'.rdropWhile hole = l') (hsame : ∀ i, R (l.getD i d) (l'.getD i d)) :
    List.Forall₂ R l l' := by
  have hlen : l.length = l'.length :=
    le_antisymm (length_le hd h fun i => (hR _ _ (hsame i)).trans)
      (length_le hd h' fun i => (hR _ _ (hsame i)).symm.trans)
  refine List.forall₂_iff_get.mpr ⟨hlen, fun i hi hi' => ?_⟩
  have hi'' := hsame i
  simpa [List.getD_eq_getElem?_getD, List.getElem?_eq_getElem hi,
    List.getElem?_eq_getElem hi'] using hi''

end SparseVector
