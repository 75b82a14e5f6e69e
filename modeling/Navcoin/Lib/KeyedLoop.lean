import Mathlib.Data.List.Basic
import Navcoin.Lib.Traced

/-!
# Loops that change one key at a time

A loop over items with distinct keys, each of whose rounds leaves what is seen under other keys
alone.  What is seen under the key of an item after the loop is what its own round made of it.

* `foldl_of_not_mem`, `foldl_at`: loops;
* `foldlM_of_not_mem`, `foldlM_at`: loops that may fail.
-/

namespace KeyedLoop

variable {σ ι κ β ε : Type} {g : ι → κ} {v : σ → κ → β}

/-- Where an item stands in a list of items with distinct keys. -/
theorem exists_split {l : List ι} (hl : (l.map g).Nodup) {i : ι} (hi : i ∈ l) :
    ∃ pre post, l = pre ++ i :: post ∧ (∀ j ∈ pre, g j ≠ g i) ∧ ∀ j ∈ post, g j ≠ g i := by
  obtain ⟨pre, post, rfl⟩ := List.append_of_mem hi
  rw [List.map_append, List.nodup_append] at hl
  obtain ⟨_, hpost, hdisjoint⟩ := hl
  refine ⟨pre, post, rfl, fun j hj => ?_, fun j hj heq => ?_⟩
  · exact hdisjoint (g j) (List.mem_map_of_mem hj) (g i) List.mem_cons_self
  · exact (List.nodup_cons.mp hpost).1 (heq ▸ List.mem_map_of_mem hj)

section Pure

variable {step : σ → ι → σ}

/-- A key that no item has. -/
theorem foldl_of_not_mem (hstep : ∀ s i k, k ≠ g i → v (step s i) k = v s k) {k : κ}
    (l : List ι) (s : σ) (h : ∀ i ∈ l, g i ≠ k) : v (l.foldl step s) k = v s k := by
  induction l generalizing s with
  | nil => rfl
  | cons i l ih =>
    have hrest := ih (step s i) fun j hj => h j (List.mem_cons_of_mem _ hj)
    exact hrest.trans (hstep s i k (h i List.mem_cons_self).symm)

/-- The key of an item. -/
theorem foldl_at (hstep : ∀ s i k, k ≠ g i → v (step s i) k = v s k) {l : List ι}
    (hl : (l.map g).Nodup) (s : σ) {i : ι} (hi : i ∈ l) :
    ∃ pre post, l = pre ++ i :: post ∧
      v (pre.foldl step s) (g i) = v s (g i) ∧
      v (l.foldl step s) (g i) = v (step (pre.foldl step s) i) (g i) := by
  obtain ⟨pre, post, rfl, hpre, hpost⟩ := exists_split hl hi
  refine ⟨pre, post, rfl, foldl_of_not_mem hstep pre s hpre, ?_⟩
  rw [List.foldl_append]
  exact foldl_of_not_mem hstep post _ hpost

end Pure

section Fallible

variable {step : σ → ι → Except ε σ}

theorem foldlM_of_not_mem
    (hstep : ∀ s i s' k, step s i = .ok s' → k ≠ g i → v s' k = v s k) {k : κ}
    (l : List ι) {s s' : σ} (hrun : l.foldlM step s = .ok s') (h : ∀ i ∈ l, g i ≠ k) :
    v s' k = v s k := by
  induction l generalizing s with
  | nil =>
    cases hrun
    rfl
  | cons i l ih =>
    rw [List.foldlM_cons, Except.bind_eq_ok_iff] at hrun
    obtain ⟨t, ht, hrun⟩ := hrun
    have hrest := ih hrun fun j hj => h j (List.mem_cons_of_mem _ hj)
    exact hrest.trans (hstep s i t k ht (h i List.mem_cons_self).symm)

theorem foldlM_at
    (hstep : ∀ s i s' k, step s i = .ok s' → k ≠ g i → v s' k = v s k) {l : List ι}
    (hl : (l.map g).Nodup) {s s' : σ} (hrun : l.foldlM step s = .ok s') {i : ι} (hi : i ∈ l) :
    ∃ pre post t t', l = pre ++ i :: post ∧ pre.foldlM step s = .ok t ∧ step t i = .ok t' ∧
      post.foldlM step t' = .ok s' ∧ v t (g i) = v s (g i) ∧
      v s' (g i) = v t' (g i) := by
  obtain ⟨pre, post, rfl, hpre, hpost⟩ := exists_split hl hi
  rw [List.foldlM_append, Except.bind_eq_ok_iff] at hrun
  obtain ⟨t, ht, hrun⟩ := hrun
  rw [List.foldlM_cons, Except.bind_eq_ok_iff] at hrun
  obtain ⟨t', ht', hrun⟩ := hrun
  exact ⟨pre, post, t, t', rfl, ht, ht', hrun, foldlM_of_not_mem hstep pre ht hpre,
    foldlM_of_not_mem hstep post hrun hpost⟩

end Fallible

end KeyedLoop
