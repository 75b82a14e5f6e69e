import Navcoin.Lib.Traced

/-!
# Runs of a step that may fail

A run applies a step to one input after the other and ends with the first failure.

* `after_induction`: what holds at the start and is kept by every step of the run;
* `after_rel`: what two states of a run have in common, from what a step leaves as it is;
* `of_all`: a check that can be evaluated on a run.
-/

namespace Run

variable {σ ι ε : Type} (step : σ → ι → Except ε σ)

/-- The state after the first `n` inputs. -/
def after (s : σ) (l : List ι) (n : Nat) : Except ε σ := (l.take n).foldlM step s

variable {step} {s t u : σ} {l : List ι} {m n : Nat}

@[simp] theorem after_zero (s : σ) (l : List ι) : after step s l 0 = .ok s := rfl

theorem after_length (s : σ) (l : List ι) : after step s l l.length = l.foldlM step s := by
  rw [after, List.take_length]

/-- One more input. -/
theorem after_succ_eq_ok_iff {i : ι} (hi : l[n]? = some i) :
    after step s l (n + 1) = .ok t ↔ ∃ u, after step s l n = .ok u ∧ step u i = .ok t := by
  have htake : l.take (n + 1) = l.take n ++ [i] := by rw [List.take_add_one, hi, Option.toList_some]
  rw [after, htake, List.foldlM_append, Except.bind_eq_ok_iff]
  simp only [List.foldlM_cons, List.foldlM_nil, bind_pure, after]

/-- Past the end nothing happens. -/
theorem after_succ_of_none (hi : l[n]? = none) : after step s l (n + 1) = after step s l n := by
  have htake : l.take (n + 1) = l.take n := by
    rw [List.take_add_one, hi, Option.toList_none, List.append_nil]
  rw [after, htake, after]

/-- The step that led to a state, or nothing. -/
theorem exists_of_after_succ (h : after step s l (n + 1) = .ok t) :
    ∃ u, after step s l n = .ok u ∧ (u = t ∨ ∃ i, l[n]? = some i ∧ step u i = .ok t) := by
  cases hi : l[n]? with
  | none =>
    rw [after_succ_of_none hi] at h
    exact ⟨t, h, .inl rfl⟩
  | some i =>
    obtain ⟨u, hu, hstep⟩ := (after_succ_eq_ok_iff hi).mp h
    exact ⟨u, hu, .inr ⟨i, rfl, hstep⟩⟩

/-- Every part of a run that ends well ends well. -/
theorem exists_after (h : l.foldlM step s = .ok t) (n : Nat) : ∃ u, after step s l n = .ok u := by
  rw [← List.take_append_drop n l, List.foldlM_append, Except.bind_eq_ok_iff] at h
  obtain ⟨u, hu, _⟩ := h
  exact ⟨u, hu⟩

/-- **The rule for invariants.** -/
theorem after_induction {P : Nat → σ → Prop} (hzero : P 0 s)
    (hstep : ∀ n i u t, l[n]? = some i → after step s l n = .ok u → P n u → step u i = .ok t →
      P (n + 1) t)
    (hend : ∀ n u, P n u → P (n + 1) u) (h : after step s l n = .ok t) : P n t := by
  induction n generalizing t with
  | zero =>
    cases h
    exact hzero
  | succ n ih =>
    obtain ⟨u, hu, rfl | ⟨i, hi, hstep'⟩⟩ := exists_of_after_succ h
    · exact hend n u (ih hu)
    · exact hstep n i u t hi hu (ih hu) hstep'

/-- **The rule for two states of a run.** -/
theorem after_rel {R : σ → σ → Prop} (hrefl : ∀ s, R s s)
    (htrans : ∀ s t u, R s t → R t u → R s u)
    (hstep : ∀ n i u t, l[n]? = some i → after step s l n = .ok u → step u i = .ok t → R u t)
    (hle : m ≤ n) (hu : after step s l m = .ok u) (ht : after step s l n = .ok t) : R u t := by
  induction hle generalizing t with
  | refl =>
    rw [hu] at ht
    cases ht
    exact hrefl u
  | @step n _ ih =>
    obtain ⟨v, hv, rfl | ⟨i, hi, hstep'⟩⟩ := exists_of_after_succ ht
    · exact ih hv
    · exact htrans u v t (ih hv) (hstep n i v t hi hv hstep')

/-- A check of every step of a run. -/
def all (step : σ → ι → Except ε σ) (check : σ → ι → Bool) : σ → List ι → Bool
  | _, [] => true
  | s, i :: l => check s i && match step s i with
    | .error _ => true
    | .ok t => all step check t l

/-- **A check that passes** holds of every step. -/
theorem of_all {check : σ → ι → Bool} (h : all step check s l = true) {i : ι}
    (hi : l[n]? = some i) (hu : after step s l n = .ok u) : check u i = true := by
  induction l generalizing s n with
  | nil => simp at hi
  | cons j l ih =>
    rw [all, Bool.and_eq_true] at h
    cases n with
    | zero =>
      cases hi
      cases hu
      exact h.1
    | succ n =>
      rw [after, List.take_succ_cons, List.foldlM_cons, Except.bind_eq_ok_iff] at hu
      obtain ⟨t, ht, hrest⟩ := hu
      rw [ht] at h
      exact ih h.2 hi hrest

end Run
