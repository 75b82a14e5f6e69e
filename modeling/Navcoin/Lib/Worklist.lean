import Mathlib.Data.List.Perm.Basic
import Mathlib.Order.Basic

/-!
# Loops over a worklist

* `run_sat`: a loop whose step keeps an invariant and lowers a measure ends, with enough rounds;
* `perm_of_takeBest`: taking the best element leaves the others;
* `PredecessorsFirst.append_sorted`: a package that is sorted by a rank, and complete, can be
  appended to an order in which predecessors come first.
-/

namespace Worklist

/-! ## Rounds -/

/-- What one round of a loop does. -/
inductive Outcome (σ : Type) where
  | next (s : σ)
  | stop (s : σ)
  /-- a failed assertion -/
  | failed

variable {σ : Type}

/-- Rounds until one stops. -/
def run (step : σ → Outcome σ) : Nat → σ → Option σ
  | 0, _ => none
  | fuel + 1, s =>
    match step s with
    | .next s' => run step fuel s'
    | .stop s' => some s'
    | .failed => none

/-- What a round has to do for the loop to end well. -/
def Outcome.Sat (Inv Post : σ → Prop) (μ : σ → Nat) (bound : Nat) : Outcome σ → Prop
  | .next s => Inv s ∧ μ s < bound
  | .stop s => Post s
  | .failed => False

/-- **A loop ends.** -/
theorem run_sat {step : σ → Outcome σ} {Inv Post : σ → Prop} {μ : σ → Nat}
    (hstep : ∀ s, Inv s → (step s).Sat Inv Post μ (μ s)) {fuel : Nat} {s : σ} (hs : Inv s)
    (hfuel : μ s < fuel) : ∃ s', run step fuel s = some s' ∧ Post s' := by
  induction fuel generalizing s with
  | zero => omega
  | succ fuel ih =>
    have hround := hstep s hs
    unfold run
    cases hout : step s with
    | next s' =>
      rw [hout] at hround
      obtain ⟨hinv, hlt⟩ := hround
      exact ih hinv (by omega)
    | stop s' =>
      rw [hout] at hround
      exact ⟨s', rfl, hround⟩
    | failed =>
      rw [hout] at hround
      exact hround.elim

/-! ## The best element -/

variable {α : Type}

/-- The best element by `better`, and the others. -/
def takeBest (better : α → α → Bool) : List α → Option (α × List α)
  | [] => none
  | a :: l =>
    match takeBest better l with
    | none => some (a, [])
    | some (b, rest) => if better b a then some (b, a :: rest) else some (a, b :: rest)

theorem takeBest_eq_none_iff {better : α → α → Bool} {l : List α} :
    takeBest better l = none ↔ l = [] := by
  cases l with
  | nil => exact iff_of_true rfl rfl
  | cons a l =>
    refine iff_of_false ?_ (List.cons_ne_nil a l)
    unfold takeBest
    split
    · exact Option.some_ne_none _
    · split
      · exact Option.some_ne_none _
      · exact Option.some_ne_none _

theorem perm_of_takeBest {better : α → α → Bool} {l rest : List α} {b : α}
    (h : takeBest better l = some (b, rest)) : l.Perm (b :: rest) := by
  induction l generalizing b rest with
  | nil => cases h
  | cons a l ih =>
    unfold takeBest at h
    split at h
    · next hnone =>
      rw [takeBest_eq_none_iff.mp hnone]
      cases h
      exact .refl _
    · next c others hsome =>
      have hl := ih hsome
      split at h
      · cases h
        exact (hl.cons a).trans (.swap b a others)
      · cases h
        exact hl.cons a

/-! ## Predecessors first -/

/-- Every predecessor of an element stands before it. -/
def PredecessorsFirst (R : α → α → Prop) (l : List α) : Prop :=
  ∀ l₁ b l₂, l = l₁ ++ b :: l₂ → ∀ a, R a b → a ∈ l₁

variable {R : α → α → Prop} {l : List α}

theorem PredecessorsFirst.nil : PredecessorsFirst R ([] : List α) := by
  intro l₁ b l₂ h
  exact absurd h.symm (List.append_ne_nil_of_right_ne_nil l₁ (List.cons_ne_nil b l₂))

theorem PredecessorsFirst.append_singleton (h : PredecessorsFirst R l) {b : α}
    (hb : ∀ a, R a b → a ∈ l) : PredecessorsFirst R (l ++ [b]) := by
  intro l₁ b' l₂ heq a hR
  rcases List.eq_nil_or_concat l₂ with rfl | ⟨l₃, c, rfl⟩
  · obtain ⟨rfl, hlast⟩ := List.append_inj' heq rfl
    cases hlast
    exact hb a hR
  · rw [List.concat_eq_append, ← List.cons_append, ← List.append_assoc] at heq
    obtain ⟨rfl, _⟩ := List.append_inj' heq rfl
    exact h l₁ b' l₃ rfl a hR

/-- Predecessors of a member are members. -/
theorem PredecessorsFirst.mem (h : PredecessorsFirst R l) {a b : α} (hb : b ∈ l) (hR : R a b) :
    a ∈ l := by
  obtain ⟨l₁, l₂, rfl⟩ := List.append_of_mem hb
  exact List.mem_append_left _ (h l₁ b l₂ rfl a hR)

/-- **A complete package, sorted by a rank that grows along `R`.** -/
theorem PredecessorsFirst.append_sorted {p : List α} (h : PredecessorsFirst R l) (rank : α → Int)
    (hrank : ∀ a ∈ p, ∀ b ∈ p, R a b → rank a < rank b)
    (hsorted : p.Pairwise fun a b => rank a ≤ rank b)
    (hcomplete : ∀ b ∈ p, ∀ a, R a b → a ∈ l ∨ a ∈ p) : PredecessorsFirst R (l ++ p) := by
  -- one element at a time: the first of the package has all its predecessors in `l`
  induction p generalizing l with
  | nil => rwa [List.append_nil]
  | cons b p ih =>
    rw [List.pairwise_cons] at hsorted
    have hfirst : ∀ a, R a b → a ∈ l := by
      intro a hR
      rcases hcomplete b List.mem_cons_self a hR with ha | ha
      · exact ha
      · have hlt := hrank a ha b List.mem_cons_self hR
        rcases List.mem_cons.mp ha with rfl | ha
        · omega
        · have hle := hsorted.1 a ha
          omega
    have hnext : PredecessorsFirst R ((l ++ [b]) ++ p) := by
      apply ih (h.append_singleton hfirst)
      · intro a ha c hc hR
        exact hrank a (List.mem_cons_of_mem b ha) c (List.mem_cons_of_mem b hc) hR
      · exact hsorted.2
      · intro c hc a hR
        rcases hcomplete c (List.mem_cons_of_mem b hc) a hR with ha | ha
        · exact .inl (List.mem_append_left _ ha)
        · rcases List.mem_cons.mp ha with rfl | ha
          · exact .inl (List.mem_append_right _ List.mem_cons_self)
          · exact .inr ha
    rwa [List.append_assoc, List.singleton_append] at hnext

end Worklist
