import Mathlib.Data.List.Basic
import Mathlib.Data.List.Forall2
import Mathlib.Logic.Function.Basic

/-!
# Journals

A journal says what an event does to the entry under its key, what it records, and how an entry
is brought back with the record.  Events act on a map from keys to entries, one entry at a time;
they are taken back in reverse order, and taking one back may report that the entry was not as
expected.

* `run_at`, `back_at`: the events of one key, seen from its entry;
* `back_clean_iff`: nothing is reported exactly when nothing is reported under any key;
* `run_append`, `back_append`: runs in pieces;
* `run_congr`, `back_congr`: a relation between entries that events respect;
* `run_forall`, `back_forall`: a property of entries that events keep.
-/

structure Journal (κ β ε ρ : Type) where
  key : ε → κ
  apply : ε → β → Option (β × ρ)
  revert : ε → ρ → β → β × Bool

namespace Journal

variable {κ β ε ρ : Type} [DecidableEq κ] (J : Journal κ β ε ρ)

/-! ## One entry -/

/-- Events on one entry, with their records. -/
def runAt (b : β) : List ε → Option (β × List (ε × ρ))
  | [] => some (b, [])
  | e :: l => (J.apply e b).bind fun p =>
    (runAt p.1 l).map fun q => (q.1, (e, p.2) :: q.2)

/-- Take recorded events back, the last one first. -/
def backAt (b : β) : List (ε × ρ) → β × Bool
  | [] => (b, true)
  | e :: l =>
    let p := backAt b l
    let q := J.revert e.1 e.2 p.1
    (q.1, p.2 && q.2)

/-! ## A map of entries -/

def run (s : κ → β) : List ε → Option ((κ → β) × List (ε × ρ))
  | [] => some (s, [])
  | e :: l => (J.apply e (s (J.key e))).bind fun p =>
    (run (Function.update s (J.key e) p.1) l).map fun q => (q.1, (e, p.2) :: q.2)

def back (s : κ → β) : List (ε × ρ) → (κ → β) × Bool
  | [] => (s, true)
  | e :: l =>
    let p := back s l
    let q := J.revert e.1 e.2 (p.1 (J.key e.1))
    (Function.update p.1 (J.key e.1) q.1, p.2 && q.2)

/-- The events of a key. -/
def eventsAt (k : κ) (l : List ε) : List ε := l.filter fun e => J.key e = k

/-- The recorded events of a key. -/
def recordsAt (k : κ) (l : List (ε × ρ)) : List (ε × ρ) := l.filter fun e => J.key e.1 = k

variable {J}
variable {s : κ → β} {l : List ε} {js : List (ε × ρ)} {P : κ → β → Prop} {R : β → β → Prop}

theorem eventsAt_cons (k : κ) (e : ε) (l : List ε) :
    J.eventsAt k (e :: l) = if J.key e = k then e :: J.eventsAt k l else J.eventsAt k l := by
  simp [eventsAt, List.filter_cons]

theorem recordsAt_cons (k : κ) (e : ε × ρ) (l : List (ε × ρ)) :
    J.recordsAt k (e :: l) = if J.key e.1 = k then e :: J.recordsAt k l else J.recordsAt k l := by
  simp [recordsAt, List.filter_cons]

variable {t : κ → β}

theorem run_cons_eq_some {e : ε} (h : J.run s (e :: l) = some (t, js)) :
    ∃ b r js', J.apply e (s (J.key e)) = some (b, r) ∧
      J.run (Function.update s (J.key e) b) l = some (t, js') ∧ js = (e, r) :: js' := by
  obtain ⟨⟨b, r⟩, happly, hrest⟩ := Option.bind_eq_some_iff.mp h
  obtain ⟨⟨t', js'⟩, hrun, heq⟩ := Option.map_eq_some_iff.mp hrest
  cases heq
  exact ⟨b, r, js', happly, hrun, rfl⟩

omit [DecidableEq κ] in
theorem runAt_cons_eq_some {b c : β} {e : ε} (h : J.runAt b (e :: l) = some (c, js)) :
    ∃ b' r js', J.apply e b = some (b', r) ∧ J.runAt b' l = some (c, js') ∧
      js = (e, r) :: js' := by
  obtain ⟨⟨b', r⟩, happly, hrest⟩ := Option.bind_eq_some_iff.mp h
  obtain ⟨⟨c', js'⟩, hrun, heq⟩ := Option.map_eq_some_iff.mp hrest
  cases heq
  exact ⟨b', r, js', happly, hrun, rfl⟩

/-- A run records its events in order. -/
theorem map_fst_of_run (h : J.run s l = some (t, js)) : js.map Prod.fst = l := by
  induction l generalizing s js with
  | nil =>
    cases h
    rfl
  | cons e l ih =>
    obtain ⟨b, r, js', _, hrun, rfl⟩ := run_cons_eq_some h
    rw [List.map_cons, ih hrun]

omit [DecidableEq κ] in
theorem map_fst_of_runAt {b b' : β} (h : J.runAt b l = some (b', js)) : js.map Prod.fst = l := by
  induction l generalizing b js with
  | nil =>
    cases h
    rfl
  | cons e l ih =>
    obtain ⟨b₁, r, js', _, hrun, rfl⟩ := runAt_cons_eq_some h
    rw [List.map_cons, ih hrun]

theorem map_fst_recordsAt (k : κ) (l : List (ε × ρ)) :
    (J.recordsAt k l).map Prod.fst = J.eventsAt k (l.map Prod.fst) := by
  simp [recordsAt, eventsAt, List.filter_map, Function.comp_def]

/-- Related records are related key by key. -/
theorem forall₂_recordsAt {R : ε × ρ → ε × ρ → Prop} (hR : ∀ j j', R j j' → j'.1 = j.1)
    {l l' : List (ε × ρ)} (h : List.Forall₂ R l l') (k : κ) :
    List.Forall₂ R (J.recordsAt k l) (J.recordsAt k l') := by
  induction h with
  | nil => exact .nil
  | cons hhead _ ih =>
    rw [recordsAt_cons, recordsAt_cons, hR _ _ hhead]
    split
    · exact .cons hhead ih
    · exact ih

/-- **A run, seen from one entry.** -/
theorem run_at (h : J.run s l = some (t, js)) (k : κ) :
    J.runAt (s k) (J.eventsAt k l) = some (t k, J.recordsAt k js) := by
  induction l generalizing s js with
  | nil =>
    cases h
    rfl
  | cons e l ih =>
    obtain ⟨b, r, js', happly, hrun, rfl⟩ := run_cons_eq_some h
    have hrest := ih hrun
    rw [eventsAt_cons, recordsAt_cons]
    by_cases hk : J.key e = k
    · subst hk
      rw [Function.update_self] at hrest
      rw [if_pos rfl, if_pos rfl, runAt, happly, Option.bind_some, hrest]
      rfl
    · rw [Function.update_of_ne (Ne.symm hk)] at hrest
      rw [if_neg hk, if_neg hk]
      exact hrest

/-- **Taking back, seen from one entry.** -/
theorem back_at (s : κ → β) (l : List (ε × ρ)) (k : κ) :
    (J.back s l).1 k = (J.backAt (s k) (J.recordsAt k l)).1 := by
  induction l with
  | nil => rfl
  | cons e l ih =>
    rw [recordsAt_cons, back]
    by_cases hk : J.key e.1 = k
    · subst hk
      rw [if_pos rfl, backAt, ← ih]
      simp
    · rw [if_neg hk, ← ih]
      simp [Function.update_of_ne (Ne.symm hk)]

/-- **What is reported**, key by key. -/
theorem back_clean_iff (s : κ → β) (l : List (ε × ρ)) :
    (J.back s l).2 = true ↔ ∀ k, (J.backAt (s k) (J.recordsAt k l)).2 = true := by
  induction l with
  | nil => simp [back, backAt, recordsAt]
  | cons e l ih =>
    have hkey : ∀ k, (J.backAt (s k) (J.recordsAt k (e :: l))).2 = true ↔
        (J.backAt (s k) (J.recordsAt k l)).2 = true ∧
          (J.key e.1 = k → (J.revert e.1 e.2 ((J.back s l).1 k)).2 = true) := by
      intro k
      rw [recordsAt_cons]
      by_cases hk : J.key e.1 = k
      · rw [if_pos hk, backAt, back_at]
        simp [hk]
      · simp [hk]
    simp only [hkey, forall_and, ← ih, back, Bool.and_eq_true, forall_eq']

/-! ## Pieces -/

theorem run_append (s : κ → β) (l l' : List ε) :
    J.run s (l ++ l') = (J.run s l).bind fun p =>
      (J.run p.1 l').map fun q => (q.1, p.2 ++ q.2) := by
  induction l generalizing s with
  | nil =>
    simp [run]
  | cons e l ih =>
    rw [List.cons_append, run, run]
    cases happly : J.apply e (s (J.key e)) with
    | none => rfl
    | some p =>
      simp only [Option.bind_some, ih]
      cases J.run (Function.update s (J.key e) p.1) l with
      | none => rfl
      | some q => simp [Function.comp_def]

theorem back_append (s : κ → β) (l l' : List (ε × ρ)) :
    J.back s (l ++ l') =
      ((J.back (J.back s l').1 l).1, (J.back s l').2 && (J.back (J.back s l').1 l).2) := by
  induction l with
  | nil => simp [back]
  | cons e l ih =>
    rw [List.cons_append, back, ih, back]
    simp [Bool.and_assoc]

/-! ## Relations and invariants -/

theorem update_forall (hs : ∀ k, P k (s k)) {a : κ} {b : β} (hb : P a b) (k : κ) :
    P k (Function.update s a b k) := by
  by_cases hk : k = a
  · subst hk
    rw [Function.update_self]
    exact hb
  · rw [Function.update_of_ne hk]
    exact hs k

theorem update_rel {s' : κ → β} (hs : ∀ k, R (s k) (s' k)) {a : κ} {b b' : β} (hb : R b b') (k : κ)
    :
    R (Function.update s a b k) (Function.update s' a b' k) := by
  by_cases hk : k = a
  · subst hk
    rw [Function.update_self, Function.update_self]
    exact hb
  · rw [Function.update_of_ne hk, Function.update_of_ne hk]
    exact hs k

/-- **Related entries, related runs.** -/
theorem run_congr (hR : ∀ e ∈ l, ∀ b b' d r, R b b' → J.apply e b = some (d, r) →
      ∃ d' r', J.apply e b' = some (d', r') ∧ R d d') {s' : κ → β} (hs : ∀ k, R (s k) (s' k))
    (h : J.run s l = some (t, js)) :
    ∃ t' js', J.run s' l = some (t', js') ∧ ∀ k, R (t k) (t' k) := by
  induction l generalizing s s' js with
  | nil =>
    cases h
    exact ⟨s', [], rfl, hs⟩
  | cons e l ih =>
    obtain ⟨b, r, js₁, happly, hrun, rfl⟩ := run_cons_eq_some h
    obtain ⟨he, hrest⟩ := List.forall_mem_cons.mp hR
    obtain ⟨b', r', happly', hb⟩ := he _ _ b r (hs (J.key e)) happly
    obtain ⟨t', js', hrun', ht⟩ := ih hrest (update_rel hs hb) hrun
    refine ⟨t', (e, r') :: js', ?_, ht⟩
    rw [run, happly', Option.bind_some, hrun']
    rfl

/-- **Related entries are taken back to related ones**, when nothing is reported for the second. -/
theorem back_congr {Q : ε × ρ → Prop}
    (hR : ∀ j b b', Q j → R b b' → (J.revert j.1 j.2 b').2 = true →
      R (J.revert j.1 j.2 b).1 (J.revert j.1 j.2 b').1) {l : List (ε × ρ)} {s' : κ → β}
    (hl : ∀ j ∈ l, Q j) (hs : ∀ k, R (s k) (s' k)) (hclean : (J.back s' l).2 = true) :
    ∀ k, R ((J.back s l).1 k) ((J.back s' l).1 k) := by
  induction l with
  | nil => exact hs
  | cons j l ih =>
    rw [back, Bool.and_eq_true] at hclean
    obtain ⟨hj, hrest⟩ := List.forall_mem_cons.mp hl
    have hbefore := ih hrest hclean.1
    exact update_rel hbefore (hR j _ _ hj (hbefore _) hclean.2)

/-- **What events keep holds after a run**, and held of every entry that a record was made of. -/
theorem run_forall
    (hP : ∀ e ∈ l, ∀ b d r, P (J.key e) b → J.apply e b = some (d, r) → P (J.key e) d)
    (hs : ∀ k, P k (s k)) (h : J.run s l = some (t, js)) :
    (∀ k, P k (t k)) ∧ ∀ j ∈ js, ∃ b d, P (J.key j.1) b ∧ J.apply j.1 b = some (d, j.2) := by
  induction l generalizing s js with
  | nil =>
    cases h
    exact ⟨hs, by simp⟩
  | cons e l ih =>
    obtain ⟨b, r, js', happly, hrun, rfl⟩ := run_cons_eq_some h
    obtain ⟨he, hrest⟩ := List.forall_mem_cons.mp hP
    obtain ⟨ht, hjs⟩ := ih hrest
      (update_forall hs (he _ b r (hs _) happly)) hrun
    refine ⟨ht, fun j hj => ?_⟩
    rcases List.mem_cons.mp hj with rfl | hj
    · exact ⟨s (J.key e), b, hs _, happly⟩
    · exact hjs j hj

theorem back_forall (hP : ∀ e r b, P (J.key e) b → P (J.key e) (J.revert e r b).1)
    {l : List (ε × ρ)} (hs : ∀ k, P k (s k)) : ∀ k, P k ((J.back s l).1 k) := by
  induction l with
  | nil => exact hs
  | cons j l ih => exact update_forall ih (hP j.1 j.2 _ (ih _))

end Journal
