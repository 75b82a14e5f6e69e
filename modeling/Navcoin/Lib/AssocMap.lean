import Navcoin.Lib.OrderedMap

/-!
# Ordered association lists

`std::map` as a list of pairs in key order, for maps that a program iterates over.
Assignment removes the old entry and inserts the new one in its place, so the
membership lemmas hold without an ordering invariant.
-/

namespace AssocMap

variable {κ ν : Type} [DecidableEq κ]

/-- Insert a pair before the first larger key. -/
def insertOrdered [LT κ] [DecidableLT κ] (k : κ) (v : ν) : List (κ × ν) → List (κ × ν)
  | [] => [(k, v)]
  | e :: l => if k < e.1 then (k, v) :: e :: l else e :: insertOrdered k v l

/-- `m.erase(k)` -/
def erase (k : κ) (m : List (κ × ν)) : List (κ × ν) := m.filter fun e => e.1 ≠ k

/-- `m[k] = v` -/
def assign [LT κ] [DecidableLT κ] (k : κ) (v : ν) (m : List (κ × ν)) : List (κ × ν) :=
  insertOrdered k v (erase k m)

/-- `m.count(k) > 0` -/
def contains (k : κ) (m : List (κ × ν)) : Bool := m.any fun e => e.1 = k

/-- `m.find(k)` -/
def find? (k : κ) (m : List (κ × ν)) : Option ν := (m.find? fun e => e.1 = k).map Prod.snd

theorem isSome_find? (k : κ) (m : List (κ × ν)) : (find? k m).isSome = contains k m := by
  rw [Bool.eq_iff_iff, find?, Option.isSome_map, List.find?_isSome, contains, List.any_eq_true]

@[simp] theorem mem_erase (k : κ) (m : List (κ × ν)) (e : κ × ν) :
    e ∈ erase k m ↔ e ∈ m ∧ e.1 ≠ k := by
  simp [erase]

theorem erase_erase (k : κ) (m : List (κ × ν)) : erase k (erase k m) = erase k m := by
  simp [erase]

theorem find?_erase (k k' : κ) (m : List (κ × ν)) :
    find? k (erase k' m) = if k = k' then none else find? k m := by
  unfold find? erase
  rw [List.find?_filter]
  split
  · next heq =>
    subst heq
    simp
  · next hne =>
    congr 2
    funext e
    by_cases he : e.1 = k
    · simp [he, hne]
    · simp [he]

variable {m : List (κ × ν)}

section Order

variable [LT κ] [DecidableLT κ]

@[simp] theorem mem_insertOrdered (k : κ) (v : ν) (m : List (κ × ν)) (e : κ × ν) :
    e ∈ insertOrdered k v m ↔ e = (k, v) ∨ e ∈ m := by
  induction m with
  | nil => simp [insertOrdered]
  | cons a l ih =>
    unfold insertOrdered
    split
    · simp
    · simp only [List.mem_cons, ih]
      tauto

@[simp] theorem mem_assign (k : κ) (v : ν) (m : List (κ × ν)) (e : κ × ν) :
    e ∈ assign k v m ↔ e = (k, v) ∨ e ∈ m ∧ e.1 ≠ k := by
  simp [assign]

theorem erase_insertOrdered (k : κ) (v : ν) (m : List (κ × ν)) :
    erase k (insertOrdered k v m) = erase k m := by
  induction m with
  | nil => simp [insertOrdered, erase]
  | cons a l ih =>
    unfold insertOrdered
    split
    · simp [erase]
    · simp only [erase, List.filter_cons] at ih ⊢
      rw [ih]

/-- A later assignment to the same key replaces an earlier one. -/
theorem assign_assign (k : κ) (v w : ν) (m : List (κ × ν)) :
    assign k w (assign k v m) = assign k w m := by
  rw [assign, assign, erase_insertOrdered, erase_erase, assign]

theorem find?_insertOrdered {k : κ} (v : ν) (hk : ∀ e ∈ m, e.1 ≠ k)
    (k' : κ) : find? k' (insertOrdered k v m) = if k' = k then some v else find? k' m := by
  induction m with
  | nil =>
    by_cases h : k' = k
    · simp [insertOrdered, find?, h]
    · simp [insertOrdered, find?, h, Ne.symm h]
  | cons e l ih =>
    unfold insertOrdered
    split
    · by_cases h : k' = k
      · simp [find?, h]
      · simp [find?, List.find?_cons, h, Ne.symm h]
    · have ih := ih fun e he => hk e (List.mem_cons_of_mem _ he)
      by_cases he : e.1 = k'
      · subst he
        simp [find?, hk e List.mem_cons_self]
      · simpa [find?, List.find?_cons, he] using ih

theorem find?_assign (k k' : κ) (v : ν) (m : List (κ × ν)) :
    find? k (assign k' v m) = if k = k' then some v else find? k m := by
  rw [assign, find?_insertOrdered v fun e he => ((mem_erase k' m e).mp he).2, find?_erase]
  split <;> rfl

theorem assign_ne_nil (k : κ) (v : ν) (m : List (κ × ν)) : assign k v m ≠ [] := by
  intro h
  have hmem : (k, v) ∈ assign k v m := (mem_assign k v m (k, v)).mpr (.inl rfl)
  rw [h] at hmem
  cases hmem

end Order

/-! ## In key order -/

variable [LT κ]

/-- The pairs stand in the order of their keys. -/
def Sorted (m : List (κ × ν)) : Prop := m.Pairwise fun a b => a.1 < b.1

theorem sorted_erase (h : Sorted m) (k : κ) : Sorted (erase k m) :=
  h.filter _

variable [Trans (α := κ) (· < ·) (· < ·) (· < ·)]

/-- Two maps with the same lookups are equal. -/
theorem eq_of_find? [Std.Irrefl (α := κ) (· < ·)] {m' : List (κ × ν)} (hm : Sorted m)
    (hm' : Sorted m') (h : ∀ k, find? k m = find? k m') : m = m' := by
  have hpair : ∀ {l : List (κ × ν)} {k : κ},
      l.find? (fun e => e.1 = k) = (find? k l).map fun v => (k, v) := by
    intro l k
    unfold find?
    cases hl : l.find? fun e => e.1 = k with
    | none => rfl
    | some e =>
      have hkey := List.find?_some hl
      simp only [decide_eq_true_eq] at hkey
      simp [← hkey]
  have heq : (⟨m, hm⟩ : OrderedMap (Prod.fst : κ × ν → κ)) = ⟨m', hm'⟩ := by
    refine OrderedMap.ext_find? fun k => ?_
    unfold OrderedMap.find?
    rw [hpair, hpair, h k]
  exact congrArg OrderedMap.entries heq

variable [DecidableLT κ] [Std.Trichotomous (α := κ) (· < ·)]

theorem sorted_insertOrdered {k : κ} (v : ν) (h : Sorted m) (hk : ∀ e ∈ m, e.1 ≠ k) :
    Sorted (insertOrdered k v m) := by
  induction m with
  | nil => exact List.pairwise_singleton _ _
  | cons e l ih =>
    obtain ⟨he, hl⟩ := List.pairwise_cons.mp h
    unfold insertOrdered
    split
    · next hlt =>
      refine List.pairwise_cons.mpr ⟨fun a ha => ?_, h⟩
      rcases List.mem_cons.mp ha with rfl | ha
      · exact hlt
      · exact Std.lt_trans hlt (he a ha)
    · next hge =>
      refine List.pairwise_cons.mpr ⟨fun a ha => ?_,
        ih hl fun e he => hk e (List.mem_cons_of_mem _ he)⟩
      rcases (mem_insertOrdered k v l a).mp ha with rfl | ha
      · exact ((Std.lt_trichotomy k e.1).resolve_left hge).resolve_left
          (Ne.symm (hk e List.mem_cons_self))
      · exact he a ha

theorem sorted_assign (h : Sorted m) (k : κ) (v : ν) : Sorted (assign k v m) :=
  sorted_insertOrdered v (sorted_erase h k) fun e he => ((mem_erase k m e).mp he).2

end AssocMap
