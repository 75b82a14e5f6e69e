import Mathlib.Algebra.BigOperators.Group.List.Basic
import Mathlib.Algebra.Order.Ring.Int
import Mathlib.Data.List.Induction
import Mathlib.Data.List.Nodup

/-!
# Ordered maps whose values know their key

A `std::map` as the list of its values in the order of their keys.  The order is a field of the
structure, so a map is determined by its lookups.

* `find?_assign`, `find?_modify`: lookups after a change;
* `ext_find?`: two maps with the same lookups are equal;
* `Kept`, `Grown`: maps that differ key by key;
* `find?_assignAll_entries`: lookups after the values of another map were assigned.
-/

/-- The values of a map in the order of their keys. -/
structure OrderedMap {κ α : Type} [LT κ] (key : α → κ) where
  entries : List α
  sorted : entries.Pairwise fun a b => key a < key b

namespace OrderedMap

variable {κ α : Type} [LT κ] {key : α → κ}

instance : EmptyCollection (OrderedMap key) := ⟨⟨[], .nil⟩⟩

instance [DecidableEq α] : DecidableEq (OrderedMap key) := fun m m' =>
  decidable_of_iff (m.entries = m'.entries) (by cases m; cases m'; simp)

instance [Repr α] : Repr (OrderedMap key) := ⟨fun m n => reprPrec m.entries n⟩

/-- Those values that satisfy `p`. -/
def filter (p : α → Bool) (m : OrderedMap key) : OrderedMap key :=
  ⟨m.entries.filter p, m.sorted.filter _⟩

variable {b : α}

section Distinct

variable [Std.Irrefl (α := κ) (· < ·)]

theorem nodup_keys (m : OrderedMap key) : (m.entries.map key).Nodup := by
  rw [List.Nodup, List.pairwise_map]
  exact m.sorted.imp fun {a b} hab heq => by
    rw [heq] at hab
    exact Std.lt_irrefl hab

/-- Values with one key are one. -/
theorem eq_of_key_eq {m : OrderedMap key} {a : α} (ha : a ∈ m.entries) (hb : b ∈ m.entries)
    (h : key a = key b) : a = b :=
  List.inj_on_of_nodup_map m.nodup_keys ha hb h

theorem nodup_entries (m : OrderedMap key) : m.entries.Nodup :=
  List.Pairwise.of_map key (fun _ _ hne heq => hne (congrArg key heq)) m.nodup_keys

end Distinct

/-! ## Lookups -/

variable {p : α → Bool}

section Lookups

variable [DecidableEq κ] {m : OrderedMap key} {k : κ} {a : α}

/-- `m.find(k)` -/
def find? (k : κ) (m : OrderedMap key) : Option α := m.entries.find? fun a => key a = k

/-- `m.count(k) > 0` -/
def contains (k : κ) (m : OrderedMap key) : Bool := (m.find? k).isSome

/-- `m.erase(k)` -/
def erase (k : κ) (m : OrderedMap key) : OrderedMap key :=
  ⟨m.entries.filter fun a => key a ≠ k, m.sorted.filter _⟩

theorem find?_eq_none_iff :
    m.find? k = none ↔ ∀ a ∈ m.entries, key a ≠ k := by
  simp [find?, List.find?_eq_none]

theorem key_of_find? (h : m.find? k = some a) : key a = k := by
  simpa using List.find?_some h

theorem key_of_filter_find? (h : (m.find? k).filter p = some a) : key a = k :=
  key_of_find? (Option.filter_eq_some_iff.mp h).1

@[simp] theorem find?_empty (k : κ) : (∅ : OrderedMap key).find? k = none := rfl

theorem entries_erase_of_none (h : m.find? k = none) :
    (m.erase k).entries = m.entries :=
  List.filter_eq_self.mpr fun a ha => by simpa using find?_eq_none_iff.mp h a ha

theorem find?_erase (k k' : κ) (m : OrderedMap key) :
    (m.erase k').find? k = if k = k' then none else m.find? k := by
  split
  · next heq =>
    rw [find?_eq_none_iff, heq]
    exact fun a ha => by simpa using (List.mem_filter.mp ha).2
  · next hne =>
    rw [find?, erase, List.find?_filter, find?]
    congr 1
    funext a
    by_cases ha : key a = k
    · simp [ha, hne]
    · simp [ha]

/-! ### Values that are related key by key -/

/-- Both maps have the same keys, with related values. -/
def Kept (R : α → α → Prop) (m m' : OrderedMap key) : Prop :=
  ∀ k, Option.Rel R (m.find? k) (m'.find? k)

variable {R : α → α → Prop} {m' : OrderedMap key}

theorem Kept.refl (hR : ∀ a, R a a) (m : OrderedMap key) : Kept R m m := by
  intro k
  cases m.find? k with
  | none => exact .none
  | some a => exact .some (hR a)

theorem rel_trans {R' S : α → α → Prop} (hS : ∀ a b c, R a b → R' b c → S a c) {u v w : Option α}
    (h : Option.Rel R u v) (h' : Option.Rel R' v w) : Option.Rel S u w := by
  cases h with
  | none =>
    cases h'
    exact .none
  | some hab =>
    cases h' with
    | some hbc => exact .some (hS _ _ _ hab hbc)

theorem Kept.trans {R' S : α → α → Prop} {m₁ m₂ m₃ : OrderedMap key} (h : Kept R m₁ m₂)
    (h' : Kept R' m₂ m₃) (hS : ∀ a b c, R a b → R' b c → S a c) : Kept S m₁ m₃ :=
  fun k => rel_trans hS (h k) (h' k)

theorem Kept.exists_right (h : Kept R m m') (ha : m.find? k = some a) :
    ∃ b, m'.find? k = some b ∧ R a b := by
  have hk := h k
  rw [ha] at hk
  cases hb : m'.find? k with
  | none =>
    rw [hb] at hk
    cases hk
  | some b =>
    rw [hb] at hk
    cases hk with
    | some hab => exact ⟨b, rfl, hab⟩

theorem Kept.exists_left (h : Kept R m m') (hb : m'.find? k = some b) :
    ∃ a, m.find? k = some a ∧ R a b := by
  have hk := h k
  rw [hb] at hk
  cases ha : m.find? k with
  | none =>
    rw [ha] at hk
    cases hk
  | some a =>
    rw [ha] at hk
    cases hk with
    | some hab => exact ⟨a, rfl, hab⟩

theorem rel_map_right {f : α → α} (hR : ∀ a b, R a b → R a (f b)) {u v : Option α}
    (h : Option.Rel R u v) : Option.Rel R u (v.map f) := by
  cases h with
  | none => exact .none
  | some hab => exact .some (hR _ _ hab)

theorem rel_map {f : α → α} {u v : Option α} (h : v = u.map f) :
    Option.Rel (fun a b => b = f a) u v := by
  subst h
  cases u with
  | none => exact .none
  | some a => exact .some rfl

/-! ### Maps that grow -/

/-- A value that is kept up to `R`, added, or replaced; only what is new is added, or replaces and
is replaced. -/
inductive GrownTo (new : α → Prop) (R : α → α → Prop) : Option α → Option α → Prop
  | none : GrownTo new R none none
  | kept {a b : α} : R a b → GrownTo new R (some a) (some b)
  | added {b : α} : new b → GrownTo new R none (some b)
  | replaced {a b : α} : new a → new b → GrownTo new R (some a) (some b)

def Grown (new : α → Prop) (R : α → α → Prop) (m m' : OrderedMap key) : Prop :=
  ∀ k, GrownTo new R (m.find? k) (m'.find? k)

variable {new : α → Prop} {m₁ m₂ m₃ : OrderedMap key}

theorem Grown.of_kept (h : Kept R m₁ m₂) : Grown new R m₁ m₂ := by
  intro k
  have hk := h k
  generalize m₁.find? k = u at hk ⊢
  generalize m₂.find? k = v at hk ⊢
  cases hk with
  | none => exact .none
  | some hab => exact .kept hab

theorem Grown.refl (hR : ∀ a, R a a) (m : OrderedMap key) : Grown new R m m :=
  .of_kept (.refl hR m)

theorem Grown.trans (h : Grown new R m₁ m₂) (h' : Grown new R m₂ m₃)
    (hR : ∀ a b c, R a b → R b c → R a c) (hnew : ∀ a b, R a b → (new a ↔ new b)) :
    Grown new R m₁ m₃ := by
  intro k
  have hk := h k
  have hk' := h' k
  generalize m₁.find? k = u at hk ⊢
  generalize m₂.find? k = v at hk hk'
  generalize m₃.find? k = w at hk' ⊢
  cases hk with
  | none => exact hk'
  | kept hab =>
    cases hk' with
    | kept hbc => exact .kept (hR _ _ _ hab hbc)
    | replaced hb hc => exact .replaced ((hnew _ _ hab).mpr hb) hc
  | added hb =>
    cases hk' with
    | kept hbc => exact .added ((hnew _ _ hbc).mp hb)
    | replaced _ hc => exact .added hc
  | replaced ha hb =>
    cases hk' with
    | kept hbc => exact .replaced ha ((hnew _ _ hbc).mp hb)
    | replaced _ hc => exact .replaced ha hc

/-- Where a value comes from. -/
theorem Grown.exists_left (h : Grown new R m₁ m₂) (hb : m₂.find? k = some b) :
    new b ∨ ∃ a, m₁.find? k = some a ∧ R a b := by
  have hk := h k
  rw [hb] at hk
  generalize m₁.find? k = u at hk ⊢
  cases hk with
  | kept hab => exact .inr ⟨_, rfl, hab⟩
  | added hnew => exact .inl hnew
  | replaced _ hnew => exact .inl hnew

/-- What becomes of a value. -/
theorem Grown.exists_right (h : Grown new R m₁ m₂) (ha : m₁.find? k = some a) :
    ∃ b, m₂.find? k = some b ∧ (R a b ∨ new a ∧ new b) := by
  have hk := h k
  rw [ha] at hk
  generalize m₂.find? k = v at hk ⊢
  cases hk with
  | kept hab => exact ⟨_, rfl, .inl hab⟩
  | replaced hnew hnew' => exact ⟨_, rfl, .inr ⟨hnew, hnew'⟩⟩

variable [Std.Irrefl (α := κ) (· < ·)]

theorem find?_eq_some_iff :
    m.find? k = some a ↔ a ∈ m.entries ∧ key a = k := by
  constructor
  · intro h
    exact ⟨List.mem_of_find?_eq_some h, by simpa using List.find?_some h⟩
  · rintro ⟨hmem, rfl⟩
    cases hfind : m.find? (key a) with
    | none =>
      have hnone := List.find?_eq_none.mp hfind a hmem
      simp at hnone
    | some b =>
      have hkey : key b = key a := by simpa using List.find?_some hfind
      rw [eq_of_key_eq (List.mem_of_find?_eq_some hfind) hmem hkey]

theorem find?_filter (p : α → Bool) (k : κ) (m : OrderedMap key) :
    (m.filter p).find? k = (m.find? k).filter p := by
  apply Option.ext
  intro a
  rw [find?_eq_some_iff, Option.filter_eq_some_iff, find?_eq_some_iff]
  show a ∈ m.entries.filter p ∧ key a = k ↔ (a ∈ m.entries ∧ key a = k) ∧ p a = true
  rw [List.mem_filter]
  exact and_right_comm

variable [Trans (α := κ) (· < ·) (· < ·) (· < ·)]

/-- Two maps with the same lookups are equal. -/
theorem ext_find? (h : ∀ k, m.find? k = m'.find? k) : m = m' := by
  have hmem : ∀ a, a ∈ m.entries ↔ a ∈ m'.entries := by
    intro a
    have hk := find?_eq_some_iff (m := m) (k := key a) (a := a)
    rw [h, find?_eq_some_iff] at hk
    simpa using hk.symm
  have hasymm : ∀ a b : α, key a < key b → key b < key a → a = b := fun a b hab hba =>
    absurd (Std.lt_trans hab hba) Std.lt_irrefl
  have hperm : m.entries.Perm m'.entries :=
    (List.perm_ext_iff_of_nodup m.nodup_entries m'.nodup_entries).mpr hmem
  have hentries : m.entries = m'.entries :=
    hperm.eq_of_pairwise (fun a b _ _ => hasymm a b) m.sorted m'.sorted
  cases m
  cases hentries
  rfl

theorem eq_empty_of_entries (h : m.entries = []) : m = ∅ := by
  apply ext_find?
  intro k
  rw [find?, h]
  rfl

end Lookups

/-! ## Assignments -/

variable {l : List α}

section Order

variable [DecidableLT κ] [DecidableEq κ]

/-- Put a value in its place, where it replaces one with the same key. -/
def insertEntry (key : α → κ) (a : α) : List α → List α
  | [] => [a]
  | b :: l =>
    if key a < key b then a :: b :: l
    else if key a = key b then a :: l
    else b :: insertEntry key a l

theorem mem_insertEntry {a : α} (h : b ∈ insertEntry key a l) : b = a ∨ b ∈ l := by
  induction l with
  | nil => exact .inl (List.mem_singleton.mp h)
  | cons c l ih =>
    unfold insertEntry at h
    split at h
    · exact List.mem_cons.mp h
    · split at h
      · rcases List.mem_cons.mp h with h | h
        · exact .inl h
        · exact .inr (List.mem_cons_of_mem _ h)
      · rcases List.mem_cons.mp h with h | h
        · exact .inr (List.mem_cons.mpr (.inl h))
        · exact (ih h).imp_right (List.mem_cons_of_mem _)

theorem mem_insertEntry_self (a : α) (l : List α) : a ∈ insertEntry key a l := by
  induction l with
  | nil => exact List.mem_singleton_self a
  | cons c l ih =>
    unfold insertEntry
    split
    · exact List.mem_cons_self
    · split
      · exact List.mem_cons_self
      · exact List.mem_cons_of_mem _ ih

theorem mem_insertEntry_of_ne {a : α} (h : b ∈ l) (hne : key b ≠ key a) :
    b ∈ insertEntry key a l := by
  induction l with
  | nil => cases h
  | cons c l ih =>
    unfold insertEntry
    split
    · exact List.mem_cons_of_mem _ h
    · split
      · next heq =>
        rcases List.mem_cons.mp h with rfl | h
        · exact absurd heq.symm hne
        · exact List.mem_cons_of_mem _ h
      · rcases List.mem_cons.mp h with rfl | h
        · exact List.mem_cons_self
        · exact List.mem_cons_of_mem _ (ih h)

variable [Std.Trichotomous (α := κ) (· < ·)] [Trans (α := κ) (· < ·) (· < ·) (· < ·)]
  {m : OrderedMap key} {k : κ} {a : α} {f : α → α}

theorem sorted_insertEntry (a : α) (h : l.Pairwise fun a b => key a < key b) :
    (insertEntry key a l).Pairwise fun a b => key a < key b := by
  induction l with
  | nil => exact List.pairwise_singleton _ _
  | cons b l ih =>
    obtain ⟨hb, hl⟩ := List.pairwise_cons.mp h
    unfold insertEntry
    split
    · next hlt =>
      refine List.pairwise_cons.mpr ⟨?_, h⟩
      intro c hc
      rcases List.mem_cons.mp hc with rfl | hc
      · exact hlt
      · exact Std.lt_trans hlt (hb c hc)
    · next hge =>
      split
      · next heq =>
        refine List.pairwise_cons.mpr ⟨?_, hl⟩
        intro c hc
        rw [heq]
        exact hb c hc
      · next hne =>
        refine List.pairwise_cons.mpr ⟨?_, ih hl⟩
        intro c hc
        rcases mem_insertEntry hc with rfl | hc
        · exact ((Std.lt_trichotomy (key c) (key b)).resolve_left hge).resolve_left hne
        · exact hb c hc

/-- `m[key a] = a` -/
def assign (a : α) (m : OrderedMap key) : OrderedMap key :=
  ⟨insertEntry key a m.entries, sorted_insertEntry a m.sorted⟩

/-- A list of assignments, from the first to the last. -/
def assignAll (l : List α) (m : OrderedMap key) : OrderedMap key :=
  l.foldl (fun m a => m.assign a) m

/-- Change the value of a key, if there is one. -/
def modify (k : κ) (f : α → α) (m : OrderedMap key) : OrderedMap key :=
  match m.find? k with
  | none => m
  | some a => m.assign (f a)

theorem modify_congr {g : α → α} (h : ∀ a, m.find? k = some a → f a = g a) :
    m.modify k f = m.modify k g := by
  unfold modify
  split
  · rfl
  · next a ha => rw [h a ha]

theorem filter_assign_of_neg (m : OrderedMap key) (ha : p a = false)
    (hold : ∀ b ∈ m.entries, key b = key a → p b = false) :
    (m.assign a).entries.filter p = m.entries.filter p := by
  obtain ⟨l, hsorted⟩ := m
  show (insertEntry key a l).filter p = l.filter p
  induction l with
  | nil => simp [insertEntry, ha]
  | cons b l ih =>
    unfold insertEntry
    split
    · simp [ha]
    · split
      · next heq => simp [ha, hold b List.mem_cons_self heq.symm]
      · have ih := ih (List.pairwise_cons.mp hsorted).2 fun c hc =>
          hold c (List.mem_cons_of_mem _ hc)
        rw [List.filter_cons, List.filter_cons, ih]

/-- A value that comes after all others of a kind is the last of them. -/
theorem getLast?_filter_assign (m : OrderedMap key) (ha : p a = true)
    (hlast : ∀ b ∈ m.entries, p b = true → ¬ key a < key b) :
    ((m.assign a).entries.filter p).getLast? = some a := by
  obtain ⟨l, hsorted⟩ := m
  show ((insertEntry key a l).filter p).getLast? = some a
  induction l with
  | nil => simp [insertEntry, ha]
  | cons b l ih =>
    obtain ⟨hb, hl⟩ := List.pairwise_cons.mp hsorted
    unfold insertEntry
    split
    · next hlt =>
      have hnone : (b :: l).filter p = [] := by
        refine List.filter_eq_nil_iff.mpr fun c hc hpc => hlast c hc hpc ?_
        rcases List.mem_cons.mp hc with rfl | hc
        · exact hlt
        · exact Std.lt_trans hlt (hb c hc)
      simp [List.filter_cons_of_pos ha, hnone]
    · split
      · next heq =>
        have hnone : l.filter p = [] := by
          refine List.filter_eq_nil_iff.mpr fun c hc hpc => ?_
          exact hlast c (List.mem_cons_of_mem _ hc) hpc (heq ▸ hb c hc)
        simp [List.filter_cons_of_pos ha, hnone]
      · have ih := ih hl fun c hc => hlast c (List.mem_cons_of_mem _ hc)
        rw [List.filter_cons]
        split
        · rw [List.getLast?_cons, ih]
          rfl
        · exact ih

variable [Std.Irrefl (α := κ) (· < ·)]

theorem mem_assign : b ∈ (m.assign a).entries ↔ b = a ∨ b ∈ m.entries ∧ key b ≠ key a := by
  have hself : a ∈ (m.assign a).entries := mem_insertEntry_self a m.entries
  constructor
  · intro h
    by_cases hkey : key b = key a
    · exact .inl (eq_of_key_eq h hself hkey)
    · exact (mem_insertEntry h).imp_right fun hb => ⟨hb, hkey⟩
  · rintro (rfl | ⟨hb, hne⟩)
    · exact hself
    · exact mem_insertEntry_of_ne hb hne

@[simp] theorem find?_assign_self (a : α) (m : OrderedMap key) :
    (m.assign a).find? (key a) = some a :=
  find?_eq_some_iff.mpr ⟨mem_assign.mpr (.inl rfl), rfl⟩

theorem find?_assign_of_ne (m : OrderedMap key) (h : k ≠ key a) :
    (m.assign a).find? k = m.find? k := by
  apply Option.ext
  intro b
  rw [find?_eq_some_iff, find?_eq_some_iff, mem_assign]
  constructor
  · rintro ⟨rfl | ⟨hmem, _⟩, rfl⟩
    · exact absurd rfl h
    · exact ⟨hmem, rfl⟩
  · rintro ⟨hmem, rfl⟩
    exact ⟨.inr ⟨hmem, h⟩, rfl⟩

theorem find?_assign (a : α) (k : κ) (m : OrderedMap key) :
    (m.assign a).find? k = if k = key a then some a else m.find? k := by
  split
  · next h => rw [h, find?_assign_self]
  · next h => exact find?_assign_of_ne m h

/-- A change that keeps the key is seen under that key only. -/
theorem find?_modify (hf : ∀ a, key (f a) = key a) (k k' : κ) (m : OrderedMap key) :
    (m.modify k' f).find? k = if k = k' then (m.find? k').map f else m.find? k := by
  unfold modify
  split
  · next hnone =>
    split
    · next h => rw [h, hnone]; rfl
    · rfl
  · next a hsome =>
    have hkey : key (f a) = k' := (hf a).trans (key_of_find? hsome)
    rw [find?_assign, hkey, hsome]
    rfl

/-- Assigning what is there changes nothing. -/
theorem assign_of_find? (h : m.find? k = some a) :
    m.assign a = m := by
  refine ext_find? fun k' => ?_
  rw [find?_assign]
  split
  · next heq =>
    rw [heq, key_of_find? h]
    exact h.symm
  · rfl

/-- Two changes of one value. -/
theorem modify_modify {g : α → α} (hf : ∀ a, key (f a) = key a) (hg : ∀ a, key (g a) = key a) :
    (m.modify k f).modify k g = m.modify k fun a => g (f a) := by
  refine ext_find? fun k' => ?_
  rw [find?_modify hg, find?_modify hf, find?_modify hf,
    find?_modify fun a => (hg (f a)).trans (hf a), if_pos rfl, Option.map_map]
  split <;> rfl

/-- A change to what is there already. -/
theorem modify_eq_self (h : ∀ a, m.find? k = some a → f a = a) : m.modify k f = m := by
  unfold modify
  split
  · rfl
  · next a ha =>
    rw [h a ha]
    exact assign_of_find? ha

/-- A change in place. -/
theorem entries_modify (hf : ∀ a, key (f a) = key a) (k : κ) (m : OrderedMap key) :
    (m.modify k f).entries = m.entries.map fun a => if key a = k then f a else a := by
  have hkey : ∀ a, key (if key a = k then f a else a) = key a := by
    intro a
    split
    · exact hf a
    · rfl
  have hsorted : (m.entries.map fun a => if key a = k then f a else a).Pairwise
      fun a b => key a < key b := by
    rw [List.pairwise_map]
    exact m.sorted.imp fun {a b} hab => by rwa [hkey a, hkey b]
  have hmap : m.modify k f = ⟨_, hsorted⟩ := by
    refine ext_find? fun k' => ?_
    rw [find?_modify hf]
    unfold find?
    rw [List.find?_map]
    have hpred : ((fun a => decide (key a = k')) ∘ fun a => if key a = k then f a else a) =
        fun a => decide (key a = k') := funext fun a => by simp only [Function.comp, hkey a]
    rw [hpred]
    split
    · next h =>
      subst h
      exact Option.map_congr fun a ha => (if_pos (by simpa using List.find?_some ha)).symm
    · next h =>
      cases hfind : m.entries.find? fun a => decide (key a = k') with
      | none => rfl
      | some a =>
        have ha : key a = k' := by simpa using List.find?_some hfind
        rw [Option.map_some, if_neg (by rw [ha]; exact h)]
  rw [hmap]

theorem Kept.modify {R : α → α → Prop} {m' : OrderedMap key} (h : Kept R m m')
    (hf : ∀ a, key (f a) = key a) (hR : ∀ a b, R a b → R a (f b)) (k : κ) :
    Kept R m (m'.modify k f) := by
  intro k'
  rw [find?_modify hf]
  split
  · next heq =>
    subst heq
    exact rel_map_right hR (h k')
  · exact h k'

theorem Grown.assign {R : α → α → Prop} {new : α → Prop} (hR : ∀ a, R a a) (m : OrderedMap key)
    (hb : new b) (hold : ∀ a, m.find? (key b) = some a → new a) : Grown new R m (m.assign b) := by
  intro k
  rw [find?_assign]
  split
  · next heq =>
    subst heq
    cases ha : m.find? (key b) with
    | none => exact .added hb
    | some a => exact .replaced (hold a ha) hb
  · cases m.find? k with
    | none => exact .none
    | some a => exact .kept (hR a)

/-- The value that was assigned, and those of other keys. -/
theorem perm_assign (a : α) (m : OrderedMap key) :
    (m.assign a).entries.Perm (a :: (m.erase (key a)).entries) := by
  have hnew : a ∉ (m.erase (key a)).entries := by simp [erase]
  refine (List.perm_ext_iff_of_nodup (nodup_entries _)
    (List.nodup_cons.mpr ⟨hnew, nodup_entries _⟩)).mpr fun b => ?_
  rw [mem_assign]
  simp [erase]

theorem perm_of_find? (h : m.find? k = some a) :
    m.entries.Perm (a :: (m.erase k).entries) := by
  have hperm := perm_assign a m
  rwa [assign_of_find? h, key_of_find? h] at hperm

/-- A change that the summand does not see. -/
theorem sum_modify_of_eq {f : α → Int} {g : α → α} (hg : ∀ a, key (g a) = key a)
    (hf : ∀ a, f (g a) = f a) (k : κ) (m : OrderedMap key) :
    ((m.modify k g).entries.map f).sum = (m.entries.map f).sum := by
  rw [entries_modify hg, List.map_map]
  congr 1
  refine List.map_congr_left fun a _ => ?_
  show f (if key a = k then g a else a) = f a
  split
  · exact hf a
  · rfl

/-! ### Lists of assignments -/

/-- A key that is not assigned keeps its value. -/
theorem find?_assignAll_of_not_mem (m : OrderedMap key) (h : ∀ a ∈ l, key a ≠ k) :
    (m.assignAll l).find? k = m.find? k := by
  induction l generalizing m with
  | nil => rfl
  | cons a l ih =>
    have hrest := ih (m.assign a) fun b hb => h b (List.mem_cons_of_mem _ hb)
    exact hrest.trans (find?_assign_of_ne m (h a List.mem_cons_self).symm)

/-- The entries after assignments of different keys to an empty map. -/
theorem mem_assignAll_empty (hl : (l.map key).Nodup) :
    b ∈ ((∅ : OrderedMap key).assignAll l).entries ↔ b ∈ l := by
  induction l using List.reverseRecOn with
  | nil => rfl
  | append_singleton l a ih =>
    rw [List.map_append, List.nodup_append] at hl
    have hne : b ∈ l → key b ≠ key a := fun hb =>
      hl.2.2 (key b) (List.mem_map_of_mem hb) (key a) List.mem_cons_self
    rw [assignAll, List.foldl_append, List.mem_append, List.mem_singleton, ← ih hl.1, or_comm]
    refine mem_assign.trans (or_congr_right (and_iff_left_of_imp fun hb => hne ?_))
    exact (ih hl.1).mp hb

/-- Where a whole map is assigned, its values win. -/
theorem find?_assignAll_entries (u m : OrderedMap key) (k : κ) :
    (m.assignAll u.entries).find? k = (u.find? k).or (m.find? k) := by
  have hlist : ∀ (l : List α) (m : OrderedMap key),
      l.Pairwise (fun a b => key a < key b) →
      (m.assignAll l).find? k = ((l.find? fun a => key a = k)).or (m.find? k) := by
    intro l
    induction l with
    | nil =>
      intro m _
      rfl
    | cons a l ih =>
      intro m hsorted
      obtain ⟨ha, hl⟩ := List.pairwise_cons.mp hsorted
      show ((m.assign a).assignAll l).find? k = _
      by_cases hk : key a = k
      · subst hk
        have hother : ∀ b ∈ l, key b ≠ key a := by
          intro b hb heq
          have hlt := ha b hb
          rw [heq] at hlt
          exact Std.lt_irrefl hlt
        rw [find?_assignAll_of_not_mem _ hother]
        simp
      · rw [ih _ hl, find?_assign_of_ne m (Ne.symm hk), List.find?_cons_of_neg (by simpa using hk)]
  exact hlist u.entries m u.sorted

end Order

end OrderedMap
