import Mathlib.Data.List.Perm.Subperm
import Mathlib.Logic.Relation
import Navcoin.Lib.OrderedMap

/-!
# Sets of keys, and what is reached from them

A set of keys in their order, and the loop that takes a key from a stage, marks it as seen and
stages its successors that were not seen yet.

* `Frontier`: the invariant of the loop;
* `Frontier.round`: one round keeps it;
* `mem_walk`: enough rounds see exactly what can be reached.
-/

/-- A `std::set` of keys. -/
abbrev KeySet (κ : Type) [LT κ] := OrderedMap (id : κ → κ)

namespace KeySet

section

variable {κ : Type} [LT κ]

/-! ## Members -/

theorem not_mem_empty (k : κ) : k ∉ (∅ : KeySet κ).entries := List.not_mem_nil

theorem mem_erase [DecidableEq κ] {s : KeySet κ} {a b : κ} :
    b ∈ (s.erase a).entries ↔ b ∈ s.entries ∧ b ≠ a := by
  simp [OrderedMap.erase]

variable [Std.Irrefl (α := κ) (· < ·)]

theorem nodup (s : KeySet κ) : s.entries.Nodup := s.nodup_entries

/-- A set within a list is no longer than the list. -/
theorem length_le {s : KeySet κ} {l : List κ} (h : ∀ k ∈ s.entries, k ∈ l) :
    s.entries.length ≤ l.length :=
  (List.subperm_of_subset s.nodup h).length_le

/-- A set is determined by its members. -/
theorem ext_mem [DecidableEq κ] [Trans (α := κ) (· < ·) (· < ·) (· < ·)] {s t : KeySet κ}
    (h : ∀ k, k ∈ s.entries ↔ k ∈ t.entries) : s = t := by
  apply OrderedMap.ext_find?
  intro k
  apply Option.ext
  intro a
  rw [OrderedMap.find?_eq_some_iff, OrderedMap.find?_eq_some_iff, h]

end

variable {κ : Type} [LT κ] [DecidableLT κ] [DecidableEq κ] [Std.Irrefl (α := κ) (· < ·)]
  [Std.Trichotomous (α := κ) (· < ·)] [Trans (α := κ) (· < ·) (· < ·) (· < ·)]

theorem mem_assign {s : KeySet κ} {a b : κ} :
    b ∈ (s.assign a).entries ↔ b = a ∨ b ∈ s.entries := by
  rw [OrderedMap.mem_assign]
  constructor
  · rintro (rfl | ⟨hb, _⟩)
    · exact .inl rfl
    · exact .inr hb
  · rintro (rfl | hb)
    · exact .inl rfl
    · by_cases heq : b = a
      · exact .inl heq
      · exact .inr ⟨hb, heq⟩

theorem length_assign {s : KeySet κ} {a : κ} (h : a ∉ s.entries) :
    (s.assign a).entries.length = s.entries.length + 1 := by
  have hnone : s.find? a = none := by
    rw [OrderedMap.find?_eq_none_iff]
    rintro b hb rfl
    exact h hb
  rw [(OrderedMap.perm_assign a s).length_eq]
  exact congrArg (·.length + 1) (OrderedMap.entries_erase_of_none hnone)

/-! ## The loop -/

/-- Stage what was not seen. -/
def stageNew (seen : KeySet κ) (l : List κ) (stage : KeySet κ) : KeySet κ :=
  l.foldl (fun stage c => if c ∈ seen.entries then stage else stage.assign c) stage

theorem mem_stageNew {seen stage : KeySet κ} {l : List κ} {k : κ} :
    k ∈ (stageNew seen l stage).entries ↔ k ∈ stage.entries ∨ k ∈ l ∧ k ∉ seen.entries := by
  induction l generalizing stage with
  | nil => simp [stageNew]
  | cons c l ih =>
    have hunfold : stageNew seen (c :: l) stage =
        stageNew seen l (if c ∈ seen.entries then stage else stage.assign c) := rfl
    rw [hunfold, ih, List.mem_cons]
    by_cases hc : c ∈ seen.entries
    · rw [if_pos hc]
      constructor
      · rintro (hk | ⟨hk, hk'⟩)
        · exact .inl hk
        · exact .inr ⟨.inr hk, hk'⟩
      · rintro (hk | ⟨rfl | hk, hk'⟩)
        · exact .inl hk
        · exact absurd hc hk'
        · exact .inr ⟨hk, hk'⟩
    · rw [if_neg hc, mem_assign]
      constructor
      · rintro ((rfl | hk) | ⟨hk, hk'⟩)
        · exact .inr ⟨.inl rfl, hc⟩
        · exact .inl hk
        · exact .inr ⟨.inr hk, hk'⟩
      · rintro (hk | ⟨rfl | hk, hk'⟩)
        · exact .inl (.inr hk)
        · exact .inl (.inl rfl)
        · exact .inr ⟨hk, hk'⟩

variable (next : κ → KeySet κ)

/-- Take the first key of the stage until there is none. -/
def walk : (fuel : Nat) → (stage seen : KeySet κ) → KeySet κ
  | 0, _, seen => seen
  | fuel + 1, stage, seen =>
    match stage.entries with
    | [] => seen
    | it :: _ =>
      let seen := seen.assign it
      walk fuel (stageNew seen (next it).entries (stage.erase it)) seen

/-- The invariant: seen and staged keys are apart, lie in a universe, and the successors of what
was seen are seen or staged. -/
structure Frontier (universe_ : List κ) (stage seen : KeySet κ) : Prop where
  staged : ∀ k ∈ stage.entries, k ∈ universe_
  known : ∀ k ∈ seen.entries, k ∈ universe_
  apart : ∀ k ∈ stage.entries, k ∉ seen.entries
  closed : ∀ k ∈ seen.entries, ∀ c ∈ (next k).entries, c ∈ seen.entries ∨ c ∈ stage.entries

variable {next} {universe_ : List κ} {stage seen : KeySet κ}

omit [DecidableLT κ] [DecidableEq κ] [Std.Irrefl (α := κ) (· < ·)]
  [Std.Trichotomous (α := κ) (· < ·)] [Trans (α := κ) (· < ·) (· < ·) (· < ·)] in
/-- Nothing was seen yet. -/
theorem Frontier.start (h : ∀ k ∈ stage.entries, k ∈ universe_) :
    Frontier next universe_ stage ∅ :=
  ⟨h, fun k hk => absurd hk (not_mem_empty k), fun k _ => not_mem_empty k,
    fun k hk => absurd hk (not_mem_empty k)⟩

/-- **One round keeps the invariant.** -/
theorem Frontier.round (h : Frontier next universe_ stage seen)
    (huniverse : ∀ a ∈ universe_, ∀ c ∈ (next a).entries, c ∈ universe_) {it : κ}
    (hit : it ∈ stage.entries) :
    Frontier next universe_ (stageNew (seen.assign it) (next it).entries (stage.erase it))
      (seen.assign it) := by
  obtain ⟨hstaged, hknown, hapart, hclosed⟩ := h
  have hmem := hstaged it hit
  refine ⟨?_, ?_, ?_, ?_⟩
  · intro k hk
    rcases mem_stageNew.mp hk with hk | ⟨hk, _⟩
    · exact hstaged k (mem_erase.mp hk).1
    · exact huniverse it hmem k hk
  · intro k hk
    rcases mem_assign.mp hk with rfl | hk
    · exact hmem
    · exact hknown k hk
  · intro k hk hk'
    rcases mem_stageNew.mp hk with hk | ⟨_, hnew⟩
    · obtain ⟨hk, hne⟩ := mem_erase.mp hk
      rcases mem_assign.mp hk' with heq | hseen
      · exact hne heq
      · exact hapart k hk hseen
    · exact hnew hk'
  · intro k hk c hc
    by_cases hseen : c ∈ (seen.assign it).entries
    · exact .inl hseen
    · rw [mem_stageNew]
      rcases mem_assign.mp hk with rfl | hk
      · exact .inr (.inr ⟨hc, hseen⟩)
      · rw [mem_assign, not_or] at hseen
        rcases hclosed k hk c hc with hold | hstage
        · exact absurd hold hseen.2
        · exact .inr (.inl (mem_erase.mpr ⟨hstage, hseen.1⟩))

variable {fuel : Nat}

theorem mem_walk_of_seen {k : κ} (hk : k ∈ seen.entries) :
    k ∈ (walk next fuel stage seen).entries := by
  induction fuel generalizing stage seen with
  | zero => exact hk
  | succ fuel ih =>
    unfold walk
    split
    · exact hk
    · exact ih (mem_assign.mpr (.inr hk))

/-- Enough rounds see the stage and are closed under successors. -/
theorem walk_closed (h : Frontier next universe_ stage seen)
    (huniverse : ∀ a ∈ universe_, ∀ c ∈ (next a).entries, c ∈ universe_)
    (hfuel : universe_.length < fuel + seen.entries.length) :
    (∀ k ∈ stage.entries, k ∈ (walk next fuel stage seen).entries) ∧
      ∀ k ∈ (walk next fuel stage seen).entries, ∀ c ∈ (next k).entries,
        c ∈ (walk next fuel stage seen).entries := by
  induction fuel generalizing stage seen with
  | zero =>
    have hle := length_le h.known
    omega
  | succ fuel ih =>
    unfold walk
    split
    · next hempty =>
      refine ⟨?_, ?_⟩
      · intro k hk
        rw [hempty] at hk
        cases hk
      · intro k hk c hc
        rcases h.closed k hk c hc with hc | hc
        · exact hc
        · rw [hempty] at hc
          cases hc
    · next it rest hstage =>
      have hit : it ∈ stage.entries := by
        rw [hstage]
        exact List.mem_cons_self
      have hlength := length_assign (h.apart it hit)
      obtain ⟨hall, hclosed⟩ := ih (h.round huniverse hit) (by omega)
      refine ⟨?_, hclosed⟩
      intro k hk
      by_cases heq : k = it
      · rw [heq]
        exact mem_walk_of_seen (mem_assign.mpr (.inl rfl))
      · exact hall k (mem_stageNew.mpr (.inl (mem_erase.mpr ⟨hk, heq⟩)))

/-- What is seen was seen before or is reached from the stage. -/
theorem exists_reach_of_mem_walk {k : κ} (hk : k ∈ (walk next fuel stage seen).entries) :
    k ∈ seen.entries ∨
      ∃ s ∈ stage.entries, Relation.ReflTransGen (fun a b => b ∈ (next a).entries) s k := by
  induction fuel generalizing stage seen with
  | zero => exact .inl hk
  | succ fuel ih =>
    unfold walk at hk
    split at hk
    · exact .inl hk
    · next it rest hstage =>
      have hit : it ∈ stage.entries := by
        rw [hstage]
        exact List.mem_cons_self
      rcases ih hk with hk | ⟨s, hs, hreach⟩
      · rcases mem_assign.mp hk with rfl | hk
        · exact .inr ⟨k, hit, .refl⟩
        · exact .inl hk
      · rcases mem_stageNew.mp hs with hs | ⟨hs, _⟩
        · exact .inr ⟨s, (mem_erase.mp hs).1, hreach⟩
        · exact .inr ⟨it, hit, .head hs hreach⟩

/-- **What the loop sees.** -/
theorem mem_walk (h : Frontier next universe_ stage seen)
    (huniverse : ∀ a ∈ universe_, ∀ c ∈ (next a).entries, c ∈ universe_)
    (hfuel : universe_.length < fuel + seen.entries.length) {k : κ} :
    k ∈ (walk next fuel stage seen).entries ↔ k ∈ seen.entries ∨
      ∃ s ∈ stage.entries, Relation.ReflTransGen (fun a b => b ∈ (next a).entries) s k := by
  obtain ⟨hstage, hclosed⟩ := walk_closed h huniverse hfuel
  constructor
  · exact exists_reach_of_mem_walk
  · rintro (hk | ⟨s, hs, hreach⟩)
    · exact mem_walk_of_seen hk
    · induction hreach with
      | refl => exact hstage s hs
      | tail _ hstep ih => exact hclosed _ ih _ hstep

end KeySet
