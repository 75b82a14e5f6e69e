import Navcoin.Lib.KeyedLoop
import Navcoin.Lib.OrderedMap

/-!
# Maps with a working copy

A pass over a map often reads a copy of it, writes to the map itself, remembers what it wrote and
brings the copy up to date at its end.

* `touch`, `modify`: a change that is remembered, and one that is not;
* `flush`: the copy gets what was remembered;
* `foldl_copy_at`, `tracks_foldl_copy`: a loop over the values of the copy;
* `Stepped`: a change of one value;
* `touchAll`: the changes of a list;
* `Tracks`, `agrees_flush`: a copy that was right at the start of a pass is right at its end, but
  for the changes that were not remembered.
-/

/-- A map, a copy of it, and the changes that the copy has not seen. -/
structure MirroredMap {κ α : Type} [LT κ] (key : α → κ) where
  stored : OrderedMap key
  copy : OrderedMap key := ∅
  updates : OrderedMap key := ∅

namespace MirroredMap

variable {κ α : Type} [LT κ] [DecidableEq κ] {key : α → κ}

section Changes

variable [DecidableLT κ] [Std.Trichotomous (α := κ) (· < ·)]
  [Trans (α := κ) (· < ·) (· < ·) (· < ·)]

/-- Change a value and remember it. -/
def touch (k : κ) (f : α → α) (m : MirroredMap key) : MirroredMap key :=
  match m.stored.find? k with
  | none => m
  | some a => { m with stored := m.stored.assign (f a), updates := m.updates.assign (f a) }

/-- Change a value only. -/
def modify (k : κ) (f : α → α) (m : MirroredMap key) : MirroredMap key :=
  { m with stored := m.stored.modify k f }

/-- Bring the copy up to date. -/
def flush (m : MirroredMap key) : MirroredMap key :=
  { m with copy := m.copy.assignAll m.updates.entries, updates := ∅ }

@[simp] theorem copy_touch (k : κ) (f : α → α) (m : MirroredMap key) :
    (m.touch k f).copy = m.copy := by
  unfold touch
  split <;> rfl

theorem stored_touch (k : κ) (f : α → α) (m : MirroredMap key) :
    (m.touch k f).stored = m.stored.modify k f := by
  unfold touch OrderedMap.modify
  cases m.stored.find? k <;> rfl

end Changes

/-! ## A pass -/

/-- The values of the copy are those of the map, up to `R`. -/
def Agrees (R : α → α → Prop) (m : MirroredMap key) : Prop :=
  ∀ k a, m.copy.find? k = some a → ∃ b, m.stored.find? k = some b ∧ R a b

/-- The map during a pass that started with `m₀`: what was remembered, or else was there at the
start, is what is stored, up to `R`; and only values of the copy were remembered. -/
structure Tracks (R : α → α → Prop) (m₀ m : MirroredMap key) : Prop where
  copy : m.copy = m₀.copy
  stored : ∀ k, Option.Rel R ((m.updates.find? k).or (m₀.stored.find? k)) (m.stored.find? k)
  within : ∀ k a, m.updates.find? k = some a → ∃ b, m₀.copy.find? k = some b

variable {R : α → α → Prop} {m₀ m : MirroredMap key}

theorem Tracks.refl (hR : ∀ a, R a a) (h : m₀.updates = ∅) : Tracks R m₀ m₀ := by
  refine ⟨rfl, ?_, ?_⟩
  · intro k
    rw [h]
    cases m₀.stored.find? k with
    | none => exact .none
    | some a => exact .some (hR a)
  · intro k a ha
    rw [h] at ha
    cases ha

/-! ## Loops over the copy -/

section Loop

variable {σ : Type} {v : σ → MirroredMap key} {step : σ → α → σ} {s : σ} {k : κ}
  (hothers : ∀ s a k, k ≠ key a → (v (step s a)).stored.find? k = (v s).stored.find? k)

/-- A loop whose rounds remember what they change. -/
theorem tracks_foldl_copy [Std.Irrefl (α := κ) (· < ·)] (h : Tracks R (v s) (v s))
    (htracks : ∀ t a, (∃ b, (v s).copy.find? (key a) = some b) → Tracks R (v s) (v t) →
      Tracks R (v s) (v (step t a))) :
    Tracks R (v s) (v ((v s).copy.entries.foldl step s)) := by
  apply List.foldlRecOn (motive := fun t => Tracks R (v s) (v t)) _ _ h
  intro t ht a ha
  exact htracks t a ⟨a, OrderedMap.find?_eq_some_iff.mpr ⟨ha, rfl⟩⟩ ht

include hothers

theorem foldl_copy_of_none (hk : (v s).copy.find? k = none) :
    (v ((v s).copy.entries.foldl step s)).stored.find? k = (v s).stored.find? k :=
  KeyedLoop.foldl_of_not_mem (v := fun s k => (v s).stored.find? k) hothers _ s
    (OrderedMap.find?_eq_none_iff.mp hk)

/-- The round of a value finds it as it was, and decides what is left in the end. -/
theorem foldl_copy_at [Std.Irrefl (α := κ) (· < ·)] (hs : (v s).Agrees Eq) {a : α}
    (ha : (v s).copy.find? k = some a) :
    key a = k ∧ ∃ pre : List α, (v (pre.foldl step s)).stored.find? (key a) = some a ∧
      (v ((v s).copy.entries.foldl step s)).stored.find? (key a) =
        (v (step (pre.foldl step s) a)).stored.find? (key a) := by
  obtain ⟨hmem, rfl⟩ := OrderedMap.find?_eq_some_iff.mp ha
  obtain ⟨pre, _, _, hbefore, hafter⟩ := KeyedLoop.foldl_at
    (v := fun s k => (v s).stored.find? k) hothers (v s).copy.nodup_keys s hmem
  obtain ⟨_, hstored, rfl⟩ := hs _ _ ha
  exact ⟨rfl, pre, hbefore.trans hstored, hafter⟩

end Loop

/-! ## Changes that are remembered -/

section Order

variable [DecidableLT κ] [Std.Trichotomous (α := κ) (· < ·)]
  [Trans (α := κ) (· < ·) (· < ·) (· < ·)] {f : α → α} {k : κ}

/-- One value was changed by `f`, and what is remembered is right up to `R`. -/
structure Stepped (R : α → α → Prop) (k : κ) (f : α → α) (m m' : MirroredMap key) : Prop where
  keeps : ∀ a, key (f a) = key a
  stored : m'.stored = m.stored.modify k f
  tracks : ∀ m₀ : MirroredMap key, (∃ a, m₀.copy.find? k = some a) → m₀.Tracks R m →
    m₀.Tracks R m'

variable {m' : MirroredMap key}

/-- The change as it looks at the value that is there. -/
theorem Stepped.stored_at {g : α → α} {a : α} (h : Stepped R k f m m')
    (ha : m.stored.find? k = some a) (heq : f a = g a) : m'.stored = m.stored.modify k g := by
  rw [h.stored]
  refine OrderedMap.modify_congr fun b hb => ?_
  rw [ha] at hb
  rw [← Option.some.inj hb, heq]

variable [Std.Irrefl (α := κ) (· < ·)]

theorem Tracks.touch (h : Tracks R m₀ m) (hR : ∀ a, R a a) (hf : ∀ a, key (f a) = key a)
    (hk : ∃ b, m₀.copy.find? k = some b) : Tracks R m₀ (m.touch k f) := by
  cases hfind : m.stored.find? k with
  | none =>
    have hsame : m.touch k f = m := by
      unfold MirroredMap.touch
      rw [hfind]
    rw [hsame]
    exact h
  | some a =>
    have hsame : m.touch k f =
        { m with stored := m.stored.assign (f a), updates := m.updates.assign (f a) } := by
      unfold MirroredMap.touch
      rw [hfind]
    have hkey : key (f a) = k := (hf a).trans (OrderedMap.key_of_find? hfind)
    rw [hsame]
    refine ⟨h.copy, ?_, ?_⟩
    · intro k'
      rw [OrderedMap.find?_assign, OrderedMap.find?_assign]
      split
      · exact .some (hR _)
      · exact h.stored k'
    · intro k' b hb
      rw [OrderedMap.find?_assign] at hb
      split at hb
      · next heq =>
        rw [heq, hkey]
        exact hk
      · exact h.within k' b hb

theorem Tracks.modify (h : Tracks R m₀ m) (hR : ∀ a b, R a b → R a (f b))
    (hf : ∀ a, key (f a) = key a) : Tracks R m₀ (m.modify k f) := by
  refine ⟨h.copy, ?_, h.within⟩
  intro k'
  show Option.Rel R _ ((m.stored.modify k f).find? k')
  rw [OrderedMap.find?_modify hf]
  split
  · next heq =>
    subst heq
    exact OrderedMap.rel_map_right hR (h.stored k')
  · exact h.stored k'

theorem Stepped.refl : Stepped R k id m m :=
  ⟨fun _ => rfl, (OrderedMap.modify_eq_self fun _ _ => rfl).symm, fun _ _ h => h⟩

theorem stepped_touch (hR : ∀ a, R a a) (hf : ∀ a, key (f a) = key a) :
    Stepped R k f m (m.touch k f) :=
  ⟨hf, stored_touch k f m, fun _ hk h => h.touch hR hf hk⟩

/-- Two changes as one. -/
theorem Stepped.trans {g : α → α} {m'' : MirroredMap key} (h : Stepped R k f m m')
    (h' : Stepped R k g m' m'') : Stepped R k (fun a => g (f a)) m m'' := by
  refine ⟨fun a => (h'.keeps (f a)).trans (h.keeps a), ?_,
    fun m₀ hk ht => h'.tracks m₀ hk (h.tracks m₀ hk ht)⟩
  rw [h'.stored, h.stored, OrderedMap.modify_modify h.keeps h'.keeps]

theorem Stepped.others (h : Stepped R k f m m') {k' : κ} (hk : k' ≠ k) :
    m'.stored.find? k' = m.stored.find? k' := by
  rw [h.stored, OrderedMap.find?_modify h.keeps, if_neg hk]

/-- **The copy after a pass.** -/
theorem agrees_flush (h₀ : m₀.Agrees Eq) (h : Tracks R m₀ m) : m.flush.Agrees R := by
  intro k a ha
  have hstored := h.stored k
  have hor : (m.updates.find? k).or (m₀.stored.find? k) = some a := by
    change (m.copy.assignAll m.updates.entries).find? k = some a at ha
    rw [OrderedMap.find?_assignAll_entries, h.copy] at ha
    cases hu : m.updates.find? k with
    | some b =>
      rw [hu] at ha
      exact ha
    | none =>
      rw [hu] at ha
      obtain ⟨b, hb, rfl⟩ := h₀ k a ha
      exact hb
  rw [hor] at hstored
  show ∃ b, m.stored.find? k = some b ∧ R a b
  generalize m.stored.find? k = o at hstored ⊢
  cases hstored with
  | some hab => exact ⟨_, rfl, hab⟩

/-- The keys of the copy stay. -/
theorem find?_copy_flush_eq_none_iff (h : Tracks R m₀ m) (k : κ) :
    m.flush.copy.find? k = none ↔ m₀.copy.find? k = none := by
  show (m.copy.assignAll m.updates.entries).find? k = none ↔ _
  rw [OrderedMap.find?_assignAll_entries, h.copy, Option.or_eq_none_iff]
  constructor
  · exact And.right
  · intro hnone
    refine ⟨?_, hnone⟩
    cases hu : m.updates.find? k with
    | none => rfl
    | some a =>
      obtain ⟨b, hb⟩ := h.within k a hu
      rw [hnone] at hb
      cases hb

/-! ## Passes over a list of changes -/

/-- For each item whose key satisfies `c`, change the value of that key and remember it. -/
def touchAll {β : Type} (c : κ → Bool) (g : β → α → α) (l : List (κ × β)) (m : MirroredMap key) :
    MirroredMap key :=
  l.foldl (fun m it => if c it.1 then m.touch it.1 (g it.2) else m) m

variable {β : Type} {c : κ → Bool} {g : β → α → α}

theorem tracks_touchAll (hR : ∀ a, R a a) (hg : ∀ b a, key (g b a) = key a)
    (hc : ∀ k, c k = true → ∃ a, m₀.copy.find? k = some a) (l : List (κ × β))
    (h : Tracks R m₀ m) : Tracks R m₀ (m.touchAll c g l) := by
  induction l generalizing m with
  | nil => exact h
  | cons it l ih =>
    refine ih ?_
    show Tracks R m₀ (if c it.1 then m.touch it.1 (g it.2) else m)
    split
    · next hit => exact h.touch hR (hg it.2) (hc it.1 hit)
    · exact h

/-- What is stored after the changes of a map of changes, where `f` is the change of a value. -/
theorem find?_stored_touchAll (hg : ∀ b a, key (g b a) = key a)
    (u : OrderedMap (Prod.fst : κ × β → κ)) (m : MirroredMap key) {f : α → α}
    (hnone : ∀ a, u.find? (key a) = none → f a = a)
    (hsome : ∀ a it, u.find? (key a) = some it → f a = if c (key a) then g it.2 a else a) (k : κ) :
    (m.touchAll c g u.entries).stored.find? k = (m.stored.find? k).map f := by
  have hframe : ∀ (m : MirroredMap key) (it : κ × β) (k' : κ), k' ≠ it.1 →
      (if c it.1 then m.touch it.1 (g it.2) else m).stored.find? k' = m.stored.find? k' := by
    intro m it k' hk'
    split
    · rw [stored_touch, OrderedMap.find?_modify (hg it.2), if_neg hk']
    · rfl
  have hkey : ∀ a, m.stored.find? k = some a → key a = k := fun _ => OrderedMap.key_of_find?
  cases hu : u.find? k with
  | none =>
    refine (KeyedLoop.foldl_of_not_mem (v := fun (m : MirroredMap key) k' => m.stored.find? k')
      hframe u.entries m (OrderedMap.find?_eq_none_iff.mp hu)).trans ?_
    cases ha : m.stored.find? k with
    | none => rfl
    | some a => rw [Option.map_some, hnone a ((hkey a ha).symm ▸ hu)]
  | some it =>
    obtain ⟨hit, rfl⟩ := OrderedMap.find?_eq_some_iff.mp hu
    obtain ⟨pre, post, _, hbefore, hafter⟩ :=
      KeyedLoop.foldl_at (v := fun (m : MirroredMap key) k' => m.stored.find? k')
        hframe u.nodup_keys m hit
    refine hafter.trans ?_
    have hround : (m.stored.find? it.1).map f =
        (m.stored.find? it.1).map fun a => if c it.1 then g it.2 a else a :=
      Option.map_congr fun a ha => by rw [hsome a it ((hkey a ha).symm ▸ hu), hkey a ha]
    rw [hround]
    split
    · rw [stored_touch, OrderedMap.find?_modify (hg it.2), if_pos rfl]
      exact congrArg _ hbefore
    · rw [Option.map_id']
      exact hbefore

end Order

end MirroredMap
