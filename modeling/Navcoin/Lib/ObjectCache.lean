import Mathlib.Data.Option.Basic
import Mathlib.Logic.Function.Basic

/-!
# Caches of objects that are removed by a null object

Layers of cached objects on top of each other over a store.  A lookup stops at the first layer that
holds something under the key; a removed object is a null one, which hides what is below.  A layer
that is written down replaces everything the next one holds under its keys.  The store has its own
format: `put` and `get` may lose something.

* `Rules`: what a lookup makes of an object, what the end of a modification leaves, the store;
* `Stack.Shows`: the lookups of a stack are those of a map;
* `Stack.Shows.fetch`, `Stack.Shows.store`, `Stack.Shows.modify`, `Stack.Shows.flush`: the steps;
* `Stack.shown_of_emptyTo`: when every layer is written down, the store shows what the stack shows.
-/

namespace ObjectCache

variable {κ : Type} {V D : κ → Type}

/-- How objects are treated. -/
structure Rules (α δ : Type) where
  null : α
  /-- a layer copies the object when it finds it below -/
  held : α → Bool
  /-- what a lookup shows of an object -/
  seen : α → Option α
  /-- what is left of a modified object, given the one before -/
  settle : α → α → α
  get : δ → Option α
  put : δ → α → δ
  seen_null : seen null = none
  held_of_seen : ∀ v w, seen v = some w → held v = true

/-- A modification does not depend on what a lookup hides, and leaves no second null object. -/
structure Rules.RespectsAt {α δ : Type} (r : Rules α δ) (f : α → α) (v : α) : Prop where
  seen : r.seen (r.settle v (f v)) = r.seen (f ((r.seen v).getD r.null))
  canon : r.held (r.settle v (f v)) = false → r.settle v (f v) = r.null

/-- What a cache holds. -/
abbrev Layer (V : κ → Type) := (k : κ) → Option (V k)

/-- The caches, that on top first, and the store. -/
structure Stack (V D : κ → Type) where
  layers : List (Layer V)
  base : (k : κ) → D k

section Lookups

variable (r : (k : κ) → Rules (V k) (D k)) (base : (k : κ) → D k)

/-- The object a lookup ends at. -/
def look : List (Layer V) → (k : κ) → Option (V k)
  | [], k => (r k).get (base k)
  | l :: ls, k =>
    match l k with
    | some v => some v
    | none => look ls k

def shownAt (ls : List (Layer V)) (k : κ) : Option (V k) := (look r base ls k).bind (r k).seen

/-- What a layer gets when it asks the next one. -/
def load (ls : List (Layer V)) (k : κ) : Option (V k) :=
  (look r base ls k).filter (r k).held

variable [DecidableEq κ]

/-- A lookup leaves a copy of the object in every layer it passes. -/
def fetch (k : κ) : List (Layer V) → List (Layer V)
  | [] => []
  | l :: ls =>
    match l k, load r base ls k with
    | some _, _ => l :: ls
    | none, none => l :: fetch k ls
    | none, some v => Function.update l k (some v) :: fetch k ls

/-- The object that a modification starts from. -/
def current (k : κ) (l : Layer V) (ls : List (Layer V)) : V k :=
  (l k).getD ((load r base ls k).getD (r k).null)

/-- A modification of an object in the layer on top. -/
def modify (k : κ) (f : V k → V k) : List (Layer V) → List (Layer V)
  | [] => []
  | l :: ls =>
    let prev := current r base k l ls
    Function.update l k (some ((r k).settle prev (f prev))) ::
      (if (l k).isSome then ls else fetch r base k ls)

/-- Write an object into the layer on top. -/
def store (k : κ) (v : V k) : List (Layer V) → List (Layer V)
  | [] => []
  | l :: ls => Function.update l k (some v) :: ls

omit [DecidableEq κ] in
/-- The object under a key after the layer above was written down. -/
def merge (parent child : Layer V) : Layer V := fun k =>
  match child k with
  | some v => some v
  | none => parent k

/-- The store after a layer was written to it. -/
def putAll (l : Layer V) (k : κ) : D k :=
  match l k with
  | some v => (r k).put (base k) v
  | none => base k

/-- The layer at a depth is written down and cleared. -/
def flushAt : Nat → List (Layer V) → List (Layer V) × ((k : κ) → D k)
  | _, [] => ([], base)
  | 0, [l] => ([fun _ => none], putAll r base l)
  | 0, l :: p :: ls => ((fun _ => none) :: merge p l :: ls, base)
  | n + 1, l :: ls => (l :: (flushAt n ls).1, (flushAt n ls).2)

/-- What the layer at a depth writes to the store reads back as it was. -/
def ReadsBackAt : Nat → List (Layer V) → Prop
  | 0, [l] =>
    ∀ k v, l k = some v → ((r k).get ((r k).put (base k) v)).bind (r k).seen = (r k).seen v
  | n + 1, _ :: ls => ReadsBackAt n ls
  | _, _ => True

/-- There is one null object under a key. -/
def Canon (ls : List (Layer V)) : Prop :=
  ∀ l ∈ ls, ∀ k v, l k = some v → (r k).held v = false → v = (r k).null

end Lookups

variable {k : κ} {v : V k}

section Specs

variable {r : (k : κ) → Rules (V k) (D k)} {base : (k : κ) → D k}
variable {l : Layer V} {ls : List (Layer V)}

theorem shownAt_cons_some (h : l k = some v) (ls : List (Layer V)) :
    shownAt r base (l :: ls) k = (r k).seen v := by
  simp only [shownAt, look, h, Option.bind_some]

theorem shownAt_cons_none (h : l k = none) (ls : List (Layer V)) :
    shownAt r base (l :: ls) k = shownAt r base ls k := by
  simp only [shownAt, look, h]

/-- The lookups through a layer are determined by those below it. -/
theorem shownAt_cons_congr {base' : (k : κ) → D k} {ls' : List (Layer V)}
    (h : ∀ k, shownAt r base' ls' k = shownAt r base ls k) (k : κ) :
    shownAt r base' (l :: ls') k = shownAt r base (l :: ls) k := by
  cases hl : l k with
  | some v => rw [shownAt_cons_some hl, shownAt_cons_some hl]
  | none => rw [shownAt_cons_none hl, shownAt_cons_none hl, h k]

theorem seen_load (ls : List (Layer V)) (k : κ) :
    (load r base ls k).bind (r k).seen = shownAt r base ls k := by
  unfold load shownAt
  cases look r base ls k with
  | none => rfl
  | some v =>
    cases hheld : (r k).held v with
    | true => simp only [Option.filter, hheld, if_true]
    | false =>
      have hseen : (r k).seen v = none := by
        rw [Option.eq_none_iff_forall_ne_some]
        intro w hw
        rw [(r k).held_of_seen v w hw] at hheld
        cases hheld
      simp only [Option.filter, hheld, Bool.false_eq_true, if_false, Option.bind_none,
        Option.bind_some, hseen]

theorem held_of_load (h : load r base ls k = some v) :
    (r k).held v = true := (Option.filter_eq_some_iff.mp h).2

theorem Canon.of_cons (h : Canon r (l :: ls)) :
    Canon r ls := fun l' hl' => h l' (List.mem_cons_of_mem _ hl')

theorem Canon.cons (h : Canon r ls)
    (hl : ∀ k v, l k = some v → (r k).held v = false → v = (r k).null) : Canon r (l :: ls) := by
  intro l' hl'
  rcases List.mem_cons.mp hl' with rfl | hmem
  · exact hl
  · exact h l' hmem

variable [DecidableEq κ]

theorem shownAt_update (l : Layer V) (ls : List (Layer V)) (k : κ) (v : V k) :
    shownAt r base (Function.update l k (some v) :: ls) =
      Function.update (shownAt r base (l :: ls)) k ((r k).seen v) := by
  funext k'
  by_cases hk : k' = k
  · subst hk
    rw [Function.update_self, shownAt_cons_some (Function.update_self ..)]
  · simp only [shownAt, look, Function.update_of_ne hk]

theorem shownAt_fetch (k : κ) (ls : List (Layer V)) (k' : κ) :
    shownAt r base (fetch r base k ls) k' = shownAt r base ls k' := by
  induction ls generalizing k' with
  | nil => rfl
  | cons l ls ih =>
    have hbelow := shownAt_cons_congr (l := l) ih
    cases hl : l k with
    | some v => simp only [fetch, hl]
    | none =>
      cases hload : load r base ls k with
      | none => simp only [fetch, hl, hload, hbelow]
      | some v =>
        simp only [fetch, hl, hload]
        rw [shownAt_update]
        by_cases hk : k' = k
        · subst hk
          rw [Function.update_self, shownAt_cons_none hl, ← seen_load, hload, Option.bind_some]
        · rw [Function.update_of_ne hk, hbelow]

theorem canon_update {ls' : List (Layer V)} (h : Canon r (l :: ls)) (h' : Canon r ls')
    (hv : (r k).held v = false → v = (r k).null) :
    Canon r (Function.update l k (some v) :: ls') := by
  refine h'.cons fun k' v' heq hheld => ?_
  by_cases hk : k' = k
  · subst hk
    rw [Function.update_self] at heq
    cases heq
    exact hv hheld
  · rw [Function.update_of_ne hk] at heq
    exact h l List.mem_cons_self k' v' heq hheld

theorem length_fetch (k : κ) (ls : List (Layer V)) : (fetch r base k ls).length = ls.length := by
  induction ls with
  | nil => rfl
  | cons l ls ih =>
    unfold fetch
    split
    · rfl
    · exact congrArg Nat.succ ih
    · exact congrArg Nat.succ ih

theorem canon_fetch (k : κ) (h : Canon r ls) :
    Canon r (fetch r base k ls) := by
  induction ls with
  | nil => exact h
  | cons l ls ih =>
    have hls := ih h.of_cons
    cases hl : l k with
    | some v => simpa only [fetch, hl] using h
    | none =>
      cases hload : load r base ls k with
      | none =>
        simp only [fetch, hl, hload]
        exact hls.cons (h l List.mem_cons_self)
      | some v =>
        simp only [fetch, hl, hload]
        refine canon_update h hls fun hheld => ?_
        rw [held_of_load hload] at hheld
        cases hheld

omit [DecidableEq κ]

theorem seen_current (k : κ) (l : Layer V) (ls : List (Layer V)) :
    (r k).seen (current r base k l ls) = shownAt r base (l :: ls) k := by
  unfold current
  cases hl : l k with
  | some v => rw [shownAt_cons_some hl, Option.getD_some]
  | none =>
    rw [shownAt_cons_none hl, ← seen_load]
    cases load r base ls k with
    | none => exact (r k).seen_null
    | some v => rfl

theorem current_canon (h : Canon r (l :: ls)) (k : κ)
    (hheld : (r k).held (current r base k l ls) = false) : current r base k l ls = (r k).null := by
  unfold current at hheld ⊢
  cases hl : l k with
  | some v =>
    rw [hl] at hheld
    exact h l List.mem_cons_self k v hl hheld
  | none =>
    rw [hl, Option.getD_none] at hheld
    cases hload : load r base ls k with
    | none => rfl
    | some v =>
      rw [hload, Option.getD_some, held_of_load hload] at hheld
      cases hheld

/-! ## Writing a layer down -/

theorem look_merge (p l : Layer V) (ls : List (Layer V)) (k : κ) :
    look r base ((fun _ => none) :: merge p l :: ls) k = look r base (l :: p :: ls) k := by
  simp only [look, merge]
  cases l k <;> rfl

theorem shownAt_putAll (h : ReadsBackAt r base 0 [l]) (k : κ) :
    shownAt r (putAll r base l) [fun _ => none] k = shownAt r base [l] k := by
  cases hl : l k with
  | some v =>
    rw [shownAt_cons_some hl, ← h k v hl]
    simp only [shownAt, look, putAll, hl]
  | none =>
    simp only [shownAt, look, putAll, hl]

/-- **A layer is written down**, and nothing else is shown. -/
theorem shownAt_flushAt {n : Nat} (h : ReadsBackAt r base n ls) (k : κ) :
    shownAt r (flushAt r base n ls).2 (flushAt r base n ls).1 k = shownAt r base ls k := by
  induction n generalizing ls k with
  | zero =>
    match ls, h with
    | [], _ => rfl
    | [l], h => exact shownAt_putAll h k
    | l :: p :: ls, _ => exact congrArg (Option.bind · (r k).seen) (look_merge p l ls k)
  | succ n ih =>
    match ls, h with
    | [], _ => rfl
    | l :: ls, h =>
      rw [flushAt]
      exact shownAt_cons_congr (fun k => ih h k) k

theorem canon_flushAt (n : Nat) (h : Canon r ls) :
    Canon r (flushAt r base n ls).1 := by
  induction n generalizing ls with
  | zero =>
    match ls, h with
    | [], h => exact h
    | [l], h => exact h.of_cons.cons fun k v hv => by cases hv
    | l :: p :: ls, h =>
      refine (h.of_cons.of_cons.cons fun k v hv => ?_).cons fun k v hv => by cases hv
      simp only [merge] at hv
      cases hl : l k with
      | some w =>
        rw [hl] at hv
        cases hv
        exact h l List.mem_cons_self k v hl
      | none =>
        rw [hl] at hv
        exact h p (List.mem_cons_of_mem _ List.mem_cons_self) k v hv
  | succ n ih =>
    match ls, h with
    | [], h => exact h
    | l :: ls, h =>
      rw [flushAt]
      exact (ih h.of_cons).cons (h l List.mem_cons_self)

theorem length_flushAt (n : Nat) (ls : List (Layer V)) :
    (flushAt r base n ls).1.length = ls.length := by
  induction n generalizing ls with
  | zero =>
    match ls with
    | [] => rfl
    | [l] => rfl
    | l :: p :: ls => rfl
  | succ n ih =>
    match ls with
    | [] => rfl
    | l :: ls =>
      rw [flushAt]
      exact congrArg Nat.succ (ih ls)

end Specs

/-! ## The steps on a stack -/

namespace Stack

variable (r : (k : κ) → Rules (V k) (D k))

/-- New caches over a store. -/
def onBase (base : (k : κ) → D k) (n : Nat) : Stack V D :=
  { layers := List.replicate (n + 1) fun _ => none, base := base }

/-- What a lookup through the layer on top shows. -/
def shown (s : Stack V D) (k : κ) : Option (V k) := shownAt r s.base s.layers k

/-- What a lookup in the store itself shows. -/
def shownBase (s : Stack V D) (k : κ) : Option (V k) := ((r k).get (s.base k)).bind (r k).seen

/-- What the layer on top holds. -/
def cached (s : Stack V D) (k : κ) : Option (V k) := s.layers.head?.bind fun l => l k

variable [DecidableEq κ]

def fetch (s : Stack V D) (k : κ) : Stack V D :=
  { s with layers := ObjectCache.fetch r s.base k s.layers }

def modify (s : Stack V D) (k : κ) (f : V k → V k) : Stack V D :=
  { s with layers := ObjectCache.modify r s.base k f s.layers }

def store (s : Stack V D) (k : κ) (v : V k) : Stack V D :=
  { s with layers := ObjectCache.store k v s.layers }

omit [DecidableEq κ] in
def flush (s : Stack V D) (n : Nat) : Stack V D :=
  { layers := (flushAt r s.base n s.layers).1, base := (flushAt r s.base n s.layers).2 }

/-- The lookups of a stack with `d` layers below the one on top are those of a map. -/
structure Shows (d : Nat) (s : Stack V D) (m : (k : κ) → Option (V k)) : Prop where
  length : s.layers.length = d + 1
  canon : Canon r s.layers
  shown : ∀ k, s.shown r k = m k

variable {r} {d : Nat} {s : Stack V D} {m : (k : κ) → Option (V k)}

omit [DecidableEq κ] in
theorem Shows.layers (h : Shows r d s m) : s.layers ≠ [] := by
  intro hnil
  have hlen := h.length
  rw [hnil] at hlen
  cases hlen

omit [DecidableEq κ] in
theorem shows_over (base : (k : κ) → D k) (n : Nat) :
    Shows r n (onBase base n) fun k => ((r k).get (base k)).bind (r k).seen := by
  have hempty : ∀ l ∈ (onBase base n : Stack V D).layers, l = fun _ => none :=
    fun l hl => List.eq_of_mem_replicate hl
  refine ⟨by simp [onBase], fun l hl k v hv => ?_, fun k => ?_⟩
  · rw [hempty l hl] at hv
    cases hv
  · unfold shown onBase
    induction n + 1 with
    | zero => rfl
    | succ n ih => exact ih

theorem Shows.fetch (h : Shows r d s m) (k : κ) : Shows r d (s.fetch r k) m where
  length := (length_fetch k s.layers).trans h.length
  canon := canon_fetch k h.canon
  shown := fun k' => (shownAt_fetch k s.layers k').trans (h.shown k')

theorem Shows.store (h : Shows r d s m) (hv : (r k).held v = false → v = (r k).null) :
    Shows r d (s.store k v) (Function.update m k ((r k).seen v)) := by
  have hne := h.layers
  obtain ⟨hlen, hcanon, hshown⟩ := h
  have hm : m = shownAt r s.base s.layers := funext fun k => (hshown k).symm
  rw [hm]
  unfold Stack.store
  cases hls : s.layers with
  | nil => exact absurd hls hne
  | cons l ls =>
    rw [hls] at hcanon hlen
    refine ⟨hlen, canon_update hcanon hcanon.of_cons hv, fun k' => ?_⟩
    exact congrFun (shownAt_update l ls k v) k'

theorem Shows.modify (h : Shows r d s m) {f : V k → V k}
    (hf : ∀ v, ((r k).held v = false → v = (r k).null) → (r k).seen v = m k →
      (r k).RespectsAt f v) :
    Shows r d (s.modify r k f) (Function.update m k ((r k).seen (f ((m k).getD (r k).null)))) := by
  have hne := h.layers
  obtain ⟨hlen, hcanon, hshown⟩ := h
  have hm : m = shownAt r s.base s.layers := funext fun k => (hshown k).symm
  rw [hm] at hf ⊢
  unfold Stack.modify
  cases hls : s.layers with
  | nil => exact absurd hls hne
  | cons l ls =>
    rw [hls] at hcanon hlen hf
    have hbelow : ∀ k', shownAt r s.base
        (if (l k).isSome then ls else ObjectCache.fetch r s.base k ls) k' =
          shownAt r s.base ls k' := by
      intro k'
      split
      · rfl
      · exact shownAt_fetch k ls k'
    have hcanon' : Canon r (if (l k).isSome then ls else ObjectCache.fetch r s.base k ls) := by
      split
      · exact hcanon.of_cons
      · exact canon_fetch k hcanon.of_cons
    have hlen' : (if (l k).isSome then ls else ObjectCache.fetch r s.base k ls).length =
        ls.length := by
      split
      · rfl
      · exact length_fetch k ls
    obtain ⟨hseen, hnull⟩ := hf (current r s.base k l ls) (current_canon hcanon k)
      (seen_current k l ls)
    refine ⟨(congrArg Nat.succ hlen').trans hlen, canon_update hcanon hcanon' hnull, fun k' => ?_⟩
    rw [seen_current] at hseen
    rw [← hseen]
    refine (congrFun (shownAt_update l _ k _) k').trans ?_
    rw [funext (shownAt_cons_congr hbelow)]

/-- After a lookup the layer on top has what there is. -/
theorem Shows.none_of_fetch (h : Shows r d s m) (hk : (s.fetch r k).cached k = none) :
    m k = none := by
  rw [← h.shown k]
  unfold cached Stack.fetch at hk
  unfold Stack.shown
  cases hls : s.layers with
  | nil => exact absurd hls h.layers
  | cons l ls =>
    cases hl : l k with
    | some v => simp [hls, ObjectCache.fetch, hl] at hk
    | none =>
      cases hload : load r s.base ls k with
      | some v => simp [hls, ObjectCache.fetch, hl, hload] at hk
      | none => rw [shownAt_cons_none hl, ← seen_load, hload, Option.bind_none]

/-! ## Writing everything down -/

omit [DecidableEq κ]

theorem Shows.flush (h : Shows r d s m) {n : Nat} (hback : ReadsBackAt r s.base n s.layers) :
    Shows r d (s.flush r n) m where
  length := (length_flushAt n s.layers).trans h.length
  canon := canon_flushAt n h.canon
  shown := fun k => (shownAt_flushAt hback k).trans (h.shown k)

/-! ## What the layer on top holds -/

theorem Shows.seen_of_cached (h : Shows r d s m) (hv : s.cached k = some v) :
    m k = (r k).seen v := by
  rw [← h.shown k]
  unfold cached at hv
  unfold Stack.shown
  cases hls : s.layers with
  | nil => exact absurd hls h.layers
  | cons l ls =>
    have hl : l k = some v := by rwa [hls] at hv
    exact shownAt_cons_some hl ls

/-- The first layers hold nothing. -/
def EmptyTo : Nat → List (Layer V) → Prop
  | n + 1, l :: ls => (l = fun _ => none) ∧ EmptyTo n ls
  | _, _ => True

theorem emptyTo_flush {n : Nat} {s : Stack V D} (h : EmptyTo n s.layers) :
    EmptyTo (n + 1) (s.flush r n).layers := by
  unfold Stack.flush
  generalize s.layers = ls at h
  induction n generalizing ls with
  | zero =>
    match ls with
    | [] => exact trivial
    | [l] => exact ⟨rfl, trivial⟩
    | l :: p :: ls => exact ⟨rfl, trivial⟩
  | succ n ih =>
    match ls, h with
    | [], _ => exact trivial
    | l :: ls, h =>
      rw [flushAt]
      exact ⟨h.1, ih ls h.2⟩

/-- Where the layers hold nothing, the store shows what the stack shows. -/
theorem shown_of_emptyTo {s : Stack V D} (h : EmptyTo s.layers.length s.layers) (k : κ) :
    s.shownBase r k = s.shown r k := by
  unfold shown
  generalize s.layers = ls at h
  induction ls with
  | nil => rfl
  | cons l ls ih =>
    rw [shownAt_cons_none (by rw [h.1])]
    exact ih h.2

end Stack

end ObjectCache
