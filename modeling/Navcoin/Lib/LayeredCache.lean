import Mathlib.Data.List.Basic
import Mathlib.Logic.Function.Basic

/-!
# Stacks of write-back caches

Layers of entries over a base map.  A value may be dead, which counts as missing.  An entry is
dirty when it was changed since it was read from below, and fresh when nothing below is alive
under its key; a fresh entry that is dead can be forgotten.

* `Valid`: what the two flags promise;
* `look_fetch`, `valid_fetch`: reading;
* `modify_spec`, `replace_spec`: writing to the top layer;
* `flushAt_spec`: writing a layer to what is below it;
* `live_base_flushLayers`: writing all of them.
-/

structure CacheEntry (V : Type) where
  value : V
  dirty : Bool := false
  fresh : Bool := false

namespace LayeredCache

abbrev Layer (κ V : Type) := κ → Option (CacheEntry V)

variable {κ V : Type} [DecidableEq κ] (dead : V → Bool)

/-- The value, unless it is dead. -/
def live (v : Option V) : Option V := v.filter fun v => !dead v

theorem live_some (v : V) : live dead (some v) = if dead v then none else some v := by
  rw [live, Option.filter_some]
  cases dead v <;> rfl

/-! ## Operations -/

/-- An entry hides what is below it. -/
def shown (e : Option (CacheEntry V)) (below : Option V) : Option V :=
  match e with
  | some e => some e.value
  | none => below

omit [DecidableEq κ] in
/-- What a stack shows, its top layer first. -/
def look (base : κ → Option V) : List (Layer κ V) → κ → Option V
  | [], k => base k
  | l :: ls, k => shown (l k) (look base ls k)

/-- Reading a key copies its value into the layers above it. -/
def fetch (base : κ → Option V) (k : κ) : List (Layer κ V) → List (Layer κ V) × Option V
  | [] => ([], base k)
  | l :: ls =>
    match l k with
    | some e => (l :: ls, some e.value)
    | none =>
      let r := fetch base k ls
      match r.2 with
      | none => (l :: r.1, none)
      | some v => (Function.update l k (some { value := v, fresh := dead v }) :: r.1, some v)

/-- An entry that was changed; a fresh one is forgotten when it is dead. -/
def settle (l : Layer κ V) (k : κ) (e : CacheEntry V) : Layer κ V :=
  Function.update l k (if e.fresh && dead e.value then none else some e)

/-- Change the value of a key in the top layer; `init` stands for a missing one. -/
def modify (base : κ → Option V) (k : κ) (init : V) (f : V → V) (l : Layer κ V)
    (ls : List (Layer κ V)) : Layer κ V × List (Layer κ V) :=
  match l k with
  | some e => (settle dead l k { e with value := f e.value, dirty := true }, ls)
  | none =>
    let r := fetch dead base k ls
    match r.2 with
    | none => (settle dead l k { value := f init, dirty := true, fresh := true }, r.1)
    | some v => (settle dead l k { value := f v, dirty := true, fresh := dead v }, r.1)

/-- Write a value without a look below; `new` says that nothing is there. -/
def replace (k : κ) (v : V) (new : Bool) (l : Layer κ V) : Layer κ V :=
  settle dead l k
    { value := v, dirty := true, fresh := new || ((l k).map CacheEntry.fresh).getD false }

/-- The entry of a layer after that of the layer above was written to it. -/
def mergeEntry (parent child : Option (CacheEntry V)) : Option (CacheEntry V) :=
  match child with
  | none => parent
  | some e =>
    if e.dirty then
      match parent with
      | none =>
        if e.fresh && dead e.value then none
        else some { value := e.value, dirty := true, fresh := e.fresh }
      | some p =>
        if p.fresh && dead e.value then none else some { p with value := e.value, dirty := true }
    else parent

/-- The value of the base after an entry was written to it. -/
def writeValue (v : Option V) (child : Option (CacheEntry V)) : Option V :=
  match child with
  | none => v
  | some e => if e.dirty then live dead (some e.value) else v

/-- Write the layer at a depth to what is below it. -/
def flushAt (base : κ → Option V) : Nat → List (Layer κ V) → List (Layer κ V) × (κ → Option V)
  | _, [] => ([], base)
  | 0, [l] => ([fun _ => none], fun k => writeValue dead (base k) (l k))
  | 0, l :: p :: ls => ((fun _ => none) :: (fun k => mergeEntry dead (p k) (l k)) :: ls, base)
  | n + 1, l :: ls =>
    let r := flushAt base n ls
    (l :: r.1, r.2)

/-! ## What the flags promise -/

structure EntryOk (below : Option V) (e : CacheEntry V) : Prop where
  fresh : e.fresh = true → below = none
  clean : e.dirty = false → live dead (some e.value) = below

def Valid (base : κ → Option V) : List (Layer κ V) → Prop
  | [] => True
  | l :: ls => (∀ k e, l k = some e → EntryOk dead (live dead (look base ls k)) e) ∧ Valid base ls

variable {dead} {base : κ → Option V}

theorem live_live (v : Option V) : live dead (live dead v) = live dead v := by
  cases v with
  | none => rfl
  | some v =>
    rw [live_some]
    split
    · rfl
    · next hlive => rw [live_some, if_neg hlive]

omit [DecidableEq κ] in
theorem look_cons_of_none {l : Layer κ V} {ls : List (Layer κ V)} {k : κ} (h : l k = none) :
    look base (l :: ls) k = look base ls k := by
  rw [look, h, shown]

omit [DecidableEq κ] in
theorem look_cons_of_some {l : Layer κ V} {ls : List (Layer κ V)} {k : κ} {e : CacheEntry V}
    (h : l k = some e) : look base (l :: ls) k = some e.value := by
  rw [look, h, shown]

/-! ## Reading -/

theorem fetch_snd (k : κ) (ls : List (Layer κ V)) : (fetch dead base k ls).2 = look base ls k := by
  induction ls with
  | nil => rfl
  | cons l ls ih =>
    cases hl : l k with
    | some e => simp only [fetch, look, shown, hl]
    | none =>
      simp only [fetch, look, shown, hl, ih]
      cases look base ls k <;> rfl

theorem fetch_cons_of_none {l : Layer κ V} {ls : List (Layer κ V)} {k : κ} (h : l k = none) :
    (fetch dead base k (l :: ls)).1 =
      (match look base ls k with
        | none => l
        | some v => Function.update l k (some { value := v, fresh := dead v })) ::
          (fetch dead base k ls).1 := by
  simp only [fetch, h, fetch_snd]
  cases look base ls k <;> rfl

/-- **Reading shows nothing new.** -/
theorem look_fetch (k k' : κ) (ls : List (Layer κ V)) :
    look base (fetch dead base k ls).1 k' = look base ls k' := by
  induction ls with
  | nil => rfl
  | cons l ls ih =>
    cases hl : l k with
    | some e => simp only [fetch, hl]
    | none =>
      rw [fetch_cons_of_none hl]
      cases hv : look base ls k with
      | none => simp only [look, ih]
      | some v =>
        by_cases hk : k' = k
        · subst hk
          rw [look_cons_of_some (Function.update_self ..), look_cons_of_none hl, hv]
        · simp only [look, Function.update_of_ne hk, ih]

omit [DecidableEq κ] in
/-- The promises speak of what is alive below. -/
theorem Valid.congr {l : Layer κ V} {ls ls' : List (Layer κ V)} {base' : κ → Option V}
    (h : Valid dead base (l :: ls)) (hvalid : Valid dead base' ls')
    (hlook : ∀ k, live dead (look base' ls' k) = live dead (look base ls k)) :
    Valid dead base' (l :: ls') :=
  ⟨fun k e he => hlook k ▸ h.1 k e he, hvalid⟩

theorem valid_fetch (k : κ) {ls : List (Layer κ V)} (h : Valid dead base ls) :
    Valid dead base (fetch dead base k ls).1 := by
  induction ls with
  | nil => trivial
  | cons l ls ih =>
    have hrest := ih h.2
    cases hl : l k with
    | some e =>
      simp only [fetch, hl]
      exact h
    | none =>
      rw [fetch_cons_of_none hl]
      have hlow : Valid dead base (l :: (fetch dead base k ls).1) :=
        h.congr hrest fun k' => by rw [look_fetch]
      cases hv : look base ls k with
      | none => exact hlow
      | some v =>
        refine ⟨fun k' e he => ?_, hrest⟩
        simp only at he
        by_cases hk : k' = k
        · subst hk
          rw [Function.update_self] at he
          cases he
          rw [look_fetch, hv]
          refine ⟨fun hdead => ?_, fun _ => rfl⟩
          rw [live_some]
          exact if_pos hdead
        · rw [Function.update_of_ne hk] at he
          exact hlow.1 k' e he

/-! ## Writing to the top layer -/

section Settle

variable {l : Layer κ V} {ls : List (Layer κ V)} {k : κ} {e : CacheEntry V}

theorem valid_settle (h : Valid dead base (l :: ls)) (hdirty : e.dirty = true)
    (hfresh : e.fresh = true → live dead (look base ls k) = none) :
    Valid dead base (settle dead l k e :: ls) := by
  refine ⟨fun k' e' he' => ?_, h.2⟩
  by_cases hk : k' = k
  · subst hk
    rw [settle, Function.update_self] at he'
    split at he'
    · cases he'
    · cases he'
      refine ⟨hfresh, fun hclean => ?_⟩
      rw [hdirty] at hclean
      cases hclean
  · rw [settle, Function.update_of_ne hk] at he'
    exact h.1 k' e' he'

theorem live_look_settle (hfresh : e.fresh = true → live dead (look base ls k) = none) (k' : κ) :
    live dead (look base (settle dead l k e :: ls) k') =
      if k' = k then live dead (some e.value) else live dead (look base (l :: ls) k') := by
  by_cases hk : k' = k
  · subst hk
    rw [if_pos rfl]
    cases hdrop : e.fresh && dead e.value with
    | true =>
      rw [Bool.and_eq_true] at hdrop
      have hnone : settle dead l k' e k' = none := by
        simp [settle, hdrop]
      rw [look_cons_of_none hnone, hfresh hdrop.1, live_some, if_pos hdrop.2]
    | false =>
      have hsome : settle dead l k' e k' = some e := by
        simp [settle, hdrop]
      rw [look_cons_of_some hsome]
  · have hother : settle dead l k e k' = l k' := Function.update_of_ne hk _ _
    rw [if_neg hk, look, look, hother]

end Settle

section Top

variable {l : Layer κ V} {ls : List (Layer κ V)}

theorem modify_eq (dead : V → Bool) (base : κ → Option V) (k : κ) (init : V) (f : V → V)
    (l : Layer κ V) (ls : List (Layer κ V)) :
    ∃ e ls', modify dead base k init f l ls = (settle dead l k e, ls') ∧ e.dirty = true ∧
      e.value = f ((look base (l :: ls) k).getD init) ∧
      (e.fresh = ((l k).map CacheEntry.fresh).getD (live dead (look base ls k)).isNone) ∧
      (ls' = ls ∨ ls' = (fetch dead base k ls).1) := by
  unfold modify
  cases hl : l k with
  | some e =>
    rw [look_cons_of_some hl]
    exact ⟨_, _, rfl, rfl, rfl, rfl, .inl rfl⟩
  | none =>
    rw [look_cons_of_none hl]
    simp only [fetch_snd]
    cases hv : look base ls k with
    | none => exact ⟨_, _, rfl, rfl, rfl, rfl, .inr rfl⟩
    | some v =>
      refine ⟨_, _, rfl, rfl, rfl, ?_, .inr rfl⟩
      rw [live_some]
      cases dead v <;> rfl

/-- **A change of the top layer.** -/
theorem modify_spec (h : Valid dead base (l :: ls)) (k : κ) (init : V) (f : V → V) :
    Valid dead base ((modify dead base k init f l ls).1 :: (modify dead base k init f l ls).2) ∧
      ∀ k', live dead (look base ((modify dead base k init f l ls).1 ::
          (modify dead base k init f l ls).2) k') =
        if k' = k then live dead (some (f ((look base (l :: ls) k).getD init)))
        else live dead (look base (l :: ls) k') := by
  obtain ⟨e, ls', heq, hdirty, hvalue, hfresh, hls⟩ := modify_eq dead base k init f l ls
  have hlook : ∀ k', look base ls' k' = look base ls k' := by
    intro k'
    rcases hls with rfl | rfl
    · rfl
    · rw [look_fetch]
  have hvalid : Valid dead base (l :: ls') := by
    refine h.congr ?_ fun k' => by rw [hlook]
    rcases hls with rfl | rfl
    · exact h.2
    · exact valid_fetch k h.2
  have hbelow : e.fresh = true → live dead (look base ls' k) = none := by
    rw [hfresh, hlook]
    cases hl : l k with
    | some e' => exact (h.1 k e' hl).fresh
    | none => simp
  rw [heq]
  refine ⟨valid_settle hvalid hdirty hbelow, fun k' => ?_⟩
  rw [live_look_settle hbelow, hvalue]
  simp only [look, hlook]

/-- **A value is written over.**  That it is new has to be true. -/
theorem replace_spec (h : Valid dead base (l :: ls)) (k : κ) (v : V) (new : Bool)
    (hnew : new = true → live dead (look base ls k) = none) :
    Valid dead base (replace dead k v new l :: ls) ∧
      ∀ k', live dead (look base (replace dead k v new l :: ls) k') =
        if k' = k then live dead (some v) else live dead (look base (l :: ls) k') := by
  have hbelow : (new || ((l k).map CacheEntry.fresh).getD false) = true →
      live dead (look base ls k) = none := by
    rw [Bool.or_eq_true]
    rintro (hn | hf)
    · exact hnew hn
    · cases hl : l k with
      | some e =>
        rw [hl] at hf
        exact (h.1 k e hl).fresh hf
      | none =>
        rw [hl] at hf
        cases hf
  exact ⟨valid_settle h rfl hbelow, live_look_settle hbelow⟩

end Top

/-! ## Writing a layer down -/

omit [DecidableEq κ]

theorem writeValue_live {v : Option V} {child : Option (CacheEntry V)}
    (h : ∀ e, child = some e → EntryOk dead (live dead v) e) :
    live dead (writeValue dead v child) =
      live dead (shown child v) := by
  cases child with
  | none => rfl
  | some e =>
    simp only [writeValue, shown]
    split
    · exact live_live _
    · next hclean => rw [(h e rfl).clean (by simpa using hclean)]

/-- One entry of a layer that is written to the next one. -/
theorem mergeEntry_spec {below : Option V} {parent child : Option (CacheEntry V)}
    (hparent : ∀ p, parent = some p → EntryOk dead (live dead below) p)
    (hchild : ∀ e, child = some e → EntryOk dead (live dead (shown parent below)) e) :
    (∀ q, mergeEntry dead parent child = some q → EntryOk dead (live dead below) q) ∧
      live dead (shown (mergeEntry dead parent child) below) =
        live dead (shown child (shown parent below)) := by
  cases child with
  | none => exact ⟨hparent, rfl⟩
  | some e =>
    have he := hchild e rfl
    cases hdirty : e.dirty with
    | false =>
      simp only [mergeEntry, hdirty, Bool.false_eq_true, if_false]
      exact ⟨hparent, (he.clean hdirty).symm⟩
    | true =>
      cases parent with
      | none =>
        simp only [mergeEntry, hdirty, if_true]
        split
        · next hdrop =>
          rw [Bool.and_eq_true] at hdrop
          refine ⟨fun q hq => (by cases hq), ?_⟩
          rw [shown, shown, live_some, if_pos hdrop.2]
          exact he.fresh hdrop.1
        · refine ⟨fun q hq => ?_, rfl⟩
          cases hq
          exact ⟨he.fresh, fun hclean => by cases hclean⟩
      | some p =>
        simp only [mergeEntry, hdirty, if_true]
        split
        · next hdrop =>
          rw [Bool.and_eq_true] at hdrop
          refine ⟨fun q hq => (by cases hq), ?_⟩
          rw [shown, shown, live_some, if_pos hdrop.2]
          exact (hparent p rfl).fresh hdrop.1
        · refine ⟨fun q hq => ?_, rfl⟩
          cases hq
          exact ⟨(hparent p rfl).fresh, fun hclean => by cases hclean⟩

/-- **A layer is written down**, and nothing else is shown. -/
theorem flushAt_spec {ls : List (Layer κ V)} (h : Valid dead base ls) (n : Nat) :
    Valid dead (flushAt dead base n ls).2 (flushAt dead base n ls).1 ∧
      ∀ k, live dead (look (flushAt dead base n ls).2 (flushAt dead base n ls).1 k) =
        live dead (look base ls k) := by
  induction n generalizing ls with
  | zero =>
    match ls, h with
    | [], h => exact ⟨h, fun _ => rfl⟩
    | [l], h =>
      refine ⟨⟨fun k e he => (by cases he), trivial⟩, fun k => ?_⟩
      exact writeValue_live fun e he => h.1 k e he
    | l :: p :: ls, h =>
      have hentry := fun k => mergeEntry_spec (h.2.1 k) (h.1 k)
      refine ⟨⟨fun k e he => (by cases he), fun k q hq => (hentry k).1 q hq, h.2.2⟩, fun k => ?_⟩
      exact (hentry k).2
  | succ n ih =>
    cases ls with
    | nil => exact ⟨h, fun _ => rfl⟩
    | cons l ls =>
      obtain ⟨hvalid, hlook⟩ := ih h.2
      rw [flushAt]
      refine ⟨h.congr hvalid hlook, fun k => ?_⟩
      simp only [look]
      cases l k with
      | some e => rfl
      | none => exact hlook k

/-! ## Writing everything down -/

/-- The layers of a stack, from the top one on. -/
def flushLayers (dead : V → Bool) : Nat → List (Layer κ V) × (κ → Option V) →
    List (Layer κ V) × (κ → Option V)
  | 0, s => s
  | n + 1, s => flushAt dead (flushLayers dead n s).2 n (flushLayers dead n s).1

theorem flushLayers_spec {ls : List (Layer κ V)} (h : Valid dead base ls) (n : Nat) :
    Valid dead (flushLayers dead n (ls, base)).2 (flushLayers dead n (ls, base)).1 ∧
      ∀ k, live dead (look (flushLayers dead n (ls, base)).2 (flushLayers dead n (ls, base)).1 k) =
        live dead (look base ls k) := by
  induction n with
  | zero => exact ⟨h, fun _ => rfl⟩
  | succ n ih =>
    obtain ⟨hvalid, hlook⟩ := flushAt_spec ih.1 n
    exact ⟨hvalid, fun k => (hlook k).trans (ih.2 k)⟩

/-- The first layers hold nothing. -/
def EmptyTo : Nat → List (Layer κ V) → Prop
  | n + 1, l :: ls => (l = fun _ => none) ∧ EmptyTo n ls
  | _, _ => True

theorem emptyTo_flushAt {n : Nat} {ls : List (Layer κ V)} (h : EmptyTo n ls) :
    EmptyTo (n + 1) (flushAt dead base n ls).1 ∧
      (flushAt dead base n ls).1.length = ls.length := by
  induction n generalizing ls with
  | zero =>
    match ls with
    | [] => exact ⟨trivial, rfl⟩
    | [l] => exact ⟨⟨rfl, trivial⟩, rfl⟩
    | l :: p :: ls => exact ⟨⟨rfl, trivial⟩, rfl⟩
  | succ n ih =>
    cases ls with
    | nil => exact ⟨trivial, rfl⟩
    | cons l ls =>
      rw [flushAt]
      obtain ⟨hempty, hlen⟩ := ih h.2
      exact ⟨⟨h.1, hempty⟩, congrArg Nat.succ hlen⟩

theorem look_of_emptyTo {ls : List (Layer κ V)} (h : EmptyTo ls.length ls) (k : κ) :
    look base ls k = base k := by
  induction ls with
  | nil => rfl
  | cons l ls ih =>
    rw [look_cons_of_none (by rw [h.1])]
    exact ih h.2

/-- **In the end the base holds what the stack has shown.** -/
theorem live_base_flushLayers {ls : List (Layer κ V)} (h : Valid dead base ls) (k : κ) :
    live dead ((flushLayers dead ls.length (ls, base)).2 k) = live dead (look base ls k) := by
  have hempty : ∀ n, EmptyTo n (flushLayers dead n (ls, base)).1 ∧
      (flushLayers dead n (ls, base)).1.length = ls.length := by
    intro n
    induction n with
    | zero => exact ⟨trivial, rfl⟩
    | succ n ih =>
      have hstep : EmptyTo (n + 1) (flushLayers dead (n + 1) (ls, base)).1 ∧
          (flushLayers dead (n + 1) (ls, base)).1.length =
            (flushLayers dead n (ls, base)).1.length := emptyTo_flushAt ih.1
      exact ⟨hstep.1, hstep.2.trans ih.2⟩
  obtain ⟨hto, hlen⟩ := hempty ls.length
  rw [← (flushLayers_spec h ls.length).2 k, look_of_emptyTo]
  rw [hlen]
  exact hto

end LayeredCache
