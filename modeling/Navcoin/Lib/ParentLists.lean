import Mathlib.Data.List.Nodup
import Mathlib.Logic.Function.Basic

/-!
# Parents that list their children

Two partial maps: every parent has a list of children, and every child names its parent.

* `ParentLists`: each list has exactly the children that name the parent, once;
* `addParent`, `addChild`, `removeChild`, `removeParent`: what an update of the maps needs.
-/

namespace Navcoin

variable {κ α : Type*}

/-- The list of a parent has each child that names it once, and no other; a child names a parent
that is there. -/
structure ParentLists (lists : κ → Option (List α)) (parent : α → Option κ) : Prop where
  nodup : ∀ {k l}, lists k = some l → l.Nodup
  mem_iff : ∀ {k l}, lists k = some l → ∀ a, a ∈ l ↔ parent a = some k
  listed : ∀ {a k}, parent a = some k → ∃ l, lists k = some l

namespace ParentLists

variable {lists : κ → Option (List α)} {parent : α → Option κ} {k : κ} {l : List α} {a : α}

theorem empty : ParentLists (fun _ : κ => (none : Option (List α))) fun _ => none :=
  ⟨nofun, nofun, nofun⟩

theorem mem_list (h : ParentLists lists parent) (ha : parent a = some k) :
    ∃ l, lists k = some l ∧ a ∈ l := by
  obtain ⟨l, hl⟩ := h.listed ha
  exact ⟨l, hl, (h.mem_iff hl a).mpr ha⟩

variable [DecidableEq κ]

/-- A parent without children may be set to the empty list. -/
theorem addParent (h : ParentLists lists parent) (hk : ∀ a, parent a ≠ some k) :
    ParentLists (Function.update lists k (some [])) parent := by
  grind [ParentLists, Function.update_apply]

theorem removeParent (h : ParentLists lists parent) (hk : lists k = some []) :
    ParentLists (Function.update lists k none) parent := by
  have hnone : ∀ a, parent a ≠ some k := fun a ha => List.not_mem_nil ((h.mem_iff hk a).mpr ha)
  grind [ParentLists, Function.update_apply]

variable [DecidableEq α]

theorem addChild (h : ParentLists lists parent) (hk : lists k = some l) (ha : parent a = none) :
    ParentLists (Function.update lists k (some (l ++ [a])))
      (Function.update parent a (some k)) := by
  grind [ParentLists, Function.update_apply, List.nodup_append]

theorem removeChild (h : ParentLists lists parent) (hk : lists k = some l)
    (ha : parent a = some k) :
    ParentLists (Function.update lists k (some (l.erase a))) (Function.update parent a none) := by
  grind [ParentLists, Function.update_apply, List.Nodup.mem_erase_iff, List.Nodup.erase]

end ParentLists

end Navcoin
