import Mathlib.Algebra.BigOperators.Group.List.Basic
import Mathlib.Algebra.Module.ZMod
import Mathlib.Tactic.Ring

/-!
# Signed quantities of assets and the group elements that stand for them

A list of pairs of an asset and a signed quantity is represented in a group by the
combination of one generator per asset.  When the generators are independent of each
other and of a blinding generator, an element that opens to the blinding generator
alone forces the net quantity of every asset to vanish modulo the group order.
-/

namespace AssetFlow

variable {ι G : Type} [AddCommGroup G]

/-- The combination of generators that a list of flows stands for. -/
def element (H : ι → G) (flows : List (ι × ℤ)) : G := (flows.map fun f => f.2 • H f.1).sum

/-- The net quantity of one asset. -/
def net [DecidableEq ι] (flows : List (ι × ℤ)) (i : ι) : ℤ :=
  (flows.map fun f => if f.1 = i then f.2 else 0).sum

/-- No combination of the generators is a multiple of `B`, except those whose net
coefficients are all divisible by the order `q`. -/
def Independent [DecidableEq ι] (q : ℕ) (H : ι → G) (B : G) : Prop :=
  ∀ (flows : List (ι × ℤ)) (x : ℤ), element H flows = x • B → ∀ i, (q : ℤ) ∣ net flows i

@[simp] theorem element_nil (H : ι → G) : element H [] = 0 := rfl

@[simp] theorem element_cons (H : ι → G) (f : ι × ℤ) (l : List (ι × ℤ)) :
    element H (f :: l) = f.2 • H f.1 + element H l := by
  simp [element]

@[simp] theorem element_append (H : ι → G) (l l' : List (ι × ℤ)) :
    element H (l ++ l') = element H l + element H l' := by
  simp [element]

@[simp] theorem net_nil [DecidableEq ι] (i : ι) : net [] i = 0 := rfl

@[simp] theorem net_cons [DecidableEq ι] (f : ι × ℤ) (l : List (ι × ℤ)) (i : ι) :
    net (f :: l) i = (if f.1 = i then f.2 else 0) + net l i := by
  simp [net]

@[simp] theorem net_append [DecidableEq ι] (l l' : List (ι × ℤ)) (i : ι) :
    net (l ++ l') i = net l i + net l' i := by
  simp [net]

/-- With a single asset its net quantity is the total, and every other one is zero. -/
theorem net_of_single [DecidableEq ι] {l : List (ι × ℤ)} {x : ι} (h : ∀ f ∈ l, f.1 = x)
    (i : ι) : net l i = if x = i then (l.map Prod.snd).sum else 0 := by
  induction l with
  | nil => simp
  | cons f l ih =>
    obtain ⟨hf, hl⟩ := List.forall_mem_cons.mp h
    rw [net_cons, ih hl, hf]
    by_cases hi : x = i
    · simp [hi]
    · simp [hi]

end AssetFlow
