import Mathlib.Algebra.BigOperators.Group.List.Basic
import Mathlib.Data.Nat.Cast.Basic
import Navcoin.Lib.Traced

/-!
# What a routine does to memory

A routine over vectors is recorded as the list of its indexed accesses, its shifts and the
elements it allocates.  It is safe when every access is within its vector and no shift is as
wide as its type.

* `safe_append`, `safe_bind`, `safe_map`, `safe_flatMap`: safety of a sequence and of a loop;
* `allocated_append`, `allocated_bind_le`, `allocated_flatMap`, `allocated_foldlM_le`: the
  elements allocated;
* `result_foldlM_tested`, `safe_foldlM_tested`: a loop that returns at the first bad element.
-/

namespace Memory

inductive Event where
  /-- element `index` of a vector of `size` elements is read or written -/
  | access (index size : Nat)
  /-- an integer of `width` bits is shifted by `amount` -/
  | shift (amount width : Nat)
  /-- room for `count` elements is allocated -/
  | alloc (count : Nat)
  deriving DecidableEq, Repr

namespace Event

def Safe : Event → Prop
  | access index size => index < size
  | shift amount width => amount < width
  | alloc _ => True

def count : Event → Nat
  | alloc n => n
  | _ => 0

instance : DecidablePred Safe
  | access index size => inferInstanceAs (Decidable (index < size))
  | shift amount width => inferInstanceAs (Decidable (amount < width))
  | alloc _ => inferInstanceAs (Decidable True)

@[simp] theorem safe_access (i n : Nat) : (access i n).Safe ↔ i < n := Iff.rfl
@[simp] theorem safe_shift (a w : Nat) : (shift a w).Safe ↔ a < w := Iff.rfl
@[simp] theorem safe_alloc (n : Nat) : (alloc n).Safe := trivial
@[simp] theorem count_access (i n : Nat) : (access i n).count = 0 := rfl
@[simp] theorem count_shift (a w : Nat) : (shift a w).count = 0 := rfl
@[simp] theorem count_alloc (n : Nat) : (alloc n).count = n := rfl

end Event

/-! ## Lists of events -/

/-- Every event is safe. -/
def Safe (l : List Event) : Prop := ∀ w ∈ l, w.Safe

instance (l : List Event) : Decidable (Safe l) := inferInstanceAs (Decidable (∀ w ∈ l, w.Safe))

/-- The number of elements allocated. -/
def allocated (l : List Event) : Nat := (l.map Event.count).sum

@[simp] theorem safe_nil : Safe [] := by simp [Safe]

@[simp] theorem safe_cons (w : Event) (l : List Event) : Safe (w :: l) ↔ w.Safe ∧ Safe l := by
  simp [Safe]

@[simp] theorem safe_append (l l' : List Event) : Safe (l ++ l') ↔ Safe l ∧ Safe l' := by
  simp [Safe, or_imp, forall_and]

@[simp] theorem safe_flatMap {α : Type} (l : List α) (f : α → List Event) :
    Safe (l.flatMap f) ↔ ∀ a ∈ l, Safe (f a) := by
  constructor
  · intro h a ha w hw
    exact h w (List.mem_flatMap.mpr ⟨a, ha, hw⟩)
  · intro h w hw
    obtain ⟨a, ha, hw⟩ := List.mem_flatMap.mp hw
    exact h a ha w hw

@[simp] theorem safe_map {α : Type} (l : List α) (f : α → Event) :
    Safe (l.map f) ↔ ∀ a ∈ l, (f a).Safe := by
  simp [Safe]

/-- Only what is reached has to be safe. -/
theorem safe_bind {ε α β : Type} (x : Traced Event ε α) (f : α → Traced Event ε β) :
    Safe (x >>= f).trace ↔ Safe x.trace ∧ ∀ a, x.result = .ok a → Safe (f a).trace := by
  simp only [Safe, Traced.mem_trace_bind, or_imp, forall_and, forall_exists_index, and_imp]
  exact and_congr_right fun _ => ⟨fun h a ha w => h w a ha, fun h w a ha => h a ha w⟩

@[simp] theorem allocated_nil : allocated [] = 0 := rfl

@[simp] theorem allocated_cons (w : Event) (l : List Event) :
    allocated (w :: l) = w.count + allocated l := by
  simp [allocated]

@[simp] theorem allocated_append (l l' : List Event) :
    allocated (l ++ l') = allocated l + allocated l' := by
  simp [allocated]

@[simp] theorem allocated_flatMap {α : Type} (l : List α) (f : α → List Event) :
    allocated (l.flatMap f) = (l.map fun a => allocated (f a)).sum := by
  induction l with
  | nil => rfl
  | cons a l ih => simp [ih]

@[simp] theorem allocated_map {α : Type} (l : List α) (f : α → Event) :
    allocated (l.map f) = (l.map fun a => (f a).count).sum := by
  simp [allocated, Function.comp_def]

theorem allocated_bind_le {ε α β : Type} {x : Traced Event ε α} {f : α → Traced Event ε β}
    {a b : Nat} (hx : allocated x.trace ≤ a)
    (hf : ∀ v, x.result = .ok v → allocated (f v).trace ≤ b) :
    allocated (x >>= f).trace ≤ a + b := by
  cases h : x.result with
  | error e =>
    rw [Traced.trace_bind_of_error h]
    omega
  | ok v =>
    have hv := hf v h
    rw [Traced.trace_bind_of_ok h, allocated_append]
    omega

/-- A loop allocates at most as often what one round does. -/
theorem allocated_foldlM_le {ε α σ : Type} {f : σ → α → Traced Event ε σ} {l : List α} {b : Nat}
    (h : ∀ s, ∀ a ∈ l, allocated (f s a).trace ≤ b) :
    ∀ s, allocated (l.foldlM f s).trace ≤ b * l.length := by
  induction l with
  | nil => simp
  | cons a l ih =>
    intro s
    have hrest := ih fun s a ha => h s a (List.mem_cons_of_mem _ ha)
    rw [List.length_cons, Nat.mul_succ, Nat.add_comm]
    exact allocated_bind_le (h s a List.mem_cons_self) fun v _ => hrest v

/-! ## A loop that returns at the first element that fails a test -/

section Tested

variable {ε α σ : Type} {f : σ → α → Traced Event ε σ} {next : σ → α → σ} {test : α → Bool}
  {e : ε} {I : List α → σ → Prop}
variable (hnext : ∀ a l s, I (a :: l) s → test a = true → I l (next s a))
  (hok : ∀ a l s, I (a :: l) s → test a = true → (f s a).result = .ok (next s a))
  (herror : ∀ a l s, I (a :: l) s → test a = false → (f s a).result = .error e)

include hnext hok herror

theorem result_foldlM_tested (l : List α) : ∀ s, I l s →
    (l.foldlM f s).result =
      if ∀ a ∈ l, test a = true then .ok (l.foldl next s) else .error e := by
  induction l with
  | nil => simp
  | cons a l ih =>
    intro s hs
    cases h : test a with
    | false => simp [herror a l s hs h, h, bind]
    | true => simp [hok a l s hs h, h, bind, ih _ (hnext a l s hs h)]

/-- Only the elements before the first that fails, and its test, have to be safe. -/
theorem safe_foldlM_tested {P : α → Prop}
    (htrue : ∀ a l s, I (a :: l) s → test a = true → (Safe (f s a).trace ↔ P a))
    (hfalse : ∀ a l s, I (a :: l) s → test a = false → Safe (f s a).trace) (l : List α) :
    ∀ s, I l s → (Safe (l.foldlM f s).trace ↔ ∀ a ∈ l.takeWhile test, P a) := by
  induction l with
  | nil => simp
  | cons a l ih =>
    intro s hs
    rw [List.foldlM_cons, safe_bind, List.takeWhile_cons]
    cases h : test a with
    | false => simp [herror a l s hs h, hfalse a l s hs h]
    | true => simp [hok a l s hs h, htrue a l s hs h, ih _ (hnext a l s hs h)]

end Tested

end Memory
