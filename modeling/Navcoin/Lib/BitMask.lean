import Mathlib.Tactic.IntervalCases
import Navcoin.Lib.Codec

/-!
# Masks of flags

Flags packed eight to a byte, the first one in the lowest bit, and a reader of masks whose length
is given by the number of their bytes that are not zero.

* `unpack_pack`, `flatMap_unpack`: the flags come back;
* `roundTrip_readNonzero`: a mask that does not end in zero is read back.
-/

namespace BitMask

/-- A byte of eight flags. -/
def pack (f : Nat → Bool) : UInt8 :=
  (List.range 8).foldl (fun ch i => if f i then ch ||| (1 <<< UInt8.ofNat i) else ch) 0

def unpack (ch : UInt8) : List Bool :=
  (List.range 8).map fun p => ch &&& (1 <<< UInt8.ofNat p) != 0

/-- Eight flags are a finite matter. -/
theorem pack_cases (P : (Nat → Bool) → Prop)
    (h : ∀ a b c d e f g i : Bool, P fun n => [a, b, c, d, e, f, g, i].getD n false)
    (hcongr : ∀ f g, (∀ n < 8, f n = g n) → P f → P g) (f : Nat → Bool) : P f := by
  refine hcongr _ f ?_ (h (f 0) (f 1) (f 2) (f 3) (f 4) (f 5) (f 6) (f 7))
  intro n hn
  interval_cases n <;> rfl

theorem pack_congr {f g : Nat → Bool} (h : ∀ n < 8, f n = g n) : pack f = pack g := by
  refine List.foldl_ext _ _ _ fun ch i hi => ?_
  rw [h i (List.mem_range.mp hi)]

theorem unpack_pack (f : Nat → Bool) : unpack (pack f) = (List.range 8).map f := by
  refine pack_cases (fun f => unpack (pack f) = (List.range 8).map f) (by decide +kernel) ?_ f
  intro f g hfg hf
  rw [← pack_congr hfg, hf]
  exact List.map_congr_left fun n hn => hfg n (List.mem_range.mp hn)

theorem pack_eq_zero_iff (f : Nat → Bool) : pack f = 0 ↔ ∀ n < 8, f n = false := by
  refine pack_cases (fun f => pack f = 0 ↔ ∀ n < 8, f n = false) (by decide +kernel) ?_ f
  intro f g hfg hf
  rw [← pack_congr hfg, hf]
  exact forall_congr' fun n => ⟨fun h hn => hfg n hn ▸ h hn, fun h hn => (hfg n hn).symm ▸ h hn⟩

/-- The first `n` bytes of a sequence of flags. -/
def bytes (f : Nat → Bool) (n : Nat) : Bytes :=
  (List.range n).map fun b => pack fun i => f (b * 8 + i)

theorem flatMap_unpack (f : Nat → Bool) (n : Nat) :
    (bytes f n).flatMap unpack = (List.range (n * 8)).map f := by
  induction n with
  | zero => rfl
  | succ n ih =>
    rw [bytes, List.range_succ, List.map_append, List.flatMap_append]
    rw [bytes] at ih
    rw [ih, List.map_singleton, List.flatMap_singleton, unpack_pack, Nat.succ_mul, List.range_add,
      List.map_append]
    rfl

variable {ε : Type}

/-- Read bytes until `n` of them were not zero. -/
def readNonzero (e : ε) : Nat → Bytes → Except ε (Bytes × Bytes)
  | 0, bs => .ok ([], bs)
  | _ + 1, [] => .error e
  | n + 1, ch :: bs =>
    (readNonzero e (if ch = 0 then n + 1 else n) bs).map fun r => (ch :: r.1, r.2)

/-- **A mask that does not end in zero.** -/
theorem roundTrip_readNonzero (e : ε) {mask : Bytes} (h : mask.getLast? ≠ some 0) :
    RoundTrip (readNonzero e (mask.countP (· != 0)) : Reader ε Bytes) mask mask := by
  intro rest
  show readNonzero e _ (mask ++ rest) = _
  induction mask with
  | nil => rw [List.countP_nil, readNonzero, List.nil_append]
  | cons ch mask ih =>
    have hlast : mask.getLast? ≠ some 0 := by
      intro hzero
      rw [List.getLast?_cons, hzero] at h
      exact h rfl
    by_cases hch : ch = 0
    · subst hch
      -- a zero is never the last byte, so another one is to come
      have hpos : mask.countP (· != 0) ≠ 0 := by
        intro hnone
        rw [List.countP_eq_zero] at hnone
        cases hmask : mask.getLast? with
        | none => simp [List.getLast?_cons, hmask] at h
        | some last =>
          refine hlast ?_
          have hzero := hnone last (List.mem_of_getLast? hmask)
          simp only [bne_iff_ne, ne_eq, not_not] at hzero
          rw [hmask, hzero]
      obtain ⟨n, hn⟩ := Nat.exists_eq_succ_of_ne_zero hpos
      rw [List.countP_cons_of_neg (by simp), hn, List.cons_append, readNonzero, if_pos rfl]
      rw [hn] at ih
      rw [ih hlast]
      rfl
    · rw [List.countP_cons_of_pos (by simpa using hch), List.cons_append, readNonzero, if_neg hch,
        ih hlast]
      rfl

end BitMask
