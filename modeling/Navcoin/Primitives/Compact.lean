import Mathlib.Data.Nat.Bitwise
import Mathlib.Data.Nat.Size
import Navcoin.Primitives.Basic

/-!
# Targets in compact form

`GetCompact` and `SetCompact` of `arith_uint256.cpp`: a number of 256 bits as one byte for its size
and three for its highest digits, the first bit of which is a sign.

* `getCompact_eq`: the size and the digits that `GetCompact` writes;
* `setCompact_eq`: the lower digits are lost on the way back;
* `compact_truncates`: what that means for the numbers and their order.
-/

namespace Navcoin

/-- The significant bytes of a number. -/
def bytesOf (n : Nat) : Nat := (n.size + 7) / 8

/-- `GetLow64` -/
def getLow64 (x : Uint256) : Nat := x.toNat % 2 ^ 64

/-- The digits that `GetCompact` takes of a number of `nSize` bytes. -/
def highDigits (x : Uint256) (nSize : Nat) : Nat :=
  if nSize ≤ 3 then getLow64 x <<< (8 * (3 - nSize)) % 2 ^ 32
  else getLow64 (x >>> (8 * (nSize - 3))) % 2 ^ 32

/-- The digits and the size, when the first digit leaves no room for the sign. -/
def roomForSign (nCompact nSize : Nat) : Nat × Nat :=
  if nCompact &&& 0x00800000 ≠ 0 then (nCompact >>> 8, nSize + 1) else (nCompact, nSize)

/-- `GetCompact`, where `none` is a failed assertion.  The result is a `uint32_t`. -/
def getCompact (x : Uint256) (fNegative : Bool) : Option Nat :=
  let nSize := bytesOf x.toNat
  let (nCompact, nSize) := roomForSign (highDigits x nSize) nSize
  if nCompact &&& 0xff800000 = 0 ∧ nSize < 256 then
    let nCompact := nCompact ||| nSize <<< 24
    some (nCompact ||| if fNegative ∧ nCompact &&& 0x007fffff ≠ 0 then 0x00800000 else 0)
  else none

/-- What `SetCompact` leaves in the number and in the flags. -/
structure FromCompact where
  value : Uint256
  fNegative : Bool
  fOverflow : Bool

def setCompact (nCompact : Nat) : FromCompact :=
  let nSize := nCompact >>> 24
  let nWord := nCompact &&& 0x007fffff
  let nWord := if nSize ≤ 3 then nWord >>> (8 * (3 - nSize)) else nWord
  { value :=
      if nSize ≤ 3 then BitVec.ofNat 256 nWord else BitVec.ofNat 256 nWord <<< (8 * (nSize - 3))
    fNegative := nWord ≠ 0 ∧ nCompact &&& 0x00800000 ≠ 0
    fOverflow := nWord ≠ 0 ∧
      (nSize > 34 ∨ nWord > 0xff ∧ nSize > 33 ∨ nWord > 0xffff ∧ nSize > 32) }

theorem bytesOf_le {n s : Nat} : bytesOf n ≤ s ↔ n < 2 ^ (8 * s) := by
  rw [← Nat.size_le, bytesOf]
  omega

/-! ## The digits -/

/-- The three highest of the `s` bytes of a number. -/
def word (s n : Nat) : Nat := n * 2 ^ 24 / 2 ^ (8 * s)

section Word

variable {s n : Nat}

theorem word_of_le (h : s ≤ 3) : word s n = n * 2 ^ (8 * (3 - s)) := by
  rw [word, show 24 = 8 * s + 8 * (3 - s) by omega, pow_add, mul_left_comm,
    Nat.mul_div_cancel_left _ (by positivity)]

theorem word_of_ge (h : 3 ≤ s) : word s n = n / 2 ^ (8 * (s - 3)) := by
  rw [word, show 8 * s = 8 * (s - 3) + 24 by omega, pow_add,
    Nat.mul_div_mul_right _ _ (by positivity)]

theorem word_succ : word (s + 1) n = word s n / 2 ^ 8 := by
  rw [word, word, Nat.mul_succ, pow_add, ← Nat.div_div_eq_div_mul]

theorem word_lt (h : n < 2 ^ (8 * s)) : word s n < 2 ^ 24 :=
  Nat.div_lt_of_lt_mul (by omega)

theorem half_le_word : 2 ^ 23 ≤ word s n ↔ 2 ^ (8 * s) ≤ 2 * n := by
  rw [word, Nat.le_div_iff_mul_le (by positivity)]
  omega

theorem signBit_eq_zero_iff (w : Nat) : w &&& 0x00800000 = 0 ↔ w / 2 ^ 23 % 2 = 0 := by
  have hbit : w &&& 0x00800000 = (w.testBit 23).toNat * 2 ^ 23 := Nat.and_two_pow w 23
  rw [hbit, Nat.testBit_eq_decide_div_mod_eq]
  simp

theorem and_mask {w : Nat} (h : w < 2 ^ 23) : w &&& 0xff800000 = 0 := by
  rw [← Nat.mod_eq_of_lt h, ← Nat.and_two_pow_sub_one_eq_mod, Nat.and_assoc]
  exact Nat.and_zero w

end Word

/-- The bytes of a number, with room for a sign. -/
def compactSize (x : Uint256) : Nat := bytesOf (2 * x.toNat)

variable (x : Uint256)

theorem compactSize_le : compactSize x ≤ 33 :=
  bytesOf_le.mpr (by have := x.isLt; omega)

theorem compactWord_lt : word (compactSize x) x.toNat < 2 ^ 23 :=
  not_le.mp (half_le_word.not.mpr (not_le.mpr (bytesOf_le.mp le_rfl)))

theorem highDigits_eq : highDigits x (bytesOf x.toNat) = word (bytesOf x.toNat) x.toNat := by
  have hword := word_lt (bytesOf_le.mp (le_refl (bytesOf x.toNat)))
  unfold highDigits
  split
  · next hs =>
    have hsmall := bytesOf_le.mp hs
    rw [word_of_le hs] at hword ⊢
    rw [getLow64, Nat.mod_eq_of_lt (a := x.toNat) (by omega), Nat.shiftLeft_eq,
      Nat.mod_eq_of_lt (by omega)]
  · next hs =>
    rw [word_of_ge (by omega)] at hword ⊢
    rw [getLow64, BitVec.toNat_ushiftRight, Nat.shiftRight_eq_div_pow,
      Nat.mod_mod_of_dvd _ (by decide), Nat.mod_eq_of_lt (by omega)]

/-- The size grows by one exactly when the highest bit is in use. -/
theorem roomForSign_eq : roomForSign (highDigits x (bytesOf x.toNat)) (bytesOf x.toNat) =
    (word (compactSize x) x.toNat, compactSize x) := by
  rw [highDigits_eq, roomForSign]
  have hlt := bytesOf_le.mp (le_refl (bytesOf x.toNat))
  have hword := word_lt hlt
  by_cases hfull : 2 ^ (8 * bytesOf x.toNat) ≤ 2 * x.toNat
  · have hsize : compactSize x = bytesOf x.toNat + 1 := by
      refine le_antisymm (bytesOf_le.mpr ?_) (Nat.succ_le_of_lt (not_le.mp fun h => ?_))
      · rw [Nat.mul_succ, pow_add]
        omega
      · exact hfull.not_gt (bytesOf_le.mp h)
    have hbit := half_le_word.mpr hfull
    rw [if_pos (by rw [ne_eq, signBit_eq_zero_iff]; omega), hsize, word_succ,
      Nat.shiftRight_eq_div_pow]
  · have hsize : compactSize x = bytesOf x.toNat := by
      refine le_antisymm (bytesOf_le.mpr (not_le.mp hfull)) (bytesOf_le.mpr ?_)
      exact (Nat.le_mul_of_pos_left _ two_pos).trans_lt (bytesOf_le.mp le_rfl)
    have hbit := half_le_word.not.mpr hfull
    rw [if_neg (by rw [ne_eq, not_not, signBit_eq_zero_iff]; omega), hsize]

theorem getCompact_eq :
    getCompact x false = some (word (compactSize x) x.toNat ||| compactSize x <<< 24) := by
  have hsize := compactSize_le x
  simp only [getCompact, roomForSign_eq]
  rw [if_pos ⟨and_mask (compactWord_lt x), by omega⟩]
  simp

/-! ## The way back -/

/-- The number without the digits that are lost. -/
def truncated : Uint256 := x >>> (8 * (compactSize x - 3)) <<< (8 * (compactSize x - 3))

theorem toNat_truncated : (truncated x).toNat =
    x.toNat / 2 ^ (8 * (compactSize x - 3)) * 2 ^ (8 * (compactSize x - 3)) := by
  rw [truncated, BitVec.toNat_shiftLeft, BitVec.toNat_ushiftRight, Nat.shiftRight_eq_div_pow,
    Nat.shiftLeft_eq, Nat.mod_eq_of_lt ((Nat.div_mul_le_self _ _).trans_lt x.isLt)]

theorem truncated_le : (truncated x).toNat ≤ x.toNat := by
  rw [toNat_truncated]
  exact Nat.div_mul_le_self _ _

theorem truncated_of_le (h : compactSize x ≤ 3) : truncated x = x := by
  simp [truncated, Nat.sub_eq_zero_of_le h]

/-- The parts of a number in compact form. -/
theorem compact_parts {w k : Nat} (h : w < 2 ^ 23) : (w ||| k <<< 24) >>> 24 = k ∧
    (w ||| k <<< 24) &&& 0x007fffff = w ∧ (w ||| k <<< 24) &&& 0x00800000 = 0 := by
  rw [signBit_eq_zero_iff, Nat.and_two_pow_sub_one_eq_mod _ 23, Nat.or_comm,
    ← Nat.shiftLeft_add_eq_or_of_lt (by omega)]
  omega

theorem setCompact_eq :
    setCompact (word (compactSize x) x.toNat ||| compactSize x <<< 24) =
      ⟨truncated x, false, false⟩ := by
  have hle := compactSize_le x
  obtain ⟨hsize, hdigits, hsign⟩ := compact_parts (k := compactSize x) (compactWord_lt x)
  simp only [setCompact, hsize, hdigits, hsign]
  by_cases hs : compactSize x ≤ 3
  · have hvalue : word (compactSize x) x.toNat >>> (8 * (3 - compactSize x)) = x.toNat := by
      rw [word_of_le hs, Nat.shiftRight_eq_div_pow, Nat.mul_div_cancel _ (by positivity)]
    simp [hs, hvalue, truncated_of_le]
    omega
  · have hvalue : BitVec.ofNat 256 (word (compactSize x) x.toNat) =
        x >>> (8 * (compactSize x - 3)) := by
      rw [word_of_ge (by omega), ← Nat.shiftRight_eq_div_pow, ← BitVec.toNat_ushiftRight,
        BitVec.ofNat_toNat, BitVec.setWidth_eq]
    have hhigh : compactSize x = 33 → word (compactSize x) x.toNat ≤ 0xffff := by
      intro h
      rw [h, word]
      omega
    simp [hs, truncated, hvalue]
    omega

/-- The highest digit is kept. -/
theorem le_truncated (h : 0 < compactSize x) :
    2 ^ (8 * (compactSize x - 1)) ≤ 2 * (truncated x).toNat := by
  have hle : 2 ^ (8 * (compactSize x - 1)) ≤ 2 * x.toNat :=
    not_lt.mp (bytesOf_le.not.mp (not_le.mpr (Nat.sub_lt h one_pos)))
  by_cases hs : compactSize x ≤ 3
  · rwa [truncated_of_le x hs]
  · have hpow : 8 * (compactSize x - 1) = 8 * (compactSize x - 3) + 15 + 1 := by omega
    rw [toNat_truncated]
    rw [hpow, pow_succ, pow_add, mul_comm, mul_comm _ (2 ^ 15)] at hle ⊢
    refine Nat.mul_le_mul_left 2 (Nat.mul_le_mul_right _ ?_)
    exact (Nat.le_div_iff_mul_le (by positivity)).mpr (by omega)

theorem compactSize_truncated : compactSize (truncated x) = compactSize x := by
  refine le_antisymm (bytesOf_le.mpr ?_) ?_
  · exact (Nat.mul_le_mul_left 2 (truncated_le x)).trans_lt (bytesOf_le.mp le_rfl)
  · by_contra hlt
    exact (le_truncated x (by omega)).not_gt (bytesOf_le.mp (by rw [← compactSize]; omega))

theorem word_truncated :
    word (compactSize x) (truncated x).toNat = word (compactSize x) x.toNat := by
  by_cases hs : compactSize x ≤ 3
  · rw [truncated_of_le x hs]
  · rw [word_of_ge (by omega), word_of_ge (by omega), toNat_truncated,
      Nat.mul_div_cancel _ (by positivity)]

theorem truncated_mono {x y : Uint256} (h : x ≤ y) : truncated x ≤ truncated y := by
  have hx : 2 * x.toNat < 2 ^ (8 * compactSize x) := bytesOf_le.mp le_rfl
  have hle : compactSize x ≤ compactSize y :=
    bytesOf_le.mpr ((Nat.mul_le_mul_left 2 h).trans_lt (bytesOf_le.mp le_rfl))
  rw [BitVec.le_def]
  obtain hlt | heq := hle.lt_or_eq
  · have hpow : 2 ^ (8 * compactSize x) ≤ 2 ^ (8 * (compactSize y - 1)) :=
      Nat.pow_le_pow_right two_pos (by omega)
    have hy := le_truncated y (by omega)
    have := truncated_le x
    omega
  · rw [toNat_truncated, toNat_truncated, heq]
    exact Nat.mul_le_mul_right _ (Nat.div_le_div_right h)

/-- **The compact form** of a number decodes to the number without its lower digits, with both flags
clear, and what was decoded has the same form; the order of numbers is kept.  A number of at
most three bytes loses nothing. -/
theorem compact_truncates :
    (∀ x : Uint256, ∃ nCompact, getCompact x false = some nCompact ∧
      (setCompact nCompact).value ≤ x ∧
      x.toNat - (setCompact nCompact).value.toNat < 2 ^ (8 * (compactSize x - 3)) ∧
      (setCompact nCompact).fNegative = false ∧ (setCompact nCompact).fOverflow = false ∧
      getCompact (setCompact nCompact).value false = some nCompact) ∧
    ∀ x y : Uint256, x ≤ y → ∃ nCompact nCompact', getCompact x false = some nCompact ∧
      getCompact y false = some nCompact' ∧
      (setCompact nCompact).value ≤ (setCompact nCompact').value := by
  constructor
  · intro x
    refine ⟨_, getCompact_eq x, ?_⟩
    rw [setCompact_eq, getCompact_eq, compactSize_truncated, word_truncated]
    refine ⟨truncated_le x, ?_, rfl, rfl, rfl⟩
    rw [toNat_truncated, ← Nat.mod_eq_sub_div_mul]
    exact Nat.mod_lt _ (by positivity)
  · intro x y h
    refine ⟨_, _, getCompact_eq x, getCompact_eq y, ?_⟩
    rw [setCompact_eq, setCompact_eq]
    exact truncated_mono h

end Navcoin
