import Navcoin.Primitives.Basic

/-!
# Compressed amounts

`CTxOutCompressor::CompressAmount` and `DecompressAmount` of `compressor.cpp`.

* `decompressAmount_compressAmount`: every amount in range is recovered;
* `compressAmount_eq_markerToken_iff`: one amount in range compresses to the marker of the
  token format, and none to the marker of the private format.
-/

namespace Navcoin

/-- The loop of `CompressAmount`: how often ten divides, at most `k` times. -/
def stripZeros : Nat → Nat → Nat × Nat
  | 0, n => (n, 0)
  | k + 1, n =>
    if n % 10 = 0 then
      let r := stripZeros k (n / 10)
      (r.1, r.2 + 1)
    else (n, 0)

/-- `CompressAmount`, on `uint64_t`. -/
def compressAmount (n : Nat) : Nat :=
  if n = 0 then 0
  else
    let r := stripZeros 9 n
    let n := r.1
    let e := r.2
    if e < 9 then (1 + (n / 10 * 9 + n % 10 - 1) * 10 + e) % 2 ^ 64
    else (1 + (n - 1) * 10 + 9) % 2 ^ 64

/-- `DecompressAmount`, on `uint64_t`. -/
def decompressAmount (x : Nat) : Nat :=
  if x = 0 then 0
  else
    let x := x - 1
    let e := x % 10
    let x := x / 10
    let n := if e < 9 then x / 9 * 10 + (x % 9 + 1) else x + 1
    n * 10 ^ e % 2 ^ 64

/-- `170000000 * COIN`: a private output follows. -/
def markerBlsct : Nat := 17000000000000000

/-- `170000000 * COIN + 1`: an output with a token or a program follows. -/
def markerToken : Nat := 17000000000000001

/-! ## Round trip -/

theorem stripZeros_spec (k n : Nat) :
    n = (stripZeros k n).1 * 10 ^ (stripZeros k n).2 ∧ (stripZeros k n).2 ≤ k ∧
      ((stripZeros k n).2 < k → (stripZeros k n).1 % 10 ≠ 0) := by
  induction k generalizing n with
  | zero => simp [stripZeros]
  | succ k ih =>
    unfold stripZeros
    split
    · next hzero =>
      obtain ⟨hvalue, hle, hlast⟩ := ih (n / 10)
      refine ⟨?_, by simpa using hle, by simpa using hlast⟩
      calc n = n / 10 * 10 := by omega
        _ = _ := by
          nth_rewrite 1 [hvalue]
          rw [pow_succ, Nat.mul_assoc]
    · next hdigit =>
      refine ⟨by simp, by omega, ?_⟩
      intro _
      exact hdigit

/-- Up to eight zeros: the last digit is stored apart from the others. -/
theorem decompressAmount_digit {m e : Nat} (he : e < 9) (hm : m % 10 ≠ 0) :
    decompressAmount (1 + (m / 10 * 9 + m % 10 - 1) * 10 + e) = m * 10 ^ e % 2 ^ 64 := by
  unfold decompressAmount
  rw [if_neg (by omega)]
  have hexp : (1 + (m / 10 * 9 + m % 10 - 1) * 10 + e - 1) % 10 = e := by omega
  have hrest : (1 + (m / 10 * 9 + m % 10 - 1) * 10 + e - 1) / 10 = m / 10 * 9 + m % 10 - 1 := by
    omega
  have hdigits :
      (m / 10 * 9 + m % 10 - 1) / 9 * 10 + ((m / 10 * 9 + m % 10 - 1) % 9 + 1) = m := by omega
  simp only [hexp, hrest, if_pos he, hdigits]

/-- Nine zeros: nothing is known of the last digit. -/
theorem decompressAmount_nine {m : Nat} (hm : m ≠ 0) :
    decompressAmount (1 + (m - 1) * 10 + 9) = m * 10 ^ 9 % 2 ^ 64 := by
  unfold decompressAmount
  rw [if_neg (by omega)]
  have hexp : (1 + (m - 1) * 10 + 9 - 1) % 10 = 9 := by omega
  have hrest : (1 + (m - 1) * 10 + 9 - 1) / 10 + 1 = m := by omega
  simp only [hexp, hrest, lt_self_iff_false, if_false]

/-- An amount in range is recovered from its compressed form. -/
theorem decompressAmount_compressAmount {n : Nat} (h : n ≤ 10 ^ 18) :
    decompressAmount (compressAmount n) = n := by
  by_cases hn : n = 0
  · subst hn
    decide
  obtain ⟨hvalue, hle, hlast⟩ := stripZeros_spec 9 n
  simp only [compressAmount, if_neg hn]
  generalize (stripZeros 9 n).1 = m at hvalue hlast ⊢
  generalize (stripZeros 9 n).2 = e at hvalue hlast hle ⊢
  have hmn : m ≤ n := by
    rw [hvalue]
    exact Nat.le_mul_of_pos_right m (Nat.pow_pos (by decide))
  have hpos : m ≠ 0 := by
    rintro rfl
    exact hn (by simpa using hvalue)
  have hback : m * 10 ^ e % 2 ^ 64 = n := by
    rw [← hvalue]
    exact Nat.mod_eq_of_lt (by omega)
  by_cases hlt : e < 9
  · rw [if_pos hlt, Nat.mod_eq_of_lt (by omega), decompressAmount_digit hlt (hlast hlt), hback]
  · obtain rfl : e = 9 := by omega
    rw [if_neg hlt, Nat.mod_eq_of_lt (by omega), decompressAmount_nine hpos, hback]

theorem compressAmount_lt (n : Nat) : compressAmount n < 2 ^ 64 := by
  simp only [compressAmount]
  split
  · decide
  · split <;> exact Nat.mod_lt _ (by decide)

/-- The integer of the size of a script stands for an amount in range, and not for the one that
looks like a marker, which does not end in a zero. -/
theorem decompressAmount_of_lt {x : Nat} (h : x < 2 ^ 32) :
    decompressAmount x ≤ 10 ^ 18 ∧ decompressAmount x ≠ 1888888888888889 := by
  simp only [decompressAmount]
  split
  · decide
  · have hsmall : (if (x - 1) % 10 < 9 then (x - 1) / 10 / 9 * 10 + ((x - 1) / 10 % 9 + 1)
        else (x - 1) / 10 + 1) ≤ 10 ^ 9 := by
      split <;> omega
    generalize (if (x - 1) % 10 < 9 then (x - 1) / 10 / 9 * 10 + ((x - 1) / 10 % 9 + 1)
        else (x - 1) / 10 + 1) = n at hsmall ⊢
    have hexp : (x - 1) % 10 ≤ 9 := by omega
    generalize (x - 1) % 10 = e at hexp ⊢
    have hle : n * 10 ^ e ≤ 10 ^ 9 * 10 ^ 9 :=
      Nat.mul_le_mul hsmall (Nat.pow_le_pow_right (by decide) hexp)
    refine ⟨by omega, ?_⟩
    cases e with
    | zero => omega
    | succ e =>
      rw [pow_succ, ← Nat.mul_assoc]
      omega

/-! ## Markers -/

theorem compressAmount_ne_markerBlsct {n : Nat} (h : n ≤ 10 ^ 18) :
    compressAmount n ≠ markerBlsct := by
  intro heq
  have hback := decompressAmount_compressAmount h
  have hmarker : decompressAmount markerBlsct = 3406399148851724288 := by decide +kernel
  rw [heq] at hback
  omega

/-- **The amount that looks like a token output.** -/
theorem compressAmount_eq_markerToken_iff {n : Nat} (h : n ≤ 10 ^ 18) :
    compressAmount n = markerToken ↔ n = 1888888888888889 := by
  constructor
  · intro heq
    have hback := decompressAmount_compressAmount h
    rw [heq] at hback
    exact hback.symm
  · rintro rfl
    decide +kernel

end Navcoin
