import Mathlib.NumberTheory.LucasPrimality
import Mathlib.Tactic.NormNum.Prime
import Mathlib.Tactic.ReduceModChar
import Navcoin.Primitives.Basic

/-!
# The inverse of a scalar

`fp_inv_exgcd_bn` and `Scalar::Invert` of `blsct/scalar.cpp`, with the numbers of the curve library
as integers.

* `groupOrder_prime`: the order of the group is prime;
* `InverseStep.next`: what a round of the loop keeps;
* `fpInvExgcdLoop_ok`: the loop ends with the inverse, up to its sign;
* `invert_inverse`: so do the two functions.
-/

namespace Navcoin

/-! ## The order of the group -/

/-- The primes that divide the order minus one. -/
def orderFactors : List Nat :=
  [2, 3, 11, 19, 10177, 125527, 859267, 906349, 2508409, 2529403, 52437899, 254760293]

theorem groupOrder_prime : groupOrder.Prime := by
  have hfactors : groupOrder - 1 ∣ orderFactors.prod ^ 32 := by decide +kernel
  have hall : ∀ a ∈ orderFactors,
      a.Prime ∧ (7 : ZMod groupOrder) ^ ((groupOrder - 1) / a) ≠ 1 := by
    unfold groupOrder orderFactors
    norm_num [List.forall_mem_cons]
    and_intros <;> reduce_mod_char <;> decide
  apply lucas_primality _ 7
  · unfold groupOrder
    norm_num
    reduce_mod_char
  · intro q hq hdvd
    obtain ⟨a, ha, hqa⟩ := hq.prime.dvd_prod_iff.mp (hq.dvd_of_dvd_pow (hdvd.trans hfactors))
    rw [(Nat.prime_dvd_prime_iff_eq hq (hall a ha).1).mp hqa]
    exact (hall a ha).2

/-! ## The loop -/

/-- The loop of `fp_inv_exgcd_bn`, which ends with `u = 1`.  A remainder of zero would be divided
by in the next round. -/
def fpInvExgcdLoop (u v : Nat) (g1 g2 : Int) : Option Int :=
  if u = 1 then some g1
  else if _h : u = 0 then none
  else fpInvExgcdLoop (v % u) u (g2 - (v / u : Nat) * g1) g1
termination_by u
decreasing_by exact Nat.mod_lt v (Nat.pos_of_ne_zero _h)

def fpInvExgcdBn (u p : Nat) : Option Int :=
  (fpInvExgcdLoop u p 1 0).map fun g1 => if g1 < 0 then g1 + p else g1

/-- Coprime remainders, each a multiple of the number to be inverted, with factors whose signs
alternate. -/
structure InverseStep (n p u v : Nat) (g1 g2 : Int) : Prop where
  pos : 0 < u
  lt : u < v
  coprime : v.Coprime u
  left : g1 * n ≡ u [ZMOD p]
  right : g2 * n ≡ v [ZMOD p]
  factors : ∃ a b : Nat, a * v + b * u = p ∧ (g1 = a ∧ g2 = -b ∨ g1 = -a ∧ g2 = b)

theorem InverseStep.next {n p u v : Nat} {g1 g2 : Int} (h : InverseStep n p u v g1 g2)
    (hne : u ≠ 1) : InverseStep n p (v % u) u (g2 - (v / u : Nat) * g1) g1 := by
  have hdiv := Nat.div_add_mod v u
  have hcoprime : u.Coprime (v % u) := by
    rw [Nat.Coprime, Nat.gcd_comm, ← Nat.gcd_rec, Nat.gcd_comm]
    exact h.coprime
  have hpos : 0 < v % u := by
    by_contra hzero
    rw [Nat.eq_zero_of_not_pos hzero, Nat.coprime_zero_right] at hcoprime
    exact hne hcoprime
  refine ⟨hpos, Nat.mod_lt v h.pos, hcoprime, ?_, h.left, ?_⟩
  · have hmod : ((v % u : Nat) : Int) = v - (v / u : Nat) * u := by
      rw [eq_sub_iff_add_eq, add_comm, mul_comm]
      exact_mod_cast hdiv
    rw [hmod, sub_mul, mul_assoc]
    exact h.right.sub (h.left.mul_left _)
  · obtain ⟨a, b, hsum, hsigns⟩ := h.factors
    refine ⟨b + v / u * a, a, ?_, ?_⟩
    · nth_rewrite 1 [← hdiv] at hsum
      linarith
    · rcases hsigns with ⟨rfl, rfl⟩ | ⟨rfl, rfl⟩
      · exact .inr ⟨by push_cast; ring, rfl⟩
      · exact .inl ⟨by push_cast; ring, rfl⟩

/-- **The loop ends** with a factor that is the inverse, less than the modulus in size. -/
theorem fpInvExgcdLoop_ok {n p u v : Nat} {g1 g2 : Int} (hp : 0 < p)
    (h : InverseStep n p u v g1 g2) :
    ∃ g, fpInvExgcdLoop u v g1 g2 = some g ∧ g * n ≡ 1 [ZMOD p] ∧ -p < g ∧ g < p := by
  induction u using Nat.strongRecOn generalizing v g1 g2 with
  | ind u ih =>
    rw [fpInvExgcdLoop]
    split
    · next hu =>
      subst hu
      obtain ⟨a, b, hsum, hsigns⟩ := h.factors
      have hlt : a < p := by nlinarith [h.lt]
      exact ⟨g1, rfl, h.left, by omega, by omega⟩
    · next hu =>
      rw [dif_neg h.pos.ne']
      exact ih (v % u) (Nat.mod_lt v h.pos) (h.next hu)

/-! ## The functions -/

/-- `v` is the inverse of `u` modulo `p`, in its least positive form. -/
structure IsInverse (p u v : Nat) : Prop where
  pos : 0 < v
  lt : v < p
  mul : u * v ≡ 1 [MOD p]

theorem IsInverse.unique {p u v w : Nat} (h : IsInverse p u v) (hw : IsInverse p u w)
    (hcoprime : p.Coprime u) : w = v :=
  (Nat.ModEq.cancel_left_of_coprime hcoprime (hw.mul.trans h.mul.symm)).eq_of_lt_of_lt hw.lt h.lt

theorem fpInvExgcdBn_ok {p u : Nat} (hpos : 0 < u) (hlt : u < p) (hcoprime : p.Coprime u) :
    ∃ v : Nat, fpInvExgcdBn u p = some (v : Int) ∧ IsInverse p u v := by
  obtain ⟨g, hg, hone, hlow, hhigh⟩ := fpInvExgcdLoop_ok (hpos.trans hlt)
    (⟨hpos, hlt, hcoprime, by simp, by simp [Int.ModEq], 1, 0, by simp, by simp⟩ :
      InverseStep u p u p 1 0)
  obtain ⟨v, hv⟩ : ∃ v : Nat, (if g < 0 then g + p else g) = v :=
    Int.eq_ofNat_of_zero_le (by split <;> omega)
  have hsame : (v : Int) ≡ g [ZMOD p] := by
    rw [← hv]
    split <;> simp [Int.ModEq]
  have hmul : u * v ≡ 1 [MOD p] := by
    rw [← Int.natCast_modEq_iff, mul_comm]
    push_cast
    exact (hsame.mul_right u).trans hone
  refine ⟨v, ?_, ?_, by omega, hmul⟩
  · rw [fpInvExgcdBn, hg, Option.map_some, hv]
  · refine Nat.pos_of_ne_zero fun hzero => ?_
    rw [hzero, mul_zero] at hmul
    have := Nat.dvd_one.mp (Nat.modEq_zero_iff_dvd.mp hmul.symm)
    omega

/-- A number that is not reduced takes two more rounds. -/
theorem fpInvExgcdBn_mod {p s : Nat} (hp : 1 < p) (hs : s % p ≠ 0) :
    fpInvExgcdBn s p = fpInvExgcdBn (s % p) p := by
  rcases Nat.lt_or_ge s p with hlt | hge
  · rw [Nat.mod_eq_of_lt hlt]
  · have hlt : p < s := by
      refine lt_of_le_of_ne hge ?_
      rintro rfl
      exact hs (Nat.mod_self p)
    rw [fpInvExgcdBn, fpInvExgcdLoop, if_neg (by omega), dif_neg (by omega),
      Nat.mod_eq_of_lt hlt, Nat.div_eq_of_lt hlt, fpInvExgcdLoop, if_neg hp.ne',
      dif_neg (by omega)]
    simp [fpInvExgcdBn]

def Scalar.mul (a b : Scalar) : Scalar := Scalar.copy (a * b)

/-- `Scalar::Invert`, with its last check -/
def Scalar.invert (s : Scalar) : Option (Except String Scalar) :=
  (fpInvExgcdBn s groupOrder).map fun c : Int =>
    let inv := (c % (groupOrder : Int)).toNat
    if s.mul inv = 1 then .ok inv else .error "Invert failed"

/-- **The inverse is found.**  For a prime modulus the loop ends, and `fp_inv_exgcd_bn` returns the
one inverse below the modulus; `Invert` returns that of every scalar but zero. -/
theorem invert_inverse :
    (∀ p u : Nat, p.Prime → 0 < u → u < p → ∃ v : Nat,
      fpInvExgcdBn u p = some (v : Int) ∧ IsInverse p u v ∧ ∀ w, IsInverse p u w → w = v) ∧
    ∀ s : Scalar, s.copy ≠ 0 → ∃ v, s.invert = some (.ok v) ∧
      IsInverse groupOrder s v ∧ ∀ w, IsInverse groupOrder s w → w = v := by
  constructor
  · intro p u hp hpos hlt
    have hcoprime : p.Coprime u := Nat.coprime_of_lt_prime hpos.ne' hlt hp
    obtain ⟨v, hv, hinverse⟩ := fpInvExgcdBn_ok hpos hlt hcoprime
    exact ⟨v, hv, hinverse, fun w hw => hinverse.unique hw hcoprime⟩
  · intro s hs
    have hcoprime : groupOrder.Coprime s :=
      groupOrder_prime.coprime_iff_not_dvd.mpr fun hdvd => hs (Nat.mod_eq_zero_of_dvd hdvd)
    have hreduced : groupOrder.Coprime s.copy :=
      Nat.coprime_of_lt_prime hs s.copy_lt groupOrder_prime
    obtain ⟨v, hv, hpos, hlt, hmul⟩ := fpInvExgcdBn_ok (Nat.pos_of_ne_zero hs) s.copy_lt hreduced
    have hinverse : IsInverse groupOrder s v :=
      ⟨hpos, hlt, ((Nat.mod_modEq s groupOrder).symm.mul_right v).trans hmul⟩
    refine ⟨v, ?_, hinverse, fun w hw => hinverse.unique hw hcoprime⟩
    have hlast : (v % (groupOrder : Int)).toNat = v := by
      rw [← Int.natCast_mod, Int.toNat_natCast, Nat.mod_eq_of_lt hlt]
    have hone : s.mul v = 1 := hinverse.mul
    rw [Scalar.invert, fpInvExgcdBn_mod (by decide) hs]
    rw [Scalar.copy] at hv
    rw [hv, Option.map_some]
    simp only [hlast, hone, if_true]

theorem invert_inverse_three : fpInvExgcdBn 3 7 = some 5 := by
  obtain ⟨v, hv, _, hunique⟩ := invert_inverse.1 7 3 (by norm_num) (by decide) (by decide)
  rw [hv, ← hunique 5 ⟨by decide, by decide, by decide⟩]
  rfl

end Navcoin
