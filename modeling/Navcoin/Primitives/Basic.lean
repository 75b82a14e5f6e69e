import Mathlib.Algebra.Group.Defs
import Mathlib.Algebra.Module.ZMod
import Navcoin.Lib.Codec

/-!
# Amounts, hashes, token ids, scripts and curve elements

The small types of the node that every other part uses: `amount.h`, `uint256.h`,
`ctokens/tokenid.h`, the script predicates of `script/script.cpp` and the group
that `bls::G1Element` is a member of.
-/

namespace Navcoin

/-! ## Amounts

`CAmount` is `int64_t`.  Every sum of amounts below is range checked before it can leave
64 bits, so amounts are integers here. -/

def coin : Int := 100000000

def maxMoney : Int := 10000000000 * coin

def moneyRange (nValue : Int) : Bool := 0 ≤ nValue && nValue ≤ maxMoney

theorem moneyRange_iff (nValue : Int) :
    moneyRange nValue = true ↔ 0 ≤ nValue ∧ nValue ≤ maxMoney := by
  simp [moneyRange]

/-- The conversion of an `int64_t` to `uint64_t`. -/
def toUint64 (n : Int) : Nat := (n % 2 ^ 64).toNat

theorem toUint64_of_nonneg {n : Int} (h0 : 0 ≤ n) (h1 : n < 2 ^ 64) :
    toUint64 n = n.toNat := by
  rw [toUint64, Int.emod_eq_of_lt h0 h1]

/-! ## Hashes and token ids -/

abbrev Uint256 := BitVec 256

-- named once, so that every module finds the same proofs for its maps of hashes
instance : LawfulBEq Uint256 := inferInstance
instance : Std.Trichotomous (α := Uint256) (· < ·) := inferInstance
instance : Trans (α := Uint256) (· < ·) (· < ·) (· < ·) := inferInstance

/-- `TokenId`: the native coin is token zero with subid `-1`. -/
structure TokenId where
  token : Uint256 := 0
  subid : UInt64 := 0xffffffffffffffff
  deriving DecidableEq, Repr

/-! ## Scripts -/

abbrev CScript := Bytes

def op1 : UInt8 := 0x51
def opReturn : UInt8 := 0x6a
def opDup : UInt8 := 0x76
def opEqual : UInt8 := 0x87
def opEqualVerify : UInt8 := 0x88
def opHash160 : UInt8 := 0xa9
def opCheckSig : UInt8 := 0xac
def opCfund : UInt8 := 0xc1

def maxScriptSize : Nat := 10000

namespace CScript

def isFee (script : CScript) : Bool := script == [opReturn]

def isCommunityFundContribution (script : CScript) : Bool := script == [opReturn, opCfund]

def isUnspendable (script : CScript) : Bool :=
  !(script == [op1]) && (script.head? == some opReturn || script.length > maxScriptSize)

end CScript

/-! ## The group of `bls::G1Element` and its scalars -/

/-- `g1_get_ord`: the order of the prime-order group. -/
def groupOrder : Nat :=
  0x73eda753299d7d483339d80809a1d80553bda402fffe5bfeffffffff00000001

/-- The group the curve library computes in: abelian, and killed by its order. -/
class G1Group (G : Type) extends AddCommGroup G where
  order_nsmul : ∀ p : G, groupOrder • p = 0

/-- `G1Element::Inverse` multiplies by the order minus one. -/
def inverse {G : Type} [G1Group G] (p : G) : G := (groupOrder - 1) • p

theorem inverse_eq_neg {G : Type} [G1Group G] (p : G) : inverse p = -p := by
  have horder : groupOrder • p = 0 := G1Group.order_nsmul p
  have hsucc : groupOrder = groupOrder - 1 + 1 := by decide
  rw [hsucc, succ_nsmul] at horder
  exact eq_neg_of_add_eq_zero_left horder

/-- The scalars themselves are a group of that order; it serves for concrete runs. -/
instance : G1Group (ZMod groupOrder) where
  order_nsmul p := by rw [nsmul_eq_mul, CharP.cast_eq_zero, zero_mul]

/-- `Scalar::bn`.  Values read from a stream are not reduced until they are copied. -/
abbrev Scalar := Nat

/-- The copy constructor of `Scalar` reduces modulo the group order. -/
def Scalar.copy (s : Scalar) : Scalar := s % groupOrder

theorem Scalar.copy_lt (s : Scalar) : s.copy < groupOrder := Nat.mod_lt s (by decide)

@[simp] theorem Scalar.copy_copy (s : Scalar) : Scalar.copy (Scalar.copy s) = Scalar.copy s :=
  Nat.mod_mod s groupOrder

end Navcoin
