import Navcoin.Blsct.Elements
import Navcoin.Lib.Traced

/-!
# Transactions

`primitives/transaction.h`: outpoints, inputs, outputs and transactions, with the
stream format used for hashing and for the size limit (without witness data).
A range proof is shared by pointer in the source; here it is an optional value, and
`getBulletproof` makes the copy the source makes.
-/

namespace Navcoin

/-! ## Inputs -/

structure COutPoint where
  hash : Uint256
  n : UInt32
  deriving DecidableEq, Repr

namespace COutPoint

def isNull (p : COutPoint) : Bool := p.hash == 0 && p.n == 0xffffffff

def serialize (p : COutPoint) : Bytes := writeUint256 p.hash ++ toLE 4 p.n.toNat

end COutPoint

structure CTxIn where
  prevout : COutPoint
  scriptSig : CScript := []
  nSequence : UInt32 := 0xffffffff
  deriving DecidableEq, Repr

namespace CTxIn

def serialize (i : CTxIn) : Bytes :=
  i.prevout.serialize ++ writeVector i.scriptSig ++ toLE 4 i.nSequence.toNat

/-- The hash an input is signed by. -/
def getHash {G : Type} (c : Crypto G) (i : CTxIn) : Uint256 := c.hash i.serialize

end CTxIn

/-! ## Outputs -/

structure CTxOut (G : Type) where
  nValue : Int := -1
  scriptPubKey : CScript := []
  ephemeralKey : Bytes := []
  outputKey : Bytes := []
  spendingKey : Bytes := []
  vData : Bytes := []
  tokenId : TokenId := {}
  bp : Option (BulletproofsRangeproof G) := none
  cacheHash : Uint256 := 0
  deriving DecidableEq, Repr

namespace CTxOut

variable {G : Type}

def isBLSCT (o : CTxOut G) : Bool :=
  !o.ephemeralKey.isEmpty || !o.spendingKey.isEmpty || !o.outputKey.isEmpty

def getBulletproof [Zero G] (o : CTxOut G) : BulletproofsRangeproof G :=
  match o.bp with
  | some p => p.copy
  | none => BulletproofsRangeproof.empty

def hasRangeProof (o : CTxOut G) : Bool :=
  match o.bp with
  | some p => !p.V.isEmpty
  | none => false

def isNull (o : CTxOut G) : Bool :=
  o.nValue == -1 && o.scriptPubKey.isEmpty && o.spendingKey.isEmpty &&
    o.ephemeralKey.isEmpty && o.outputKey.isEmpty

/-- A spent output has the amount minus one. -/
theorem isNull_of_nonneg {o : CTxOut G} (h : 0 ≤ o.nValue) : o.isNull = false := by
  rw [isNull]
  simp
  omega

def isEmpty (o : CTxOut G) : Bool :=
  o.nValue == 0 && o.scriptPubKey.isEmpty && o.spendingKey.isEmpty &&
    o.ephemeralKey.isEmpty && o.outputKey.isEmpty && !o.hasRangeProof && o.vData.isEmpty

def isCommunityFundContribution (o : CTxOut G) : Bool :=
  o.scriptPubKey.isCommunityFundContribution

/-- `CTxOut::operator==`, which compares copies of the proofs. -/
def eq [Zero G] [DecidableEq G] (a b : CTxOut G) : Bool :=
  a.nValue == b.nValue && a.scriptPubKey == b.scriptPubKey &&
    a.ephemeralKey == b.ephemeralKey && a.outputKey == b.outputKey &&
    a.spendingKey == b.spendingKey && a.getBulletproof == b.getBulletproof &&
    a.tokenId == b.tokenId && a.vData == b.vData

/-- The presence bits of the token format, under the marker bit `0x2 << 62`. -/
def marker (o : CTxOut G) : Nat :=
  2 ^ 63
    ||| (if o.nValue > 0 then 1 <<< 0 else 0)
    ||| (if o.ephemeralKey.isEmpty then 0 else 1 <<< 1)
    ||| (if o.outputKey.isEmpty then 0 else 1 <<< 2)
    ||| (if o.spendingKey.isEmpty then 0 else 1 <<< 3)
    ||| (if o.hasRangeProof then 1 <<< 4 else 0)
    ||| (if o.tokenId.token = 0 then 0 else 1 <<< 5)
    ||| (if o.tokenId.subid = 0xffffffffffffffff then 0 else 1 <<< 6)
    ||| (if o.vData.isEmpty then 0 else 1 <<< 7)

/-- `CTxOut::SerializationOp` when writing: one of three layouts, then the script. -/
def serialize [Zero G] (c : Crypto G) (o : CTxOut G) : Bytes :=
  (if !o.vData.isEmpty || o.tokenId.token ≠ 0 || o.tokenId.subid ≠ 0xffffffffffffffff then
    toLE 8 o.marker
      ++ (if o.nValue > 0 then writeAmount o.nValue else [])
      ++ (if o.ephemeralKey.isEmpty then [] else writeVector o.ephemeralKey)
      ++ (if o.outputKey.isEmpty then [] else writeVector o.outputKey)
      ++ (if o.spendingKey.isEmpty then [] else writeVector o.spendingKey)
      ++ (if o.hasRangeProof then o.getBulletproof.serialize c else [])
      ++ (if o.tokenId.token = 0 then [] else writeUint256 o.tokenId.token)
      ++ (if o.tokenId.subid = 0xffffffffffffffff then [] else writeUint64 o.tokenId.subid)
      ++ (if o.vData.isEmpty then [] else writeVector o.vData)
  else if o.isBLSCT then
    toLE 8 (2 ^ 64 - 1) ++ writeAmount o.nValue ++ writeVector o.ephemeralKey
      ++ writeVector o.outputKey ++ writeVector o.spendingKey ++ o.getBulletproof.serialize c
  else
    writeAmount o.nValue)
  ++ writeVector o.scriptPubKey

/-- `CTxOut::GetHash`: the hash cached by deserialisation, or computed now. -/
def getHash [Zero G] (c : Crypto G) (o : CTxOut G) : Uint256 :=
  if o.cacheHash ≠ 0 then o.cacheHash else c.hash (o.serialize c)

end CTxOut

/-! ## Transactions -/

def txBlsInputFlag : BitVec 32 := 0x10
def txBlsCtFlag : BitVec 32 := 0x20

structure CTransaction (G : Type) where
  nVersion : BitVec 32 := 1
  nTime : UInt32 := 0
  vin : List CTxIn := []
  vout : List (CTxOut G) := []
  nLockTime : UInt32 := 0
  strDZeel : Bytes := []
  vchTxSig : Bytes := []
  vchBalanceSig : Bytes := []
  deriving DecidableEq, Repr

namespace CTransaction

variable {G : Type}

def isBLSInput (tx : CTransaction G) : Bool := tx.nVersion &&& txBlsInputFlag != 0

def isCTOutput (tx : CTransaction G) : Bool := tx.nVersion &&& txBlsCtFlag != 0

def isBLSCT (tx : CTransaction G) : Bool := tx.isCTOutput || tx.isBLSInput

def hasCTOutput (tx : CTransaction G) : Bool := tx.vout.any CTxOut.hasRangeProof

def getFee (tx : CTransaction G) : Int :=
  ((tx.vout.filter fun o => o.scriptPubKey.isFee).map CTxOut.nValue).sum

def isCoinBase (tx : CTransaction G) : Bool :=
  match tx.vin with
  | [i] => i.prevout.isNull
  | _ => false

/-- A coinstake is recognised by its first output being empty. -/
def isCoinStake (tx : CTransaction G) : Bool :=
  match tx.vin, tx.vout with
  | i :: _, o :: _ :: _ => !i.prevout.isNull && o.isEmpty
  | _, _ => false

/-- The loop of `GetValueOut`, which throws when a value or the sum leaves the range. -/
def addValueOut (nValueOut : Int) (o : CTxOut G) : Except String Int :=
  if !moneyRange o.nValue || !moneyRange (nValueOut + o.nValue) then
    .error "CTransaction::GetValueOut(): value out of range"
  else .ok (nValueOut + o.nValue)

def getValueOut (tx : CTransaction G) : Except String Int :=
  tx.vout.foldlM addValueOut 0

/-- `SerializeTransaction` without witness data. -/
def serialize [Zero G] (c : Crypto G) (tx : CTransaction G) : Bytes :=
  toLE 4 tx.nVersion.toNat ++ toLE 4 tx.nTime.toNat
    ++ (writeCompactSize tx.vin.length ++ tx.vin.flatMap CTxIn.serialize)
    ++ (writeCompactSize tx.vout.length ++ tx.vout.flatMap (CTxOut.serialize c))
    ++ toLE 4 tx.nLockTime.toNat
    ++ (if 2 ≤ tx.nVersion.toInt then writeVector tx.strDZeel else [])
    ++ (if tx.isBLSCT then writeVector tx.vchBalanceSig else [])
    ++ (if tx.isBLSInput then writeVector tx.vchTxSig else [])

def getHash [Zero G] (c : Crypto G) (tx : CTransaction G) : Uint256 := c.hash (tx.serialize c)

theorem length_le_flatMap {α : Type} {f : α → Bytes} (hf : ∀ a, 0 < (f a).length) (l : List α) :
    l.length ≤ (l.flatMap f).length := by
  induction l with
  | nil => rfl
  | cons a l ih =>
    have hpos := hf a
    rw [List.flatMap_cons, List.length_append, List.length_cons]
    omega

theorem vin_length_le_serialize [Zero G] (c : Crypto G) (tx : CTransaction G) :
    tx.vin.length ≤ (tx.serialize c).length := by
  have hpos : ∀ i : CTxIn, 0 < i.serialize.length := by
    simp only [CTxIn.serialize, List.length_append, length_toLE]
    omega
  have hvin := length_le_flatMap hpos tx.vin
  simp only [serialize, List.length_append]
  omega

theorem vout_length_le_serialize [Zero G] (c : Crypto G) (tx : CTransaction G) :
    tx.vout.length ≤ (tx.serialize c).length := by
  have hsize : ∀ n, 0 < (writeCompactSize n).length := by
    intro n
    unfold writeCompactSize
    split_ifs <;> simp
  have hpos : ∀ o : CTxOut G, 0 < (o.serialize c).length := by
    intro o
    have hscript := hsize o.scriptPubKey.length
    simp only [CTxOut.serialize, writeVector, List.length_append]
    omega
  have hvout := length_le_flatMap hpos tx.vout
  simp only [serialize, List.length_append]
  omega

variable {tx : CTransaction G}

theorem script_length_le_serialize [Zero G] (c : Crypto G) {o : CTxOut G}
    (ho : o ∈ tx.vout) : o.scriptPubKey.length ≤ (tx.serialize c).length := by
  have hout : o.scriptPubKey.length ≤ (o.serialize c).length := by
    simp only [CTxOut.serialize, writeVector, List.length_append]
    omega
  have hmem : (o.serialize c).length ≤ (tx.vout.flatMap (CTxOut.serialize c)).length := by
    rw [List.length_flatMap]
    exact List.le_sum_of_mem (List.mem_map.mpr ⟨o, ho, rfl⟩)
  simp only [serialize, List.length_append]
  omega

theorem not_isCoinStake_of_isCoinBase (h : tx.isCoinBase = true) :
    tx.isCoinStake = false := by
  obtain ⟨i, hi⟩ : ∃ i, tx.vin = [i] := by
    unfold isCoinBase at h
    split at h
    · next i hi => exact ⟨i, hi⟩
    · exact absurd h Bool.false_ne_true
  simp only [isCoinBase, hi] at h
  unfold isCoinStake
  rw [hi]
  cases tx.vout with
  | nil => rfl
  | cons o rest =>
    cases rest with
    | nil => rfl
    | cons o' rest => simp [h]

/-- When `GetValueOut` returns, every value is in range and it returns their sum. -/
theorem getValueOut_eq_ok {n : Int} (h : tx.getValueOut = .ok n) :
    n = (tx.vout.map CTxOut.nValue).sum ∧ ∀ o ∈ tx.vout, moneyRange o.nValue = true := by
  have step : ∀ (done : List (CTxOut G)) (s : Int) (o : CTxOut G) (s' : Int),
      (s = (done.map CTxOut.nValue).sum ∧ ∀ o ∈ done, moneyRange o.nValue = true) →
      addValueOut s o = .ok s' →
      s' = ((done ++ [o]).map CTxOut.nValue).sum ∧
        ∀ o' ∈ done ++ [o], moneyRange o'.nValue = true := by
    rintro done s o s' ⟨hs, hdone⟩ hstep
    unfold addValueOut at hstep
    split at hstep
    · cases hstep
    · next hrange =>
      cases hstep
      simp only [Bool.not_eq_true', Bool.or_eq_true, not_or, Bool.not_eq_false] at hrange
      refine ⟨by simp [hs], List.forall_mem_append.mpr ⟨hdone, ?_⟩⟩
      exact List.forall_mem_singleton.mpr hrange.1
  simpa using Except.foldlM_ok_invariant _ addValueOut step tx.vout [] 0 n (by simp) h

end CTransaction

end Navcoin
