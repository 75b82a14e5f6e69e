import Navcoin.Blsct.Verification

/-!
# Sub-addresses and the keys of their outputs

The sender of a private output derives its keys from a sub-address and a blinding key
(`GenTxOutputKeys` of `blsct/transaction.cpp`); the owner of the sub-address derives everything
again from the output, the view key and the spend key (`keystore.cpp`).

* `genTxOutputKeys_received`: what the owner derives is what the sender meant: the id of the
  sub-address, a private key for the output and the nonce of its range proof.
-/

namespace Navcoin

/-- `bls::PrivateKey`: its constructors refuse numbers above the group order. -/
structure PrivateKey where
  keydata : Nat
  keydata_le : keydata ≤ groupOrder

namespace PrivateKey

/-- `none` is an exception, here and below. -/
def fromBN (sk : Nat) : Option PrivateKey :=
  if h : sk ≤ groupOrder then some ⟨sk, h⟩ else none

def fromBytes (bytes : Bytes) : Option PrivateKey := fromBN (ofBE (bytes.take 32))

def serialize (k : PrivateKey) : Bytes := toBE 32 k.keydata

/-- `Scalar(const bls::PrivateKey&)` -/
def scalar (k : PrivateKey) : Scalar := Scalar.copy k.keydata

@[simp] theorem fromBytes_serialize (k : PrivateKey) : fromBytes k.serialize = some k := by
  rw [fromBytes, List.take_of_length_le (by simp [serialize]), serialize,
    ofBE_toBE_of_lt (k.keydata_le.trans_lt (by decide))]
  exact dif_pos k.keydata_le

/-- A reduced scalar is a private key. -/
@[simp] theorem fromBN_copy (s : Scalar) : fromBN s.copy = some ⟨s.copy, s.copy_lt.le⟩ :=
  dif_pos s.copy_lt.le

end PrivateKey

/-- `Scalar(const uint256&)` reads the bytes of the hash, most significant first. -/
def Scalar.ofUint256 (h : Uint256) : Scalar := Scalar.copy (ofBE (writeUint256 h))

def Scalar.add (a b : Scalar) : Scalar := Scalar.copy (a + b)

theorem Scalar.copy_nsmul {G : Type} [G1Group G] (s : Scalar) (p : G) : s.copy • p = s • p := by
  conv_rhs => rw [← Nat.mod_add_div s groupOrder]
  rw [add_nsmul, mul_nsmul, G1Group.order_nsmul, nsmul_zero, add_zero, Scalar.copy]

/-- What the key derivations use: elements are encoded so that they can be read again. -/
structure KeyLibrary (G : Type) extends Crypto G where
  encodesElements : toCrypto.EncodesElements
  /-- the generator that `g1_mul_gen` multiplies -/
  generator : G
  hash160 : Bytes → Bytes
  /-- `PrivateKey::FromBN(Scalar::Rand().bn)`, for key bytes that cannot be read -/
  randomKey : PrivateKey

instance : Inhabited (KeyLibrary (ZMod groupOrder)) where
  default := { fixedBls true with
    encodesElements := fixedBls_encodesElements true
    generator := 1
    hash160 := fun bytes => bytes.take 20
    randomKey := ⟨1, by decide⟩ }

theorem isEmpty_of_length {n : Nat} {bytes : Bytes} (h : bytes.length = n + 1) :
    bytes.isEmpty = false := by
  cases bytes with
  | nil => cases h
  | cons _ _ => rfl

@[simp] theorem PrivateKey.isEmpty_serialize (k : PrivateKey) : k.serialize.isEmpty = false :=
  isEmpty_of_length (length_toBE 32 k.keydata)

namespace KeyLibrary

variable {G : Type} (l : KeyLibrary G)

/-- `G1Element::FromByteVector` -/
def element (bytes : Bytes) : Option G := (l.fromBytes bytes).toOption

@[simp] theorem element_serialize (p : G) : l.element (l.serialize p) = some p := by
  rw [element, l.encodesElements.fromBytes_serialize]
  rfl

@[simp] theorem isEmpty_serialize (p : G) : (l.serialize p).isEmpty = false :=
  isEmpty_of_length (l.encodesElements.length_serialize p)

end KeyLibrary

/-! ## Keys in the store -/

/-- `blsctKey::k` -/
abbrev BlsctKey := Bytes

structure BlsctDoublePublicKey where
  vk : Bytes := []
  sk : Bytes := []

def BlsctDoublePublicKey.isValid (pk : BlsctDoublePublicKey) : Bool :=
  !pk.vk.isEmpty && !pk.sk.isEmpty

/-- The keys of `CBasicKeyStore` that sub-addresses are made of. -/
structure CBasicKeyStore where
  privateBlsViewKey : BlsctKey := []
  privateBlsSpendKey : BlsctKey := []
  publicBlsKey : BlsctDoublePublicKey := {}

/-- What `GenTxOutputKeys` writes. -/
structure TxOutputKeys where
  spendingKey : Bytes
  outputKey : Bytes
  ephemeralKey : Bytes

section Keys

variable {G : Type} [G1Group G] (l : KeyLibrary G)

def PrivateKey.getG1Element (k : PrivateKey) : G := k.keydata • l.generator

def BlsctKey.getKey (k : BlsctKey) : PrivateKey := (PrivateKey.fromBytes k).getD l.randomKey

def BlsctKey.getG1Element (k : BlsctKey) : G :=
  ((PrivateKey.fromBytes k).map (·.getG1Element l)).getD 0

def BlsctDoublePublicKey.ofElements (vk sk : G) : BlsctDoublePublicKey :=
  ⟨l.serialize vk, l.serialize sk⟩

def BlsctDoublePublicKey.getID (pk : BlsctDoublePublicKey) : Bytes := l.hash160 pk.sk

def hashG1Element (g1 : G) (n : UInt64) : Uint256 :=
  l.hash (writeG1 l.toCrypto g1 ++ writeUint64 n)

/-- `"SubAddress\0"` as a `std::string`, which ends before the zero. -/
def subAddressHeader : Bytes := [0x53, 0x75, 0x62, 0x41, 0x64, 0x64, 0x72, 0x65, 0x73, 0x73]

namespace CBasicKeyStore

/-- `CWallet::SetBLSCTKeys`; the setters refuse only keys without bytes. -/
def setBLSCTKeys (v s : PrivateKey) : CBasicKeyStore where
  publicBlsKey := .ofElements l (v.getG1Element l) (s.getG1Element l)
  privateBlsViewKey := v.serialize
  privateBlsSpendKey := s.serialize

/-! ## Deriving keys -/

/-- `m = Hs("SubAddress" || a || account || index)` -/
def subAddressScalar (store : CBasicKeyStore) (index : UInt64 × UInt64) : Scalar :=
  .ofUint256 (l.hash (writeVector subAddressHeader ++ writeVector store.privateBlsViewKey ++
    writeUint64 index.1 ++ writeUint64 index.2))

def getBLSCTSubAddressPublicKeys (store : CBasicKeyStore) (index : UInt64 × UInt64) :
    Option BlsctDoublePublicKey := do
  if store.privateBlsViewKey.isEmpty then none
  if !store.publicBlsKey.isValid then none
  let M := (← PrivateKey.fromBN (store.subAddressScalar l index)).getG1Element l
  let t ← l.element store.publicBlsKey.sk
  let D := M + t
  let s := (BlsctKey.getKey l store.privateBlsViewKey).scalar
  return .ofElements l (s • D) D

def getBLSCTHashId (store : CBasicKeyStore) (outputKey spendingKey : Bytes) : Option Bytes := do
  if store.privateBlsViewKey.isEmpty then none
  -- D' = P - Hs(a*R)*G
  let t ← l.element outputKey
  let k := BlsctKey.getKey l store.privateBlsViewKey
  let hash_T := Scalar.ofUint256 (hashG1Element l (k.keydata • t) 0)
  let dh := inverse ((← PrivateKey.fromBN hash_T).getG1Element l)
  let t ← l.element spendingKey
  return l.hash160 (l.serialize (t + dh))

def getBLSCTSubAddressSpendingKeyForOutput (store : CBasicKeyStore) (index : UInt64 × UInt64)
    (outputKey : Bytes) : Option BlsctKey := do
  if store.privateBlsViewKey.isEmpty then none
  if store.privateBlsSpendKey.isEmpty then none
  let s := (BlsctKey.getKey l store.privateBlsViewKey).scalar
  let t ← l.element outputKey
  let hash_T := Scalar.ofUint256 (hashG1Element l (s • t) 0)
  let b := (BlsctKey.getKey l store.privateBlsSpendKey).scalar
  let k ← PrivateKey.fromBN ((hash_T.add b).add (store.subAddressScalar l index))
  return k.serialize

/-- The nonce with which the wallet recovers an output: `a*R`. -/
def receiverNonce (store : CBasicKeyStore) (outputKey : Bytes) : Option G := do
  return (BlsctKey.getKey l store.privateBlsViewKey).keydata • (← l.element outputKey)

end CBasicKeyStore

def genTxOutputKeys (blindingKey : PrivateKey) (destKey : BlsctDoublePublicKey) :
    Option TxOutputKeys := do
  -- E = r*G, R = r*S, P = H(r*V)*G + S
  let S ← l.element destKey.sk
  let V ← l.element destKey.vk
  let rV := blindingKey.keydata • V
  let P := (← PrivateKey.fromBN (Scalar.ofUint256 (hashG1Element l rV 0))).getG1Element l
  return { ephemeralKey := l.serialize (blindingKey.getG1Element l)
           outputKey := l.serialize (blindingKey.keydata • S)
           spendingKey := l.serialize (S + P) }

/-- The nonce of `CreateBLSCTOutput`: `r*V`. -/
def senderNonce (blindingKey : PrivateKey) (destKey : BlsctDoublePublicKey) : Option G := do
  return blindingKey.keydata • (← l.element destKey.vk)

/-! ## What the owner recovers -/

namespace CBasicKeyStore

variable (v s r : PrivateKey) (index : UInt64 × UInt64)

/-- The spend key of a sub-address: `D = B + M`. -/
def subAddressElement : G :=
  (setBLSCTKeys l v s).subAddressScalar l index • l.generator + s.keydata • l.generator

theorem getBLSCTSubAddressPublicKeys_setBLSCTKeys :
    (setBLSCTKeys l v s).getBLSCTSubAddressPublicKeys l index =
      some (.ofElements l (v.scalar • subAddressElement l v s index)
        (subAddressElement l v s index)) := by
  simp [getBLSCTSubAddressPublicKeys, subAddressElement, subAddressScalar, setBLSCTKeys,
    BlsctDoublePublicKey.ofElements, BlsctDoublePublicKey.isValid, Scalar.ofUint256,
    BlsctKey.getKey, PrivateKey.getG1Element]

theorem genTxOutputKeys_ofElements (V S : G) :
    genTxOutputKeys l r (.ofElements l V S) =
      some { ephemeralKey := l.serialize (r.getG1Element l)
             outputKey := l.serialize (r.keydata • S)
             spendingKey := l.serialize (S +
               Scalar.ofUint256 (hashG1Element l (r.keydata • V) 0) • l.generator) } := by
  simp [genTxOutputKeys, BlsctDoublePublicKey.ofElements, Scalar.ofUint256,
    PrivateKey.getG1Element]

theorem getBLSCTHashId_serialize (R P : G) :
    (setBLSCTKeys l v s).getBLSCTHashId l (l.serialize R) (l.serialize P) =
      some (l.hash160 (l.serialize (P -
        Scalar.ofUint256 (hashG1Element l (v.keydata • R) 0) • l.generator))) := by
  simp [getBLSCTHashId, setBLSCTKeys, Scalar.ofUint256, BlsctKey.getKey, PrivateKey.getG1Element,
    inverse_eq_neg, sub_eq_add_neg]

theorem getBLSCTSubAddressSpendingKeyForOutput_serialize (R : G) :
    ∃ k, (setBLSCTKeys l v s).getBLSCTSubAddressSpendingKeyForOutput l index (l.serialize R) =
        some k ∧
      BlsctKey.getG1Element l k = subAddressElement l v s index +
        Scalar.ofUint256 (hashG1Element l (v.keydata • R) 0) • l.generator := by
  let m := (setBLSCTKeys l v s).subAddressScalar l index
  let hash := Scalar.ofUint256 (hashG1Element l (v.keydata • R) 0)
  let k : PrivateKey := ⟨(hash.add s.scalar).add m, (Scalar.copy_lt _).le⟩
  refine ⟨k.serialize, ?_, ?_⟩
  · simp [getBLSCTSubAddressSpendingKeyForOutput, k, m, hash, setBLSCTKeys, BlsctKey.getKey,
      PrivateKey.scalar, Scalar.copy_nsmul, Scalar.add]
  · simp only [BlsctKey.getG1Element, PrivateKey.fromBytes_serialize, PrivateKey.getG1Element, k,
      Scalar.add, PrivateKey.scalar, Scalar.copy_nsmul, add_nsmul, Option.map_some,
      Option.getD_some]
    change _ = m • l.generator + s.keydata • l.generator + hash • l.generator
    abel

/-- **Outputs to a sub-address are received.** For every pair of keys, account, index and blinding
key, the owner of the sub-address recovers its id from the output, derives a private key whose
public element is the spending key of the output, and finds the sender's nonce. -/
theorem genTxOutputKeys_received :
    ∃ pk out k nonce,
      (setBLSCTKeys l v s).getBLSCTSubAddressPublicKeys l index = some pk ∧
      genTxOutputKeys l r pk = some out ∧
      (setBLSCTKeys l v s).getBLSCTHashId l out.outputKey out.spendingKey = some (pk.getID l) ∧
      (setBLSCTKeys l v s).getBLSCTSubAddressSpendingKeyForOutput l index out.outputKey = some k ∧
      l.serialize (BlsctKey.getG1Element l k) = out.spendingKey ∧
      senderNonce l r pk = some nonce ∧
      (setBLSCTKeys l v s).receiverNonce l out.outputKey = some nonce := by
  let D := subAddressElement l v s index
  -- both sides multiply the spend key of the sub-address by the view key and the blinding key
  have hshared : v.keydata • r.keydata • D = r.keydata • v.scalar • D := by
    rw [PrivateKey.scalar, Scalar.copy_nsmul, smul_comm]
  obtain ⟨k, hk, hpublic⟩ :=
    getBLSCTSubAddressSpendingKeyForOutput_serialize l v s index (r.keydata • D)
  refine ⟨_, _, k, r.keydata • v.scalar • D, getBLSCTSubAddressPublicKeys_setBLSCTKeys l v s index,
    genTxOutputKeys_ofElements l r _ _, ?_, hk, ?_, ?_, ?_⟩
  · rw [getBLSCTHashId_serialize, hshared, add_sub_cancel_right]
    rfl
  · rw [hpublic, hshared]
  · simp [senderNonce, BlsctDoublePublicKey.ofElements, D]
  · simp [receiverNonce, setBLSCTKeys, BlsctKey.getKey, ← hshared, D]

end CBasicKeyStore

end Keys

end Navcoin
