import Navcoin.Compressor.TxOut

/-!
# Undo records

`undo.h`: what `ConnectBlock` keeps of the outputs that a block spends, and the file it is kept
in.  A record holds the output; the rest of the entry only when the output was its last one.

* `readBack_of_writable`: the records of outputs that survive compression are read back, but for
  negative versions;
* `survives_of_sameOutputs`: no others are read back with equal outputs.
-/

namespace Navcoin

variable {G : Type}

/-- Undo information for an input. -/
structure CTxInUndo (G : Type) where
  txout : CTxOut G := {}
  fCoinBase : Bool := false
  nHeight : BitVec 32 := 0
  nVersion : BitVec 32 := 0
  deriving DecidableEq, Repr

/-- Undo information for a transaction. -/
structure CTxUndo (G : Type) where
  vprevout : List (CTxInUndo G) := []
  deriving DecidableEq, Repr

/-- Undo information for a block, for all transactions but the coinbase. -/
structure CBlockUndo (G : Type) where
  vtxundo : List (CTxUndo G) := []
  deriving DecidableEq, Repr

/-! ## Signed integers -/

/-- `WriteVarInt` for `int`: of a negative number only the seven low bits are written. -/
def writeVarIntSigned (n : BitVec 32) : Bytes :=
  if n.toInt < 0 then writeVarInt 4 (n.toNat &&& 0x7F) else writeVarInt 4 n.toNat

def readVarIntSigned : StreamReader (BitVec 32) := BitVec.ofNat 32 <$> readVarInt 4

/-- The number that comes back. -/
def varIntBack (n : BitVec 32) : BitVec 32 := if n.toInt < 0 then n &&& 0x7F else n

theorem readVarIntSigned_writeVarIntSigned (n : BitVec 32) :
    RoundTrip readVarIntSigned (writeVarIntSigned n) (varIntBack n) := by
  have hread : ∀ m : BitVec 32,
      RoundTrip readVarIntSigned (writeVarInt 4 m.toNat) m := by
    intro m
    have hnat : RoundTrip (readVarInt 4) (writeVarInt 4 m.toNat) m.toNat :=
      readVarInt_writeVarInt (by decide) m.isLt
    have hmap := hnat.map (BitVec.ofNat 32)
    rwa [BitVec.ofNat_toNat, BitVec.setWidth_eq] at hmap
  unfold writeVarIntSigned varIntBack
  split
  · have hlow := hread (n &&& 0x7F)
    rwa [BitVec.toNat_and] at hlow
  · exact hread n

theorem writeVarIntSigned_varIntBack (n : BitVec 32) :
    writeVarIntSigned (varIntBack n) = writeVarIntSigned n := by
  unfold varIntBack
  split
  · next hneg =>
    have hnat : (n &&& 0x7F).toNat = n.toNat % 128 := by
      exact Nat.and_two_pow_sub_one_eq_mod n.toNat 7
    have hpos : ¬ (n &&& 0x7F).toInt < 0 := by
      rw [BitVec.toInt_eq_toNat_of_lt (by omega)]
      omega
    rw [writeVarIntSigned, if_neg hpos, writeVarIntSigned, if_pos hneg]
    rfl
  · rfl

/-- Exactly the numbers that are not negative come back. -/
theorem varIntBack_eq_iff (n : BitVec 32) : varIntBack n = n ↔ 0 ≤ n.toInt := by
  unfold varIntBack
  split
  · next hneg =>
    refine iff_of_false (fun heq => ?_) (by omega)
    have hnat : n.toNat = n.toNat % 128 := by
      nth_rewrite 1 [← heq]
      exact Nat.and_two_pow_sub_one_eq_mod n.toNat 7
    rw [BitVec.toInt_eq_toNat_of_lt (by omega)] at hneg
    omega
  · exact iff_of_true rfl (by omega)

/-! ## The format -/

section Format

variable [Zero G] (c : Crypto G) (k : PubKeys)

namespace CTxInUndo

/-- Height and coinbase flag in one number. -/
def nCode (u : CTxInUndo G) : BitVec 32 := u.nHeight * 2 + (if u.fCoinBase then 1 else 0)

/-- The version is written with the height. -/
def serialize (u : CTxInUndo G) : Bytes :=
  writeVarInt 4 u.nCode.toNat ++
    ((if u.nHeight = 0 then [] else writeVarIntSigned u.nVersion) ++
      CTxOutCompressor.serialize c k u.txout)

/-- The version is read only with a height. -/
def readVersion (nHeight : BitVec 32) : StreamReader (BitVec 32) :=
  if nHeight = 0 then pure 0 else readVarIntSigned

def unserialize : StreamReader (CTxInUndo G) := do
  let nCode ← readVarInt 4
  let nHeight := BitVec.ofNat 32 (nCode / 2)
  let nVersion ← readVersion nHeight
  let txout ← CTxOutCompressor.unserialize c k
  pure { txout, fCoinBase := nCode % 2 == 1, nHeight, nVersion }

end CTxInUndo

namespace CTxUndo

def serialize (t : CTxUndo G) : Bytes :=
  writeCompactSize t.vprevout.length ++ t.vprevout.flatMap (CTxInUndo.serialize c k)

def unserialize : StreamReader (CTxUndo G) := do
  let nSize ← readCompactSize
  let vprevout ← Reader.repeat (CTxInUndo.unserialize c k) nSize
  pure ⟨vprevout⟩

end CTxUndo

namespace CBlockUndo

def serialize (b : CBlockUndo G) : Bytes :=
  writeCompactSize b.vtxundo.length ++ b.vtxundo.flatMap (CTxUndo.serialize c k)

def unserialize : StreamReader (CBlockUndo G) := do
  let nSize ← readCompactSize
  let vtxundo ← Reader.repeat (CTxUndo.unserialize c k) nSize
  pure ⟨vtxundo⟩

/-- The checksum covers the hash of the previous block. -/
def checksum (hashBlock : Uint256) (b : CBlockUndo G) : Uint256 :=
  c.hash (writeUint256 hashBlock ++ b.serialize c k)

end CBlockUndo

/-- `UndoWriteToDisk`, from the position it reports. -/
def undoWriteToDisk (b : CBlockUndo G) (hashBlock : Uint256) : Bytes :=
  b.serialize c k ++ writeUint256 (b.checksum c k hashBlock)

/-- `UndoReadFromDisk` on the bytes from the position on. -/
def undoReadFromDisk (hashBlock : Uint256) (file : Bytes) : Option (CBlockUndo G) :=
  match (CBlockUndo.unserialize c k).run file with
  | .error _ => none
  | .ok (b, file) =>
    match readUint256.run file with
    | .error _ => none
    | .ok (hashChecksum, _) => if hashChecksum = b.checksum c k hashBlock then some b else none

end Format

/-! ## What is read back -/

/-- The record as it is read back: the output may be another value that compares equal. -/
structure CTxInUndo.ReadBack [Zero G] [DecidableEq G] (u u' : CTxInUndo G) : Prop where
  txout : u'.txout.eq u.txout = true
  fCoinBase : u'.fCoinBase = u.fCoinBase
  nHeight : u'.nHeight = u.nHeight
  nVersion : u'.nVersion = if u.nHeight = 0 then 0 else varIntBack u.nVersion

/-- The record can be written: the height is not negative and the output survives. -/
structure CTxInUndo.Writable [Zero G] [DecidableEq G] (c : Crypto G) (k : PubKeys)
    (u : CTxInUndo G) : Prop where
  nHeight : u.nHeight.toNat < 2 ^ 31
  survives : CTxOutCompressor.Survives c k u.txout

variable {b : CBlockUndo G} {u : CTxInUndo G}

namespace CTxInUndo

variable {c : Crypto G} {k : PubKeys}

theorem toNat_nCode (h : u.nHeight.toNat < 2 ^ 31) :
    u.nCode.toNat = u.nHeight.toNat * 2 + (if u.fCoinBase then 1 else 0) := by
  unfold nCode
  cases u.fCoinBase <;> simp only [Bool.false_eq_true, if_false, if_true] <;> bv_omega

theorem nHeight_back (h : u.nHeight.toNat < 2 ^ 31) :
    BitVec.ofNat 32 (u.nCode.toNat / 2) = u.nHeight ∧ (u.nCode.toNat % 2 == 1) = u.fCoinBase := by
  rw [toNat_nCode h]
  have hdiv : (u.nHeight.toNat * 2 + (if u.fCoinBase then 1 else 0)) / 2 = u.nHeight.toNat := by
    split <;> omega
  refine ⟨by rw [hdiv, BitVec.ofNat_toNat, BitVec.setWidth_eq], ?_⟩
  cases u.fCoinBase <;> simp

theorem roundTrip_readVersion (u : CTxInUndo G) :
    RoundTrip (readVersion u.nHeight)
      (if u.nHeight = 0 then [] else writeVarIntSigned u.nVersion)
      (if u.nHeight = 0 then 0 else varIntBack u.nVersion) := by
  unfold readVersion
  split
  · exact RoundTrip.pure 0
  · exact readVarIntSigned_writeVarIntSigned u.nVersion

variable [Zero G] [DecidableEq G]

theorem exists_roundTrip (h : u.Writable c k) :
    ∃ u', RoundTrip (unserialize c k) (u.serialize c k) u' ∧ u.ReadBack u' := by
  obtain ⟨o', hread, heq⟩ := h.survives
  obtain ⟨hheight, hflag⟩ := nHeight_back h.nHeight
  have hcode : RoundTrip (readVarInt 4) (writeVarInt 4 u.nCode.toNat) u.nCode.toNat :=
    readVarInt_writeVarInt (by decide) u.nCode.isLt
  let nVersion := if u.nHeight = 0 then 0 else varIntBack u.nVersion
  refine ⟨⟨o', u.fCoinBase, u.nHeight, nVersion⟩, ?_, heq, rfl, rfl, rfl⟩
  refine hcode.bind ?_
  simp only [hheight, hflag]
  exact (roundTrip_readVersion u).bind (hread.bind_pure _)

/-- A record is recognised by its output. -/
theorem exact_unserialize (hc : c.EncodesElements) (hk : k.Lawful)
    (hheight : u.nHeight.toNat < 2 ^ 31) (hvalue : 0 ≤ u.txout.nValue ∧ u.txout.nValue ≤ maxMoney)
    (hscript : u.txout.scriptPubKey.length ≤ maxSize) :
    Exact (unserialize c k) (u.serialize c k) (fun u' => u'.txout.eq u.txout = true)
      (CTxOutCompressor.Survives c k u.txout) := by
  obtain ⟨hback, hflag⟩ := nHeight_back hheight
  have hcode : RoundTrip (readVarInt 4) (writeVarInt 4 u.nCode.toNat) u.nCode.toNat :=
    readVarInt_writeVarInt (by decide) u.nCode.isLt
  refine .roundTrip_bind hcode ?_
  simp only [hback, hflag]
  refine .roundTrip_bind (roundTrip_readVersion u) (.bind_pure ?_)
  exact CTxOutCompressor.exact_unserialize hc hk hvalue hscript

/-- What is read back is written in the same way, so it has the same checksum. -/
theorem ReadBack.serialize_eq {u' : CTxInUndo G} (h : u.ReadBack u') :
    u'.serialize c k = u.serialize c k := by
  have hcode : u'.nCode = u.nCode := by rw [nCode, nCode, h.nHeight, h.fCoinBase]
  rw [serialize, serialize, hcode, h.nHeight, CTxOutCompressor.serialize_congr h.txout, h.nVersion]
  by_cases hzero : u.nHeight = 0
  · rw [if_pos hzero, if_pos hzero]
  · rw [if_neg hzero, if_neg hzero, if_neg hzero, writeVarIntSigned_varIntBack]

end CTxInUndo

/-! ## The file -/

section File

variable [Zero G] [DecidableEq G] {c : Crypto G} {k : PubKeys}

/-- Two undo data of the same shape whose records are related. -/
def CBlockUndo.Related (R : CTxInUndo G → CTxInUndo G → Prop) (b b' : CBlockUndo G) : Prop :=
  List.Forall₂ (fun t t' => List.Forall₂ R t.vprevout t'.vprevout) b.vtxundo b'.vtxundo

/-- The vectors are within the size a stream admits. -/
structure CBlockUndo.SizesFit (b : CBlockUndo G) : Prop where
  vtxundo : b.vtxundo.length ≤ maxSize
  vprevout : ∀ t ∈ b.vtxundo, t.vprevout.length ≤ maxSize

theorem CTxUndo.exists_roundTrip {t : CTxUndo G} (hsize : t.vprevout.length ≤ maxSize)
    (h : ∀ u ∈ t.vprevout, u.Writable c k) :
    ∃ t', RoundTrip (unserialize c k) (t.serialize c k) t' ∧
      List.Forall₂ CTxInUndo.ReadBack t.vprevout t'.vprevout := by
  obtain ⟨us, hread, hback⟩ := RoundTrip.repeat_rel t.vprevout fun u hu =>
    CTxInUndo.exists_roundTrip (h u hu)
  exact ⟨⟨us⟩, (readCompactSize_writeCompactSize hsize).bind (hread.bind_pure _), hback⟩

theorem CBlockUndo.exists_roundTrip (hsize : b.SizesFit)
    (h : ∀ t ∈ b.vtxundo, ∀ u ∈ t.vprevout, u.Writable c k) :
    ∃ b', RoundTrip (unserialize c k) (b.serialize c k) b' ∧
      b.Related CTxInUndo.ReadBack b' := by
  obtain ⟨ts, hread, hback⟩ := RoundTrip.repeat_rel b.vtxundo fun t ht =>
    CTxUndo.exists_roundTrip (hsize.vprevout t ht) (h t ht)
  exact ⟨⟨ts⟩, (readCompactSize_writeCompactSize hsize.vtxundo).bind (hread.bind_pure _), hback⟩

namespace CBlockUndo

theorem Related.serialize_eq {b' : CBlockUndo G} (h : b.Related CTxInUndo.ReadBack b') :
    b'.serialize c k = b.serialize c k := by
  have hflat : ∀ {α : Type} {R : α → α → Prop} {f : α → Bytes} (l l' : List α),
      (∀ a a', R a a' → f a' = f a) → List.Forall₂ R l l' →
        l'.length = l.length ∧ l'.flatMap f = l.flatMap f := by
    intro α R f l l' hf hR
    induction hR with
    | nil => exact ⟨rfl, rfl⟩
    | cons hhead _ ih => simp [hf _ _ hhead, ih.1, ih.2]
  have htx : ∀ t t' : CTxUndo G, List.Forall₂ CTxInUndo.ReadBack t.vprevout t'.vprevout →
      t'.serialize c k = t.serialize c k := by
    intro t t' hR
    obtain ⟨hlen, hbytes⟩ := hflat _ _
      (fun _ _ hu => hu.serialize_eq) hR
    rw [CTxUndo.serialize, CTxUndo.serialize, hlen, hbytes]
  obtain ⟨hlen, hbytes⟩ := hflat _ _ htx h
  rw [serialize, serialize, hlen, hbytes]

/-- **The file is read back** when its records can be written. -/
theorem readBack_of_writable (hsize : b.SizesFit)
    (h : ∀ t ∈ b.vtxundo, ∀ u ∈ t.vprevout, u.Writable c k) (hashBlock : Uint256) :
    ∃ b', b.Related CTxInUndo.ReadBack b' ∧ ∀ tail,
      undoReadFromDisk c k hashBlock (undoWriteToDisk c k b hashBlock ++ tail) = some b' := by
  obtain ⟨b', hread, hback⟩ := exists_roundTrip hsize h
  refine ⟨b', hback, fun tail => ?_⟩
  have hsum : b'.checksum c k hashBlock = b.checksum c k hashBlock := by
    rw [checksum, checksum, hback.serialize_eq]
  have hfile := hread (writeUint256 (b.checksum c k hashBlock) ++ tail)
  have hcheck := readUint256_writeUint256 (b.checksum c k hashBlock) tail
  unfold undoReadFromDisk undoWriteToDisk
  rw [List.append_assoc, hfile]
  simp only [hcheck, hsum, if_true]

/-- **Only then** does it come back with equal outputs. -/
theorem survives_of_sameOutputs (hc : c.EncodesElements) (hk : k.Lawful) {b' : CBlockUndo G}
    (hsize : b.SizesFit) (hrecords : ∀ t ∈ b.vtxundo, ∀ u ∈ t.vprevout, u.nHeight.toNat < 2 ^ 31 ∧
      (0 ≤ u.txout.nValue ∧ u.txout.nValue ≤ maxMoney) ∧ u.txout.scriptPubKey.length ≤ maxSize)
    {hashBlock : Uint256} {tail : Bytes}
    (hread : undoReadFromDisk c k hashBlock (undoWriteToDisk c k b hashBlock ++ tail) = some b')
    (hsame : b.Related (fun u u' => u'.txout.eq u.txout = true) b') :
    ∀ t ∈ b.vtxundo, ∀ u ∈ t.vprevout, CTxOutCompressor.Survives c k u.txout := by
  have htx : ∀ t ∈ b.vtxundo, Exact (CTxUndo.unserialize c k) (t.serialize c k)
      (fun t' => List.Forall₂ (fun u u' => u'.txout.eq u.txout = true) t.vprevout t'.vprevout)
      (∀ u ∈ t.vprevout, CTxOutCompressor.Survives c k u.txout) := by
    intro t ht
    have hexact := Exact.repeat t.vprevout fun u hu =>
      CTxInUndo.exact_unserialize hc hk (hrecords t ht u hu).1 (hrecords t ht u hu).2.1
        (hrecords t ht u hu).2.2
    exact .roundTrip_bind (readCompactSize_writeCompactSize (hsize.vprevout t ht))
      (.bind_pure hexact)
  have hexact : Exact (unserialize c k) (b.serialize c k)
      (fun b' => b.Related (fun u u' => u'.txout.eq u.txout = true) b')
      (∀ t ∈ b.vtxundo, ∀ u ∈ t.vprevout, CTxOutCompressor.Survives c k u.txout) :=
    .roundTrip_bind (readCompactSize_writeCompactSize hsize.vtxundo)
      (.bind_pure (Exact.repeat b.vtxundo htx))
  unfold undoReadFromDisk undoWriteToDisk at hread
  rw [List.append_assoc] at hread
  split at hread
  · cases hread
  · next b₁ file hrun =>
    split at hread
    · cases hread
    · split at hread
      · cases hread
        exact (hexact _ b' file hrun hsame).2
      · cases hread

end CBlockUndo

end File

end Navcoin
