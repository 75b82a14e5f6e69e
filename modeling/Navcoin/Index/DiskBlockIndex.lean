import Navcoin.Undo.Records

/-!
# Block indexes on disk

`CDiskBlockIndex`: a block index with the votes that its block has recorded, in the format of the
block tree database.  Status bits decide which fields there are and how votes are written.

* `CDiskBlockIndex.back`: what is read of what was written;
* `unserialize_serialize`: it is read, as long as the lists have sizes that a stream admits;
* `unserialize_refused`: otherwise nothing is.
-/

namespace Navcoin

/-! ## Fixed-width fields -/

def writeUint32 (n : UInt32) : Bytes := toLE 4 n.toNat

def readUint32 : StreamReader UInt32 := UInt32.ofNat <$> serReadData 4

theorem readUint32_writeUint32 (n : UInt32) : RoundTrip readUint32 (writeUint32 n) n := by
  have hread : RoundTrip (serReadData 4) (toLE 4 n.toNat) n.toNat := serReadData_toLE n.toNat_lt
  have hmap := hread.map UInt32.ofNat
  rwa [UInt32.ofNat_toNat] at hmap

/-- Signed integers, two's complement, in the bytes of their type. -/
def writeInt (w : Nat) (n : BitVec (8 * w)) : Bytes := toLE w n.toNat

def readInt (w : Nat) : StreamReader (BitVec (8 * w)) := BitVec.ofNat (8 * w) <$> serReadData w

theorem readInt_writeInt (w : Nat) (n : BitVec (8 * w)) :
    RoundTrip (readInt w) (writeInt w n) n := by
  have hlt : n.toNat < 256 ^ w := by
    rw [show (256 : Nat) = 2 ^ 8 from rfl, ← pow_mul]
    exact n.isLt
  have hmap := (serReadData_toLE hlt).map (BitVec.ofNat (8 * w))
  rwa [BitVec.ofNat_toNat, BitVec.setWidth_eq] at hmap

def writeBool (b : Bool) : Bytes := toLE 1 (if b then 1 else 0)

def readBool : StreamReader Bool := (fun f => f != 0) <$> serReadData 1

theorem readBool_writeBool (b : Bool) : RoundTrip readBool (writeBool b) b := by
  have hread : RoundTrip (serReadData 1) (writeBool b) (if b then 1 else 0) :=
    serReadData_toLE (by cases b <;> decide)
  have hmap := hread.map fun f => f != 0
  have hb : ((if b then 1 else 0) != 0) = b := by cases b <;> rfl
  rwa [hb] at hmap

/-- `VARINT` of an unsigned field. -/
def writeVarUint32 (n : UInt32) : Bytes := writeVarInt 4 n.toNat

def readVarUint32 : StreamReader UInt32 := UInt32.ofNat <$> readVarInt 4

theorem readVarUint32_writeVarUint32 (n : UInt32) :
    RoundTrip readVarUint32 (writeVarUint32 n) n := by
  have hread : RoundTrip (readVarInt 4) (writeVarInt 4 n.toNat) n.toNat :=
    readVarInt_writeVarInt (by decide) n.toNat_lt
  have hmap := hread.map UInt32.ofNat
  rwa [UInt32.ofNat_toNat] at hmap

/-! ## Optional fields, vectors and maps -/

section Lists

variable {α : Type}
variable {r : StreamReader α} {enc : α → Bytes}

/-- A field that is there under a condition, and has its default otherwise. -/
def readIf (b : Bool) (default : α) (r : StreamReader α) : StreamReader α :=
  if b then r else pure default

theorem readIf_roundTrip (b : Bool) (default : α) {bs : Bytes} {a : α} (h : RoundTrip r bs a) :
    RoundTrip (readIf b default r) (if b then bs else []) (if b then a else default) := by
  cases b with
  | true => exact h
  | false => exact RoundTrip.pure default

def writeList (enc : α → Bytes) (l : List α) : Bytes :=
  writeCompactSize l.length ++ l.flatMap enc

def readList (r : StreamReader α) : StreamReader (List α) := do
  let nSize ← readCompactSize
  Reader.repeat r nSize

theorem readList_writeList (h : ∀ a, RoundTrip r (enc a) a) {l : List α}
    (hsize : l.length ≤ maxSize) : RoundTrip (readList r) (writeList enc l) l :=
  (readCompactSize_writeCompactSize hsize).bind (RoundTrip.repeat l fun a _ => h a)

theorem readList_refused {l : List α} (hsize : maxSize < l.length) :
    Refused (readList r) (writeList enc l) :=
  ((readCompactSize_refused hsize).append _).bind _

/-- `std::pair` of a hash and a value. -/
def writePair (enc : α → Bytes) (e : Uint256 × α) : Bytes := writeUint256 e.1 ++ enc e.2

def readPair (r : StreamReader α) : StreamReader (Uint256 × α) := do
  let hash ← readUint256
  let a ← r
  pure (hash, a)

theorem readPair_writePair (h : ∀ a, RoundTrip r (enc a) a) (e : Uint256 × α) :
    RoundTrip (readPair r) (writePair enc e) e :=
  (readUint256_writeUint256 e.1).bind ((h e.2).bind_pure _)

/-- `std::map` from hashes. -/
abbrev HashMap (α : Type) := OrderedMap (Prod.fst : Uint256 × α → Uint256)

/-- `insert` keeps the entry that is there. -/
def insertNew (m : HashMap α) (e : Uint256 × α) : HashMap α :=
  if m.contains e.1 then m else m.assign e

def readMap (r : StreamReader α) : StreamReader (HashMap α) :=
  (fun l => l.foldl insertNew ∅) <$> readList (readPair r)

variable {m : HashMap α}

theorem foldl_insertNew_find? {l : List (Uint256 × α)} (hnodup : (l.map Prod.fst).Nodup)
    (hm : ∀ e ∈ l, m.find? e.1 = none) (k : Uint256) :
    (l.foldl insertNew m).find? k = ((l.find? fun e => e.1 = k).or (m.find? k)) := by
  induction l generalizing m with
  | nil => rfl
  | cons e l ih =>
    obtain ⟨hnot, hrest⟩ := List.nodup_cons.mp hnodup
    have hhead : m.find? e.1 = none := hm e List.mem_cons_self
    have hinsert : insertNew m e = m.assign e := by
      rw [insertNew, OrderedMap.contains, hhead]
      rfl
    have hnext : ∀ o ∈ l, (m.assign e).find? o.1 = none := by
      intro o ho
      have hne : o.1 ≠ e.1 := fun heq => hnot (heq ▸ List.mem_map_of_mem ho)
      rw [OrderedMap.find?_assign_of_ne m hne]
      exact hm o (List.mem_cons_of_mem e ho)
    rw [List.foldl_cons, hinsert, ih hrest hnext]
    by_cases hk : e.1 = k
    · subst hk
      have hnone : l.find? (fun o => o.1 = e.1) = none := by
        rw [List.find?_eq_none]
        intro o ho heq
        exact hnot (by rw [← of_decide_eq_true heq]; exact List.mem_map_of_mem ho)
      simp [hnone]
    · rw [OrderedMap.find?_assign_of_ne m (Ne.symm hk)]
      simp [hk]

theorem foldl_insertNew_entries (m : HashMap α) : m.entries.foldl insertNew ∅ = m := by
  apply OrderedMap.ext_find?
  intro k
  rw [foldl_insertNew_find? m.nodup_keys (fun _ _ => rfl)]
  exact Option.or_none

theorem readMap_writeList (h : ∀ a, RoundTrip r (enc a) a) (hsize : m.entries.length ≤ maxSize) :
    RoundTrip (readMap r) (writeList (writePair enc) m.entries) m := by
  have hread := readList_writeList (readPair_writePair h) hsize
  have hmap := hread.map fun l => l.foldl insertNew ∅
  rwa [foldl_insertNew_entries] at hmap

theorem readMap_refused (hsize : maxSize < m.entries.length) :
    Refused (readMap r) (writeList (writePair enc) m.entries) :=
  (readList_refused hsize).map _

end Lists

/-! ## The record -/

def blockHaveData : UInt32 := 8
def blockHaveUndo : UInt32 := 16
def blockOptDao : UInt32 := 256
def blockOptSupply : UInt32 := 512
def blockProofOfStake : UInt32 := 1

/-- Where the block is. -/
structure DiskPosition where
  nHeight : BitVec 32 := 0
  nStatus : UInt32 := 0
  nTx : UInt32 := 0
  nFile : BitVec 32 := 0
  nDataPos : UInt32 := 0
  nUndoPos : UInt32 := 0

structure DiskStake where
  nFlags : UInt32 := 0
  nStakeModifier : UInt64 := 0
  prevoutStake : COutPoint := { hash := 0, n := 0xffffffff }
  nStakeTime : UInt32 := 0
  hashProof : Uint256 := 0

/-- The header of the block, its hash and the fund after it. -/
structure DiskHeader where
  nVersion : BitVec 32 := 0
  hashPrev : Uint256 := 0
  hashMerkleRoot : Uint256 := 0
  nTime : UInt32 := 0
  nBits : UInt32 := 0
  nNonce : UInt32 := 0
  blockHash : Uint256 := 0
  nCFSupply : BitVec 64 := 0
  nCFLocked : BitVec 64 := 0

structure DiskVotes where
  vPaymentRequestVotes : List (Uint256 × BitVec 32) := []
  vProposalVotes : List (Uint256 × BitVec 32) := []
  mapSupport : HashMap Bool := ∅
  mapConsultationVotes : HashMap UInt64 := ∅

structure DiskSupply where
  nPrivateMoneySupply : BitVec 64 := 0
  nPublicMoneySupply : BitVec 64 := 0

structure CDiskBlockIndex extends DiskPosition, DiskStake, DiskHeader, DiskVotes, DiskSupply

namespace DiskPosition

def hasData (d : DiskPosition) : Bool := d.nStatus &&& blockHaveData != 0
def hasUndo (d : DiskPosition) : Bool := d.nStatus &&& blockHaveUndo != 0
def isDao (d : DiskPosition) : Bool := d.nStatus &&& blockOptDao != 0
def hasSupply (d : DiskPosition) : Bool := d.nStatus &&& blockOptSupply != 0

/-- The version of the format comes first. -/
def serialize (clientVersion : BitVec 32) (d : DiskPosition) : Bytes :=
  writeVarIntSigned clientVersion ++
    (writeVarIntSigned d.nHeight ++
      (writeVarUint32 d.nStatus ++
        (writeVarUint32 d.nTx ++
          ((if d.hasData || d.hasUndo then writeVarIntSigned d.nFile else []) ++
            ((if d.hasData then writeVarUint32 d.nDataPos else []) ++
              (if d.hasUndo then writeVarUint32 d.nUndoPos else []))))))

def unserialize : StreamReader DiskPosition := do
  let _ ← readVarIntSigned
  let nHeight ← readVarIntSigned
  let nStatus ← readVarUint32
  let nTx ← readVarUint32
  let d : DiskPosition := { nHeight, nStatus, nTx }
  let nFile ← readIf (d.hasData || d.hasUndo) 0 readVarIntSigned
  let nDataPos ← readIf d.hasData 0 readVarUint32
  let nUndoPos ← readIf d.hasUndo 0 readVarUint32
  pure { d with nFile, nDataPos, nUndoPos }

/-- Of a negative number only the low bits come back, of a field that is not written its default. -/
def back (d : DiskPosition) : DiskPosition :=
  { d with
    nHeight := varIntBack d.nHeight
    nFile := if d.hasData || d.hasUndo then varIntBack d.nFile else 0
    nDataPos := if d.hasData then d.nDataPos else 0
    nUndoPos := if d.hasUndo then d.nUndoPos else 0 }

theorem unserialize_serialize (clientVersion : BitVec 32) (d : DiskPosition) :
    RoundTrip unserialize (d.serialize clientVersion) d.back := by
  refine (readVarIntSigned_writeVarIntSigned clientVersion).bind ?_
  refine (readVarIntSigned_writeVarIntSigned d.nHeight).bind ?_
  refine (readVarUint32_writeVarUint32 d.nStatus).bind ?_
  refine (readVarUint32_writeVarUint32 d.nTx).bind ?_
  refine (readIf_roundTrip _ 0 (readVarIntSigned_writeVarIntSigned d.nFile)).bind ?_
  refine (readIf_roundTrip _ 0 (readVarUint32_writeVarUint32 d.nDataPos)).bind ?_
  exact (readIf_roundTrip _ 0 (readVarUint32_writeVarUint32 d.nUndoPos)).bind_pure _

end DiskPosition

/-! ## Stake and header -/

def COutPoint.unserialize : StreamReader COutPoint := do
  let hash ← readUint256
  let n ← readUint32
  pure ⟨hash, n⟩

theorem COutPoint.unserialize_serialize (p : COutPoint) :
    RoundTrip COutPoint.unserialize p.serialize p :=
  (readUint256_writeUint256 p.hash).bind ((readUint32_writeUint32 p.n).bind_pure _)

namespace DiskStake

def isProofOfStake (d : DiskStake) : Bool := d.nFlags &&& blockProofOfStake != 0

def serialize (d : DiskStake) : Bytes :=
  writeUint32 d.nFlags ++
    (writeUint64 d.nStakeModifier ++
      ((if d.isProofOfStake then d.prevoutStake.serialize else []) ++
        ((if d.isProofOfStake then writeUint32 d.nStakeTime else []) ++
          writeUint256 d.hashProof)))

def unserialize : StreamReader DiskStake := do
  let nFlags ← readUint32
  let nStakeModifier ← readUint64
  let d : DiskStake := { nFlags, nStakeModifier }
  let prevoutStake ← readIf d.isProofOfStake { hash := 0, n := 0xffffffff } COutPoint.unserialize
  let nStakeTime ← readIf d.isProofOfStake 0 readUint32
  let hashProof ← readUint256
  pure { d with prevoutStake, nStakeTime, hashProof }

def back (d : DiskStake) : DiskStake :=
  { d with
    prevoutStake := if d.isProofOfStake then d.prevoutStake else { hash := 0, n := 0xffffffff }
    nStakeTime := if d.isProofOfStake then d.nStakeTime else 0 }

theorem unserialize_serialize (d : DiskStake) : RoundTrip unserialize d.serialize d.back := by
  refine (readUint32_writeUint32 d.nFlags).bind ?_
  refine (readUint64_writeUint64 d.nStakeModifier).bind ?_
  refine (readIf_roundTrip _ _ d.prevoutStake.unserialize_serialize).bind ?_
  refine (readIf_roundTrip _ _ (readUint32_writeUint32 d.nStakeTime)).bind ?_
  exact (readUint256_writeUint256 d.hashProof).bind_pure _

end DiskStake

namespace DiskHeader

def serialize (d : DiskHeader) : Bytes :=
  writeInt 4 d.nVersion ++
    (writeUint256 d.hashPrev ++
      (writeUint256 d.hashMerkleRoot ++
        (writeUint32 d.nTime ++
          (writeUint32 d.nBits ++
            (writeUint32 d.nNonce ++
              (writeUint256 d.blockHash ++
                (writeInt 8 d.nCFSupply ++ writeInt 8 d.nCFLocked)))))))

def unserialize : StreamReader DiskHeader := do
  let nVersion ← readInt 4
  let hashPrev ← readUint256
  let hashMerkleRoot ← readUint256
  let nTime ← readUint32
  let nBits ← readUint32
  let nNonce ← readUint32
  let blockHash ← readUint256
  let nCFSupply ← readInt 8
  let nCFLocked ← readInt 8
  pure { nVersion, hashPrev, hashMerkleRoot, nTime, nBits, nNonce, blockHash, nCFSupply, nCFLocked }

theorem unserialize_serialize (d : DiskHeader) : RoundTrip unserialize d.serialize d := by
  refine (readInt_writeInt 4 d.nVersion).bind ?_
  refine (readUint256_writeUint256 d.hashPrev).bind ?_
  refine (readUint256_writeUint256 d.hashMerkleRoot).bind ?_
  refine (readUint32_writeUint32 d.nTime).bind ?_
  refine (readUint32_writeUint32 d.nBits).bind ?_
  refine (readUint32_writeUint32 d.nNonce).bind ?_
  refine (readUint256_writeUint256 d.blockHash).bind ?_
  refine (readInt_writeInt 8 d.nCFSupply).bind ?_
  exact (readInt_writeInt 8 d.nCFLocked).bind_pure _

end DiskHeader

/-! ## Votes and supply -/

namespace DiskVotes

/-- Without the DAO a vote is written as whether it is a yes. -/
def proxy (e : Uint256 × BitVec 32) : Uint256 × Bool := (e.1, e.2 == 1)

def ofProxy (e : Uint256 × Bool) : Uint256 × BitVec 32 := (e.1, if e.2 then 1 else 0)

def serialize (fDao : Bool) (d : DiskVotes) : Bytes :=
  if fDao then
    writeList (writePair (writeInt 4)) d.vPaymentRequestVotes ++
      (writeList (writePair (writeInt 4)) d.vProposalVotes ++
        (writeList (writePair writeBool) d.mapSupport.entries ++
          writeList (writePair writeUint64) d.mapConsultationVotes.entries))
  else
    writeList (writePair writeBool) (d.vPaymentRequestVotes.map proxy) ++
      writeList (writePair writeBool) (d.vProposalVotes.map proxy)

def unserializeDao : StreamReader DiskVotes := do
  let vPaymentRequestVotes ← readList (readPair (readInt 4))
  let vProposalVotes ← readList (readPair (readInt 4))
  let mapSupport ← readMap readBool
  let mapConsultationVotes ← readMap readUint64
  pure { vPaymentRequestVotes, vProposalVotes, mapSupport, mapConsultationVotes }

def unserializeProxies : StreamReader DiskVotes := do
  let vPaymentRequestVotesProxy ← readList (readPair readBool)
  let vProposalVotesProxy ← readList (readPair readBool)
  pure { vPaymentRequestVotes := vPaymentRequestVotesProxy.map ofProxy
         vProposalVotes := vProposalVotesProxy.map ofProxy }

def unserialize (fDao : Bool) : StreamReader DiskVotes :=
  if fDao then unserializeDao else unserializeProxies

/-- The sizes of what is written are those a stream admits. -/
structure SizesFit (fDao : Bool) (d : DiskVotes) : Prop where
  requests : d.vPaymentRequestVotes.length ≤ maxSize
  proposals : d.vProposalVotes.length ≤ maxSize
  support : fDao = true → d.mapSupport.entries.length ≤ maxSize
  consultations : fDao = true → d.mapConsultationVotes.entries.length ≤ maxSize

def back (fDao : Bool) (d : DiskVotes) : DiskVotes :=
  if fDao then d
  else { vPaymentRequestVotes := (d.vPaymentRequestVotes.map proxy).map ofProxy
         vProposalVotes := (d.vProposalVotes.map proxy).map ofProxy }

theorem unserialize_serialize {fDao : Bool} {d : DiskVotes} (h : d.SizesFit fDao) :
    RoundTrip (unserialize fDao) (d.serialize fDao) (d.back fDao) := by
  have hint := readPair_writePair (readInt_writeInt 4)
  have hbool := readPair_writePair readBool_writeBool
  cases fDao with
  | true =>
    refine (readList_writeList hint h.requests).bind ?_
    refine (readList_writeList hint h.proposals).bind ?_
    refine (readMap_writeList readBool_writeBool (h.support rfl)).bind ?_
    exact (readMap_writeList readUint64_writeUint64 (h.consultations rfl)).bind_pure _
  | false =>
    refine (readList_writeList hbool (by simpa using h.requests)).bind ?_
    exact (readList_writeList hbool (by simpa using h.proposals)).bind_pure _

theorem unserialize_refused {fDao : Bool} {d : DiskVotes} (h : ¬ d.SizesFit fDao) :
    Refused (unserialize fDao) (d.serialize fDao) := by
  have hint := readPair_writePair (readInt_writeInt 4)
  have hbool := readPair_writePair readBool_writeBool
  cases fDao with
  | true =>
    -- the first list that is too long ends the record
    by_cases hrequests : d.vPaymentRequestVotes.length ≤ maxSize
    · refine (readList_writeList hint hrequests).bind_refused ?_
      by_cases hproposals : d.vProposalVotes.length ≤ maxSize
      · refine (readList_writeList hint hproposals).bind_refused ?_
        by_cases hsupport : d.mapSupport.entries.length ≤ maxSize
        · refine (readMap_writeList readBool_writeBool hsupport).bind_refused ?_
          have hsize : maxSize < d.mapConsultationVotes.entries.length := by
            by_contra hfit
            exact h ⟨hrequests, hproposals, fun _ => hsupport, fun _ => by omega⟩
          exact (readMap_refused hsize).bind _
        · exact ((readMap_refused (by omega)).append _).bind _
      · exact ((readList_refused (by omega)).append _).bind _
    · exact ((readList_refused (by omega)).append _).bind _
  | false =>
    by_cases hrequests : d.vPaymentRequestVotes.length ≤ maxSize
    · refine (readList_writeList hbool (by simpa using hrequests)).bind_refused ?_
      have hsize : maxSize < (d.vProposalVotes.map proxy).length := by
        rw [List.length_map]
        by_contra hfit
        exact h ⟨hrequests, by omega, by simp, by simp⟩
      exact (readList_refused hsize).bind _
    · exact ((readList_refused (by rw [List.length_map]; omega)).append _).bind _

end DiskVotes

namespace DiskSupply

def serialize (fSupply : Bool) (d : DiskSupply) : Bytes :=
  (if fSupply then writeInt 8 d.nPrivateMoneySupply else []) ++
    (if fSupply then writeInt 8 d.nPublicMoneySupply else [])

def unserialize (fSupply : Bool) : StreamReader DiskSupply := do
  let nPrivateMoneySupply ← readIf fSupply 0 (readInt 8)
  let nPublicMoneySupply ← readIf fSupply 0 (readInt 8)
  pure { nPrivateMoneySupply, nPublicMoneySupply }

def back (fSupply : Bool) (d : DiskSupply) : DiskSupply :=
  { nPrivateMoneySupply := if fSupply then d.nPrivateMoneySupply else 0
    nPublicMoneySupply := if fSupply then d.nPublicMoneySupply else 0 }

theorem unserialize_serialize (fSupply : Bool) (d : DiskSupply) :
    RoundTrip (unserialize fSupply) (d.serialize fSupply) (d.back fSupply) := by
  refine (readIf_roundTrip fSupply 0 (readInt_writeInt 8 d.nPrivateMoneySupply)).bind ?_
  exact (readIf_roundTrip fSupply 0 (readInt_writeInt 8 d.nPublicMoneySupply)).bind_pure _

end DiskSupply

/-! ## The whole record -/

namespace CDiskBlockIndex

def serialize (clientVersion : BitVec 32) (d : CDiskBlockIndex) : Bytes :=
  d.toDiskPosition.serialize clientVersion ++
    (d.toDiskStake.serialize ++
      (d.toDiskHeader.serialize ++
        (d.toDiskVotes.serialize d.isDao ++ d.toDiskSupply.serialize d.hasSupply)))

def unserialize : StreamReader CDiskBlockIndex := do
  let position ← DiskPosition.unserialize
  let stake ← DiskStake.unserialize
  let header ← DiskHeader.unserialize
  let votes ← DiskVotes.unserialize position.isDao
  let supply ← DiskSupply.unserialize position.hasSupply
  pure { position, stake, header, votes, supply with }

/-- What is read back. -/
def back (d : CDiskBlockIndex) : CDiskBlockIndex :=
  { d.toDiskPosition.back, d.toDiskStake.back, d.toDiskHeader, d.toDiskVotes.back d.isDao,
    d.toDiskSupply.back d.hasSupply with }

/-- **A record is read back** when its lists are not too long. -/
theorem unserialize_serialize (clientVersion : BitVec 32) {d : CDiskBlockIndex}
    (h : d.toDiskVotes.SizesFit d.isDao) :
    RoundTrip unserialize (d.serialize clientVersion) d.back := by
  refine (DiskPosition.unserialize_serialize clientVersion d.toDiskPosition).bind ?_
  refine (DiskStake.unserialize_serialize d.toDiskStake).bind ?_
  refine (DiskHeader.unserialize_serialize d.toDiskHeader).bind ?_
  refine (DiskVotes.unserialize_serialize h).bind ?_
  exact (DiskSupply.unserialize_serialize d.hasSupply d.toDiskSupply).bind_pure _

/-- Otherwise it is not read at all. -/
theorem unserialize_refused (clientVersion : BitVec 32) {d : CDiskBlockIndex}
    (h : ¬ d.toDiskVotes.SizesFit d.isDao) :
    Refused unserialize (d.serialize clientVersion) := by
  refine (DiskPosition.unserialize_serialize clientVersion d.toDiskPosition).bind_refused ?_
  refine (DiskStake.unserialize_serialize d.toDiskStake).bind_refused ?_
  refine (DiskHeader.unserialize_serialize d.toDiskHeader).bind_refused ?_
  exact ((DiskVotes.unserialize_refused h).append _).bind _

end CDiskBlockIndex

end Navcoin
