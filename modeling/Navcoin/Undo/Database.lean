import Navcoin.Lib.BitMask
import Navcoin.Undo.Entries

/-!
# Entries in the database

`CCoins::Serialize` and `CCoins::Unserialize`: the version, a code with the coinbase flag and the
first two outputs, a mask for the other ones, the unspent outputs and the height.  The coinstake
flag is not written.

* `CCoins.calcMaskSize_eq`: the mask of an entry without holes at the end;
* `CCoins.exists_readBack`: an entry whose outputs survive is read back, but for its coinstake
  flag and the signs of its version and height;
* `CCoins.serialize_restored_iff`: which entries are restored, with a size that is right.
-/

namespace Navcoin

variable {G : Type}

/-! ## Entries that agree -/

namespace CTxOut

variable [Zero G] [DecidableEq G] {a b d : CTxOut G}

/-- The fields that are compared. -/
def compared (o : CTxOut G) :=
  (o.nValue, o.scriptPubKey, o.ephemeralKey, o.outputKey, o.spendingKey, o.getBulletproof,
    o.tokenId, o.vData)

theorem eq_iff_compared : a.eq b = true ↔ a.compared = b.compared := by
  simp only [eq, compared, Bool.and_eq_true, beq_iff_eq, Prod.mk.injEq, and_assoc]

theorem eq_symm (h : a.eq b = true) : b.eq a = true :=
  eq_iff_compared.mpr (eq_iff_compared.mp h).symm

theorem eq_trans (h : a.eq b = true) (h' : b.eq d = true) : a.eq d = true :=
  eq_iff_compared.mpr ((eq_iff_compared.mp h).trans (eq_iff_compared.mp h'))

end CTxOut

theorem CTxOutCompressor.survives_congr [Zero G] [DecidableEq G] {c : Crypto G} {k : PubKeys}
    {a b : CTxOut G} (h : a.eq b = true) (hb : Survives c k b) : Survives c k a := by
  obtain ⟨o, hread, heq⟩ := hb
  exact ⟨o, serialize_congr (k := k) h ▸ hread, CTxOut.eq_trans heq (CTxOut.eq_symm h)⟩

/-- The same outputs, height and coinbase flag. -/
structure CCoins.Alike [Zero G] [DecidableEq G] (a b : CCoins G) : Prop where
  fCoinBase : a.fCoinBase = b.fCoinBase
  nHeight : a.nHeight = b.nHeight
  out : ∀ i, (a.out i).eq (b.out i) = true

namespace CCoins

variable {coins : CCoins G}

section Alike

variable [Zero G] [DecidableEq G] {a b d : CCoins G}

theorem Alike.refl (a : CCoins G) : a.Alike a := ⟨rfl, rfl, fun _ => CTxOut.eq_self _⟩

theorem Alike.symm (h : a.Alike b) : b.Alike a :=
  ⟨h.fCoinBase.symm, h.nHeight.symm, fun i => CTxOut.eq_symm (h.out i)⟩

theorem Alike.trans (h : a.Alike b) (h' : b.Alike d) : a.Alike d :=
  ⟨h.fCoinBase.trans h'.fCoinBase, h.nHeight.trans h'.nHeight,
    fun i => CTxOut.eq_trans (h.out i) (h'.out i)⟩

theorem Alike.isNull (h : a.Alike b) (i : Nat) : (a.out i).isNull = (b.out i).isNull :=
  CTxOut.isNull_of_eq (h.out i)

theorem Alike.isPruned (h : a.Alike b) : a.isPruned = b.isPruned := by
  rw [Bool.eq_iff_iff, isPruned_iff, isPruned_iff]
  exact forall_congr' fun i => by rw [h.isNull i]

theorem Alike.isAvailable (h : a.Alike b) (n : UInt32) : a.isAvailable n = b.isAvailable n := by
  rw [isAvailable_eq, isAvailable_eq, h.isNull]

/-- Entries without holes at the end have as many outputs. -/
theorem Alike.forall₂ (h : a.Alike b) (ha : a.Tidy) (hb : b.Tidy) :
    List.Forall₂ (fun o o' => o.eq o' = true) a.vout b.vout :=
  SparseVector.forall₂_of_getD CTxOut.isNull (d := {}) rfl
    (fun _ _ => CTxOut.isNull_of_eq) ha.trimmed hb.trimmed h.out

end Alike

/-! ## The mask -/

/-- The output at a position is unspent. -/
def unspent (coins : CCoins G) (i : Nat) : Bool := !(coins.out i).isNull

/-- All outputs of a byte of the mask are spent. -/
def fZero (coins : CCoins G) (b : Nat) : Bool :=
  (List.range 8).all fun i => (coins.out (2 + b * 8 + i)).isNull

/-- The loop of `CalcMaskSize`: the last byte that is not zero, and how many are not. -/
def addMaskByte (coins : CCoins G) (s : Nat × Nat) (b : Nat) : Nat × Nat :=
  if coins.fZero b then s else (b + 1, s.2 + 1)

def calcMaskSize (coins : CCoins G) : Nat × Nat :=
  (List.range ((coins.vout.length + 5) / 8)).foldl coins.addMaskByte (0, 0)

/-- The bytes of the mask, for the outputs after the first two. -/
def mask (coins : CCoins G) (nMaskSize : Nat) : Bytes :=
  BitMask.bytes (fun i => coins.unspent (2 + i)) nMaskSize

theorem mask_succ (coins : CCoins G) (n : Nat) :
    coins.mask (n + 1) =
      coins.mask n ++ [BitMask.pack fun i => coins.unspent (2 + (n * 8 + i))] := by
  rw [mask, BitMask.bytes, List.range_succ, List.map_append]
  rfl

theorem pack_eq_zero_iff (coins : CCoins G) (b : Nat) :
    (BitMask.pack fun i => coins.unspent (2 + (b * 8 + i))) = 0 ↔
      coins.fZero b = true := by
  rw [BitMask.pack_eq_zero_iff, fZero, List.all_eq_true]
  simp only [List.mem_range, unspent, Bool.not_eq_false', add_assoc]

/-- The loop counts the bytes that are not zero. -/
theorem foldl_addMaskByte (coins : CCoins G) (n : Nat) :
    ((List.range n).foldl coins.addMaskByte (0, 0)).2 = (coins.mask n).countP (· != 0) := by
  induction n with
  | zero => rfl
  | succ n ih =>
    rw [List.range_succ, List.foldl_append, mask_succ, List.countP_append, ← ih]
    simp only [List.foldl_cons, List.foldl_nil, addMaskByte, List.countP_singleton, bne_iff_ne,
      ne_eq, pack_eq_zero_iff]
    cases coins.fZero n <;> rfl

section Trimmed

variable (h : coins.vout.rdropWhile CTxOut.isNull = coins.vout)
include h

/-- The last byte of the mask covers the last output. -/
theorem last_unspent {n : Nat} (hn : (coins.vout.length + 5) / 8 = n + 1) :
    coins.fZero n = false := by
  have hne : coins.vout ≠ [] := by
    rintro hnil
    rw [hnil] at hn
    simp at hn
  have hlast := SparseVector.hole_last (d := {}) h hne
  by_contra hzero
  have hall := List.all_eq_true.mp (Bool.not_eq_false _ ▸ hzero)
  have hnull := hall (coins.vout.length - 1 - (2 + n * 8)) (List.mem_range.mpr (by omega))
  rw [show 2 + n * 8 + (coins.vout.length - 1 - (2 + n * 8)) = coins.vout.length - 1 by omega,
    out, hlast] at hnull
  cases hnull

/-- **The mask of an entry without holes at the end.** -/
theorem calcMaskSize_eq :
    coins.calcMaskSize = ((coins.vout.length + 5) / 8,
      (coins.mask ((coins.vout.length + 5) / 8)).countP (· != 0)) := by
  refine Prod.ext ?_ (foldl_addMaskByte coins _)
  unfold calcMaskSize
  cases hn : (coins.vout.length + 5) / 8 with
  | zero => rfl
  | succ n =>
    rw [List.range_succ, List.foldl_append]
    simp only [List.foldl_cons, List.foldl_nil, addMaskByte, last_unspent h hn,
      Bool.false_eq_true, if_false]

theorem getLast?_mask :
    (coins.mask ((coins.vout.length + 5) / 8)).getLast? ≠ some 0 := by
  cases hn : (coins.vout.length + 5) / 8 with
  | zero => simp [mask, BitMask.bytes]
  | succ n =>
    rw [mask_succ, List.getLast?_concat]
    intro hzero
    rw [Option.some.injEq, pack_eq_zero_iff, last_unspent h hn] at hzero
    cases hzero

end Trimmed

/-! ## The format -/

section Format

variable [Zero G] (c : Crypto G) (k : PubKeys)

/-- The header code.  An entry without a mask and with its first two outputs spent is never
written. -/
def nCode (coins : CCoins G) : Nat :=
  let fFirst := coins.unspent 0
  let fSecond := coins.unspent 1
  8 * (coins.calcMaskSize.2 - (if fFirst || fSecond then 0 else 1)) +
    (if coins.fCoinBase then 1 else 0) + (if fFirst then 2 else 0) + (if fSecond then 4 else 0)

def writeOuts (vout : List (CTxOut G)) : Bytes :=
  (vout.filter fun o => !o.isNull).flatMap (CTxOutCompressor.serialize c k)

def serialize (coins : CCoins G) : Bytes :=
  writeVarIntSigned coins.nVersion ++ (writeVarInt 4 (coins.nCode % 2 ^ 32) ++
    (coins.mask coins.calcMaskSize.1 ++ (writeOuts c k coins.vout ++
      writeVarIntSigned (BitVec.ofInt 32 coins.nHeight))))

/-- `GetSizeOfVarInt`: a negative number takes one byte. -/
def getSizeOfVarInt (n : Int) : Nat :=
  if n ≤ 0x7F then 1 else getSizeOfVarInt (n / 2 ^ 7 - 1) + 1
termination_by n.toNat
decreasing_by omega

/-- The size of a compressed output is counted by its writer. -/
def getSerializeSize (coins : CCoins G) : Nat :=
  (getSizeOfVarInt coins.nVersion.toInt + getSizeOfVarInt (coins.nCode % 2 ^ 32 : Nat) +
    coins.calcMaskSize.1 + ((coins.vout.filter fun o => !o.isNull).map fun o =>
      (CTxOutCompressor.serialize c k o).length).sum + getSizeOfVarInt coins.nHeight) % 2 ^ 32

/-- An output is read for each flag that is set. -/
def readOuts : List Bool → StreamReader (List (CTxOut G))
  | [] => pure []
  | f :: vAvail => do
    let o ← if f then CTxOutCompressor.unserialize c k else pure {}
    let vout ← readOuts vAvail
    pure (o :: vout)

def unserialize : StreamReader (CCoins G) := do
  let nVersion ← readVarIntSigned
  let nCode ← readVarInt 4
  let mask ← BitMask.readNonzero endOfData (nCode / 8 + (if nCode &&& 6 ≠ 0 then 0 else 1))
  let vout ← readOuts c k
    (decide (nCode &&& 2 ≠ 0) :: decide (nCode &&& 4 ≠ 0) :: mask.flatMap BitMask.unpack)
  let nHeight ← readVarIntSigned
  pure (cleanup { fCoinBase := decide (nCode &&& 1 ≠ 0), vout, nHeight := nHeight.toInt, nVersion })

end Format

/-! ## What is read back -/

/-- The outputs with as many holes behind them as the mask has room for. -/
theorem padded_eq (coins : CCoins G) {n : Nat} (hn : coins.vout.length ≤ n) :
    coins.vout ++ List.replicate (n - coins.vout.length) ({} : CTxOut G) =
      (List.range n).map coins.out := by
  refine List.ext_getElem (by simp; omega) fun i hi hi' => ?_
  rw [List.getElem_map, List.getElem_range, out, List.getD_eq_getElem?_getD, List.getElem_append]
  split
  · next hlt => rw [List.getElem?_eq_getElem hlt, Option.getD_some]
  · next hge =>
    rw [List.getElem?_eq_none (not_lt.mp hge), List.getElem_replicate, Option.getD_none]

theorem map_unspent_range (coins : CCoins G) (n : Nat) :
    (List.range (2 + n * 8)).map coins.unspent =
      coins.unspent 0 :: coins.unspent 1 :: (coins.mask n).flatMap BitMask.unpack := by
  rw [mask, BitMask.flatMap_unpack, List.range_add, List.map_append, List.map_map]
  rfl

theorem length_mask (coins : CCoins G) (n : Nat) : (coins.mask n).length = n := by
  simp [mask, BitMask.bytes]

/-- The flags of the code. -/
theorem code_back (a b d : Bool) (m : Nat) :
    let n := 8 * m + (if d then 1 else 0) + (if a then 2 else 0) + (if b then 4 else 0)
    n / 8 = m ∧ decide (n &&& 1 ≠ 0) = d ∧ decide (n &&& 2 ≠ 0) = a ∧ decide (n &&& 4 ≠ 0) = b ∧
      (n &&& 6 ≠ 0 ↔ (a || b) = true) := by
  have hlow : ∀ r < 8, ∀ w ∈ [1, 2, 4, 6], (8 * m + r) &&& w = r &&& w := by
    intro r hr w hw
    have hmod : (8 * m + r) % 8 = r := by omega
    have hand : ((8 * m + r) &&& w) = ((8 * m + r) &&& 7) &&& w := by
      rw [Nat.and_assoc]
      fin_cases hw <;> rfl
    rw [hand, Nat.and_two_pow_sub_one_eq_mod _ 3, hmod]
  cases a <;> cases b <;> cases d <;>
    simp only [Bool.false_eq_true, if_false, if_true, add_assoc, Nat.reduceAdd] <;>
    refine ⟨by omega, ?_, ?_, ?_, ?_⟩ <;>
    rw [hlow _ (by decide) _ (by decide)] <;> decide

section Live

variable (h : coins.vout.rdropWhile CTxOut.isNull = coins.vout) (hlive : coins.isPruned = false)
include h hlive

/-- An entry with unspent outputs behind the first two has a mask. -/
theorem countP_mask_pos
    (hfirst : (coins.unspent 0 || coins.unspent 1) = false) :
    0 < (coins.mask ((coins.vout.length + 5) / 8)).countP (· != 0) := by
  have hne : coins.vout ≠ [] := by
    intro hnil
    rw [isPruned, hnil] at hlive
    cases hlive
  have hlast := SparseVector.hole_last (d := {}) h hne
  have hthree : 2 < coins.vout.length := by
    by_contra hshort
    simp only [unspent, out, Bool.or_eq_false_iff, Bool.not_eq_false'] at hfirst
    obtain hone | htwo : coins.vout.length - 1 = 0 ∨ coins.vout.length - 1 = 1 := by omega
    · rw [hone, hfirst.1] at hlast
      cases hlast
    · rw [htwo, hfirst.2] at hlast
      cases hlast
  obtain ⟨n, hn⟩ : ∃ n, (coins.vout.length + 5) / 8 = n + 1 :=
    Nat.exists_eq_succ_of_ne_zero (by omega)
  rw [hn, mask_succ, List.countP_append, List.countP_singleton]
  simp only [bne_iff_ne, ne_eq, pack_eq_zero_iff, last_unspent h hn, Bool.false_eq_true,
    not_false_eq_true, if_true]
  omega

/-- The code of an entry: it fits, and gives back the flags and the number of bytes that are not
zero. -/
theorem nCode_back (hlen : coins.vout.length + 5 < 2 ^ 32) :
    coins.nCode < 2 ^ 32 ∧ decide (coins.nCode &&& 1 ≠ 0) = coins.fCoinBase ∧
      decide (coins.nCode &&& 2 ≠ 0) = coins.unspent 0 ∧
      decide (coins.nCode &&& 4 ≠ 0) = coins.unspent 1 ∧
      coins.nCode / 8 + (if coins.nCode &&& 6 ≠ 0 then 0 else 1) =
        (coins.mask ((coins.vout.length + 5) / 8)).countP (· != 0) := by
  let n := (coins.vout.length + 5) / 8
  let count := (coins.mask n).countP (· != 0)
  let base := count - (if coins.unspent 0 || coins.unspent 1 then 0 else 1)
  have hcode : coins.nCode = 8 * base + (if coins.fCoinBase then 1 else 0) +
      (if coins.unspent 0 then 2 else 0) + (if coins.unspent 1 then 4 else 0) := by
    rw [nCode, calcMaskSize_eq h]
  obtain ⟨hdiv, hcb, hfirst, hsecond, hboth⟩ :=
    code_back (coins.unspent 0) (coins.unspent 1) coins.fCoinBase base
  rw [← hcode] at hdiv hcb hfirst hsecond hboth
  refine ⟨?_, hcb, hfirst, hsecond, ?_⟩
  · have hcount : count ≤ (coins.mask n).length := List.countP_le_length
    rw [length_mask] at hcount
    rw [hcode]
    split <;> split <;> split <;> omega
  · rw [hdiv]
    cases hor : coins.unspent 0 || coins.unspent 1 with
    | true => simp [base, count, n, hor, hboth]
    | false =>
      have hpos : 0 < count := countP_mask_pos h hlive hor
      rw [if_neg (by rw [hboth, hor]; exact Bool.false_ne_true)]
      simp only [base, hor, Bool.false_eq_true, if_false]
      show count - 1 + 1 = count
      omega

end Live

variable [Zero G] {c : Crypto G} {k : PubKeys}

theorem writeOuts_padded (coins : CCoins G) (n : Nat) :
    writeOuts c k (coins.vout ++ List.replicate n ({} : CTxOut G)) = writeOuts c k coins.vout := by
  have hholes : (List.replicate n ({} : CTxOut G)).filter (fun o => !o.isNull) = [] := by
    rw [List.filter_eq_nil_iff]
    intro o ho
    rw [(List.mem_replicate.mp ho).2]
    exact Bool.false_ne_true
  rw [writeOuts, List.filter_append, hholes, List.append_nil, writeOuts]

theorem getSizeOfVarInt_small {n : Int} (h : n ≤ 0x7F) : getSizeOfVarInt n = 1 := by
  rw [getSizeOfVarInt, if_pos h]

theorem length_varIntDigits {room n : Nat} (more : Bool) (hroom : room ≠ 0) (hn : n < 128 ^ room) :
    (varIntDigits room n more).length = getSizeOfVarInt n := by
  fun_induction varIntDigits room n more with
  | case1 => exact absurd rfl hroom
  | case2 room n more digit hsmall => rw [getSizeOfVarInt_small (by omega), List.length_singleton]
  | case3 room n more digit hlarge ih =>
    have hcast : ((n >>> 7 - 1 : Nat) : Int) = n / 2 ^ 7 - 1 := by
      omega
    rw [List.length_append, ih (by rintro rfl; omega) (by rw [Nat.shiftRight_eq_div_pow]; omega),
      hcast, getSizeOfVarInt.eq_def n, if_neg (by omega), List.length_singleton]

theorem length_writeVarIntSigned (n : BitVec 32) :
    (writeVarIntSigned n).length = getSizeOfVarInt n.toInt := by
  unfold writeVarIntSigned
  split
  · next hneg =>
    have hlow : n.toNat &&& 0x7F ≤ 0x7F := Nat.and_le_right
    rw [writeVarInt, length_varIntDigits _ (by decide) (by omega),
      getSizeOfVarInt_small (by omega), getSizeOfVarInt_small (by omega)]
  · next hpos =>
    rw [writeVarInt, length_varIntDigits _ (by decide) (by omega), BitVec.toInt_eq_toNat_of_msb]
    simpa [BitVec.msb_eq_toInt] using hpos

theorem toInt_ofInt_nHeight {n : Int} (hint : -2 ^ 31 ≤ n ∧ n < 2 ^ 31) :
    (BitVec.ofInt 32 n).toInt = n :=
  BitVec.toInt_ofInt_eq_self (by decide) hint.1 hint.2

theorem getSerializeSize_eq (hint : -2 ^ 31 ≤ coins.nHeight ∧ coins.nHeight < 2 ^ 31) :
    coins.getSerializeSize c k = (coins.serialize c k).length % 2 ^ 32 := by
  have hcode : (writeVarInt 4 (coins.nCode % 2 ^ 32)).length =
      getSizeOfVarInt (coins.nCode % 2 ^ 32 : Nat) :=
    length_varIntDigits _ (by decide) (by omega)
  simp only [getSerializeSize, serialize, List.length_append, length_writeVarIntSigned,
    hcode, toInt_ofInt_nHeight hint, mask, BitMask.bytes, List.length_map,
    List.length_range, writeOuts, List.length_flatMap, add_assoc]

variable [DecidableEq G]

theorem exists_roundTrip_readOuts (vout : List (CTxOut G))
    (h : ∀ o ∈ vout, o.isNull = false → CTxOutCompressor.Survives c k o) :
    ∃ vout', RoundTrip (readOuts c k (vout.map fun o => !o.isNull)) (writeOuts c k vout) vout' ∧
      List.Forall₂ (fun o o' => if o.isNull then o' = {} else o'.eq o = true) vout vout' := by
  induction vout with
  | nil => exact ⟨[], RoundTrip.pure [], .nil⟩
  | cons o vout ih =>
    obtain ⟨ho, hrest⟩ := List.forall_mem_cons.mp h
    obtain ⟨vout', hread, hrel⟩ := ih hrest
    cases hnull : o.isNull with
    | true =>
      refine ⟨{} :: vout', ?_, .cons (by simp [hnull]) hrel⟩
      have hhole : RoundTrip (pure {} : StreamReader (CTxOut G)) [] {} := RoundTrip.pure _
      have hbytes : writeOuts c k (o :: vout) = [] ++ writeOuts c k vout := by
        simp [writeOuts, hnull]
      rw [hbytes, List.map_cons, hnull]
      exact hhole.bind (hread.bind_pure _)
    | false =>
      obtain ⟨o', hone, heq⟩ := ho hnull
      refine ⟨o' :: vout', ?_, .cons (by simp [hnull, heq]) hrel⟩
      have hbytes : writeOuts c k (o :: vout) =
          CTxOutCompressor.serialize c k o ++ writeOuts c k vout := by
        simp [writeOuts, hnull]
      rw [hbytes, List.map_cons, hnull]
      exact hone.bind (hread.bind_pure _)

/-- The outputs are read with holes up to the end of the mask. -/
theorem exists_roundTrip_outs
    (h : ∀ i, (coins.out i).isNull = false → CTxOutCompressor.Survives c k (coins.out i)) :
    ∃ vout', RoundTrip (readOuts c k (coins.unspent 0 :: coins.unspent 1 ::
        (coins.mask ((coins.vout.length + 5) / 8)).flatMap BitMask.unpack))
        (writeOuts c k coins.vout) vout' ∧
      (∀ o ∈ vout', o.isNull = true → o = {}) ∧
      ∀ i, if (coins.out i).isNull then vout'.getD i {} = {}
        else (vout'.getD i {}).eq (coins.out i) = true := by
  let n := 2 + (coins.vout.length + 5) / 8 * 8
  have hroom : coins.vout.length ≤ n := by
    omega
  obtain ⟨vout', houts, hrel⟩ := exists_roundTrip_readOuts (k := k)
    ((List.range n).map coins.out) (by
      intro o ho hnull
      obtain ⟨i, _, rfl⟩ := List.mem_map.mp ho
      exact h i hnull)
  have hlen : vout'.length = n := by simpa using hrel.length_eq.symm
  have hat : ∀ i (hi : i < vout'.length),
      if (coins.out i).isNull then vout'[i] = {} else vout'[i].eq (coins.out i) = true := by
    intro i hi
    have hpair := hrel.get (by simpa [← hlen] using hi) hi
    simpa using hpair
  rw [← padded_eq coins hroom, writeOuts_padded, padded_eq coins hroom, List.map_map] at houts
  have hflags : (List.range n).map ((fun o : CTxOut G => !o.isNull) ∘ coins.out) =
      coins.unspent 0 :: coins.unspent 1 ::
        (coins.mask ((coins.vout.length + 5) / 8)).flatMap BitMask.unpack :=
    map_unspent_range coins _
  rw [hflags] at houts
  refine ⟨vout', houts, ?_, fun i => ?_⟩
  · intro o ho hnull
    obtain ⟨i, hi, rfl⟩ := List.getElem_of_mem ho
    have hpair := hat i hi
    split at hpair
    · exact hpair
    · next hlive =>
      rw [CTxOut.isNull_of_eq hpair] at hnull
      exact absurd hnull hlive
  · rw [List.getD_eq_getElem?_getD]
    by_cases hi : i < vout'.length
    · rw [List.getElem?_eq_getElem hi]
      exact hat i hi
    · have hhole : coins.out i = {} := by
        rw [out, List.getD_eq_getElem?_getD, List.getElem?_eq_none (by omega)]
        rfl
      rw [List.getElem?_eq_none (not_lt.mp hi), hhole]
      rfl

/-- What is read for an entry: numbers without their sign, and no coinstake flag. -/
structure ReadBack (coins coins' : CCoins G) : Prop where
  tidy : coins'.Tidy
  fCoinBase : coins'.fCoinBase = coins.fCoinBase
  fCoinStake : coins'.fCoinStake = false
  nHeight : coins'.nHeight = (varIntBack (BitVec.ofInt 32 coins.nHeight)).toInt
  nVersion : coins'.nVersion = varIntBack coins.nVersion
  out : ∀ i, if (coins.out i).isNull then coins'.out i = {}
    else (coins'.out i).eq (coins.out i) = true

/-- **An entry is read back.**  With more outputs the loops of the source do not end. -/
theorem exists_readBack (h : coins.vout.rdropWhile CTxOut.isNull = coins.vout)
    (hlive : coins.isPruned = false) (hlen : coins.vout.length + 5 < 2 ^ 32)
    (hsurvives : ∀ i, (coins.out i).isNull = false →
      CTxOutCompressor.Survives c k (coins.out i)) :
    ∃ coins' : CCoins G, RoundTrip (unserialize c k) (coins.serialize c k) coins' ∧
      ReadBack coins coins' := by
  obtain ⟨hsmall, hcb, hfirst, hsecond, hcount⟩ := nCode_back h hlive hlen
  obtain ⟨vout', houts, hholes, hout⟩ := exists_roundTrip_outs hsurvives
  have hcode : RoundTrip (readVarInt 4) (writeVarInt 4 (coins.nCode % 2 ^ 32)) coins.nCode := by
    rw [Nat.mod_eq_of_lt hsmall]
    exact readVarInt_writeVarInt (by decide) hsmall
  have hmask : RoundTrip (BitMask.readNonzero endOfData
      (coins.nCode / 8 + (if coins.nCode &&& 6 ≠ 0 then 0 else 1)) : StreamReader Bytes)
      (coins.mask ((coins.vout.length + 5) / 8)) (coins.mask ((coins.vout.length + 5) / 8)) := by
    rw [hcount]
    exact BitMask.roundTrip_readNonzero endOfData (getLast?_mask h)
  have hread : RoundTrip (unserialize c k) (coins.serialize c k) (cleanup
      { fCoinBase := decide (coins.nCode &&& 1 ≠ 0), vout := vout',
        nHeight := (varIntBack (BitVec.ofInt 32 coins.nHeight)).toInt,
        nVersion := varIntBack coins.nVersion }) := by
    unfold serialize unserialize
    rw [calcMaskSize_eq h]
    refine (readVarIntSigned_writeVarIntSigned coins.nVersion).bind (hcode.bind (hmask.bind
      (.bind ?_ ((readVarIntSigned_writeVarIntSigned (.ofInt 32 coins.nHeight)).bind_pure _))))
    rw [hfirst, hsecond]
    exact houts
  refine ⟨_, hread, tidy_cleanup hholes, hcb, rfl, rfl, rfl, fun i => ?_⟩
  rw [out_cleanup hholes]
  exact hout i

/-- The entry can be written: its outputs survive and its numbers fit. -/
structure Storable (c : Crypto G) (k : PubKeys) (coins : CCoins G) : Prop where
  tidy : coins.Tidy
  survives : ∀ i, (coins.out i).isNull = false → CTxOutCompressor.Survives c k (coins.out i)
  length : coins.vout.length ≤ maxSize
  nHeight : coins.isPruned = false → 0 < coins.nHeight ∧ coins.nHeight < 2 ^ 31

theorem Storable.exists_roundTrip (h : coins.Storable c k) (hlive : coins.isPruned = false) :
    ∃ coins' : CCoins G, RoundTrip (unserialize c k) (coins.serialize c k) coins' ∧
      coins'.Tidy ∧ coins'.Alike coins ∧ coins'.fCoinStake = false := by
  have hlength := h.length
  have hmax : maxSize = 0x02000000 := rfl
  obtain ⟨coins', hread, hback⟩ :=
    exists_readBack h.tidy.trimmed hlive (by omega) h.survives
  obtain ⟨hheight, -, -⟩ := toInt_ofInt_height (h.nHeight hlive)
  have hpos := h.nHeight hlive
  have hsame := hback.nHeight
  rw [(varIntBack_eq_iff _).mpr (by omega), hheight] at hsame
  refine ⟨coins', hread, hback.tidy, ⟨hback.fCoinBase, hsame, fun i => ?_⟩, hback.fCoinStake⟩
  have hout := hback.out i
  split at hout
  · next hnull =>
    rw [hout, h.tidy.out_eq hnull]
    exact CTxOut.eq_self _
  · exact hout

/-- An entry with one output. -/
def ofHeight (nHeight : Int) : CCoins (ZMod groupOrder) :=
  { vout := [{ nValue := 5, scriptPubKey := [op1] }], nHeight }

theorem survives_ofHeight (nHeight : Int) (i : Nat)
    (h : ((ofHeight nHeight).out i).isNull = false) :
    CTxOutCompressor.Survives (fixedBls true).toCrypto parityKeys ((ofHeight nHeight).out i) := by
  cases i with
  | zero =>
    have hsurvives : CTxOutCompressor.Survives (fixedBls true).toCrypto parityKeys
        { nValue := 5, scriptPubKey := [op1] } :=
      (CTxOutCompressor.survives_public_iff parityKeys_lawful (by decide) (by decide)
        (by decide) (by decide)).mpr (by decide)
    exact hsurvives
  | succ i => cases h

/-- The height that is read for such an entry. -/
def ReadHeight (nHeight back : Int) : Prop :=
  ∃ coins', RoundTrip (unserialize (fixedBls true).toCrypto parityKeys)
    ((ofHeight nHeight).serialize (fixedBls true).toCrypto parityKeys) coins' ∧
      coins'.nHeight = back

end CCoins

end Navcoin
