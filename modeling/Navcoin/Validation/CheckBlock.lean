import Navcoin.Validation.CheckTransaction

/-!
# `CheckBlock`

The checks of a block that need no context.

* `checkBlock_ok`: what an accepted block satisfies;
* `BlockOk.isCoinStake_iff_second`: in a proof-of-stake block the coinstake is the second
  transaction and no other.
-/

namespace Navcoin

variable {G : Type}

/-! ## Blocks -/

/-- A block.  Its hash is that of its header; the members of the header that only enter the
hash are left out. -/
structure CBlock (G : Type) where
  hash : Uint256 := 0
  hashMerkleRoot : Uint256 := 0
  nTime : UInt32 := 0
  nBits : UInt32 := 0
  vtx : List (CTransaction G) := []
  vchBlockSig : Bytes := []
  /-- set by an earlier call that passed -/
  fChecked : Bool := false
  deriving DecidableEq, Repr

namespace CBlock

/-- `vtx.size() > 1 && vtx[1].IsCoinStake()` -/
def isProofOfStake (block : CBlock G) : Bool :=
  match block.vtx with
  | _ :: tx :: _ => tx.isCoinStake
  | _ => false

def isProofOfWork (block : CBlock G) : Bool := !block.isProofOfStake

/-- `GetSerializeSize` without witness data: the header has eighty bytes. -/
def serializeSize [Zero G] (c : Crypto G) (block : CBlock G) : Nat :=
  80 + (writeCompactSize block.vtx.length).length +
    (block.vtx.map fun tx => (tx.serialize c).length).sum + (writeVector block.vchBlockSig).length

end CBlock

def witnessScaleFactor : Nat := 4
def maxBlockSigopsCost : Nat := 80000

/-- The parts of the node that block checks call and that do not matter here: header hashes,
the Merkle tree, elliptic curve signatures and script parsing. -/
structure BlockNode (G : Type) extends Node G where
  /-- `CheckProofOfWork` for the hash and the target of the header -/
  checkProofOfWork : CBlock G → Bool
  /-- `BlockMerkleRoot`, and whether it reports a duplicated sequence -/
  blockMerkleRoot : CBlock G → Uint256 × Bool
  /-- the signature part of `CheckBlockSignature`, for a proof-of-stake block -/
  verifyStakerSignature : CBlock G → Bool
  getLegacySigOpCount : CTransaction G → Nat

/-! ## The function -/

def checkBlockSignature (nd : BlockNode G) (block : CBlock G) : Bool :=
  if block.isProofOfWork then block.vchBlockSig.isEmpty
  else !block.vchBlockSig.isEmpty && nd.verifyStakerSignature block

def checkMerkleRoot (nd : BlockNode G) (block : CBlock G) : Except Failure Unit := do
  let root := nd.blockMerkleRoot block
  Except.rejectIf (block.hashMerkleRoot ≠ root.1) (dos100 "bad-txnmrklroot")
  Except.rejectIf root.2 (dos100 "bad-txns-duplicate")

/-- The position of the coinstake, in a proof-of-stake block only. -/
def checkCoinStakes (block : CBlock G) : Except Failure Unit :=
  if block.isProofOfStake then
    (block.vtx.drop 2).forM fun tx => Except.rejectIf tx.isCoinStake (.reject 100 0 "")
  else .ok ()

def checkCoinBases (block : CBlock G) : Except Failure Unit :=
  match block.vtx with
  | [] => .error (dos100 "bad-cb-missing")
  | tx :: rest => do
    Except.rejectIf (tx.isCoinBase = false) (dos100 "bad-cb-missing")
    rest.forM fun tx => Except.rejectIf tx.isCoinBase (dos100 "bad-cb-multiple")

/-- The loop over the transactions, with `nBLSInputTxCount`. -/
def checkBlockTransaction [Zero G] (nd : BlockNode G) (nBLSInputTxCount : Nat)
    (tx : CTransaction G) : Except Failure Nat := do
  checkTransaction nd.toNode tx
  let count := if tx.isBLSInput then nBLSInputTxCount + 1 else nBLSInputTxCount
  Except.rejectIf (count > 1) (dos100 "bad-multiple-blsinput-txs")
  pure count

/-- Run a check when `c` holds. -/
def checkIf (c : Bool) (x : Except Failure Unit) : Except Failure Unit := if c then x else .ok ()

/-- The checks after the test of `fChecked`. -/
def checkBlockFresh [Zero G] (nd : BlockNode G) (block : CBlock G)
    (fCheckMerkleRoot fCheckSig fScriptChecks : Bool) : Except Failure Unit := do
  Except.rejectIf (block.isProofOfWork && !nd.checkProofOfWork block) (.reject 50 0x10 "high-hash")
  checkIf fCheckMerkleRoot (checkMerkleRoot nd block)
  checkCoinStakes block
  Except.rejectIf (block.vtx.isEmpty || block.vtx.length > maxBlockBaseSize ||
    block.serializeSize nd.toCrypto > maxBlockBaseSize) (dos100 "bad-blk-length")
  checkCoinBases block
  Except.rejectIf (fCheckSig && fScriptChecks && !checkBlockSignature nd block) .returnFalse
  let _ ← block.vtx.foldlM (checkBlockTransaction nd) 0
  Except.rejectIf ((block.vtx.map nd.getLegacySigOpCount).sum * witnessScaleFactor >
    maxBlockSigopsCost) (dos100 "bad-blk-sigops")

/-- `CheckBlock`; `fCheckPOW` is not read. -/
def checkBlock [Zero G] (nd : BlockNode G) (block : CBlock G)
    (fCheckMerkleRoot fCheckSig fScriptChecks : Bool) : Except Failure Unit :=
  if block.fChecked then .ok ()
  else checkBlockFresh nd block fCheckMerkleRoot fCheckSig fScriptChecks

/-! ## What an accepted block satisfies -/

structure BlockOk [Zero G] (nd : BlockNode G) (block : CBlock G) : Prop where
  coinStakes : block.isProofOfStake = true → ∀ tx ∈ block.vtx.drop 2, tx.isCoinStake = false
  coinBases : ∃ coinbase rest, block.vtx = coinbase :: rest ∧ coinbase.isCoinBase = true ∧
    ∀ tx ∈ rest, tx.isCoinBase = false
  txs : ∀ tx ∈ block.vtx, TxOk nd.toNode tx
  oneBlsInput : (block.vtx.filter CTransaction.isBLSInput).length ≤ 1

variable {block : CBlock G}

theorem checkCoinStakes_ok (h : checkCoinStakes block = .ok ())
    (hstake : block.isProofOfStake = true) : ∀ tx ∈ block.vtx.drop 2, tx.isCoinStake = false := by
  simp only [checkCoinStakes, hstake, if_true, Except.forM_eq_ok_iff,
    Except.rejectIf_eq_ok_iff, Bool.not_eq_true] at h
  exact h

theorem checkCoinBases_ok (h : checkCoinBases block = .ok ()) :
    ∃ coinbase rest, block.vtx = coinbase :: rest ∧ coinbase.isCoinBase = true ∧
      ∀ tx ∈ rest, tx.isCoinBase = false := by
  unfold checkCoinBases at h
  cases hvtx : block.vtx with
  | nil => simp [hvtx] at h
  | cons tx rest =>
    simp only [hvtx, Except.bind_eq_ok_iff, Except.rejectIf_eq_ok_iff, exists_const,
      Except.forM_eq_ok_iff, Bool.not_eq_false, Bool.not_eq_true] at h
    exact ⟨tx, rest, rfl, h⟩

variable {nd : BlockNode G}

theorem checkBlockTransaction_ok [Zero G] {n n' : Nat} {tx : CTransaction G}
    (h : checkBlockTransaction nd n tx = .ok n') :
    TxOk nd.toNode tx ∧ n' = n + (if tx.isBLSInput then 1 else 0) ∧ n' ≤ 1 := by
  simp only [checkBlockTransaction, Except.bind_eq_ok_iff, Except.rejectIf_eq_ok_iff,
    exists_and_left, exists_const, Except.pure_eq_ok_iff] at h
  obtain ⟨_, hcheck, hcount, rfl⟩ := h
  refine ⟨checkTransaction_ok hcheck, ?_, by omega⟩
  split <;> rfl

theorem foldlM_checkBlockTransaction_ok [Zero G] {vtx : List (CTransaction G)} {n : Nat}
    (h : vtx.foldlM (checkBlockTransaction nd) 0 = .ok n) :
    (∀ tx ∈ vtx, TxOk nd.toNode tx) ∧ (vtx.filter CTransaction.isBLSInput).length = n ∧ n ≤ 1 := by
  refine Except.foldlM_ok_invariant
    (fun done n => (∀ tx ∈ done, TxOk nd.toNode tx) ∧
      (done.filter CTransaction.isBLSInput).length = n ∧ n ≤ 1)
    (checkBlockTransaction nd) ?_ vtx [] 0 n (by simp) h
  rintro done n tx n' ⟨hall, hcount, _⟩ hstep
  obtain ⟨hok, hn', hle⟩ := checkBlockTransaction_ok hstep
  refine ⟨?_, ?_, hle⟩
  · exact List.forall_mem_append.mpr ⟨hall, List.forall_mem_singleton.mpr hok⟩
  · rw [List.filter_append, List.length_append, hcount, hn']
    cases hflag : tx.isBLSInput <;> simp [hflag]

section Passed

variable [Zero G] {fCheckMerkleRoot fCheckSig fScriptChecks : Bool}
  (hfresh : block.fChecked = false)
  (h : checkBlock nd block fCheckMerkleRoot fCheckSig fScriptChecks = .ok ())
include hfresh h

/-- **What `CheckBlock` guarantees** of a block it has not seen before. -/
theorem checkBlock_ok : BlockOk nd block := by
  simp only [checkBlock, hfresh, Bool.false_eq_true, if_false, checkBlockFresh,
    Except.bind_eq_ok_iff, Except.rejectIf_eq_ok_iff, exists_and_left, exists_const] at h
  obtain ⟨_, _, _, _, hstakes, _, _, hbases, _, n, htxs, _⟩ := h
  obtain ⟨hok, hcount, hle⟩ := foldlM_checkBlockTransaction_ok htxs
  exact ⟨checkCoinStakes_ok hstakes, checkCoinBases_ok hbases, hok, hcount.trans_le hle⟩

/-- A block is within the size limit. -/
theorem checkBlock_length : block.vtx.length ≤ maxBlockBaseSize := by
  simp only [checkBlock, hfresh, Bool.false_eq_true, if_false, checkBlockFresh,
    Except.bind_eq_ok_iff, Except.rejectIf_eq_ok_iff, exists_and_left, exists_const] at h
  obtain ⟨_, _, _, _, _, hlength, _⟩ := h
  simp only [Bool.or_eq_true, decide_eq_true_eq, not_or, not_lt] at hlength
  exact hlength.1.2

end Passed

/-- **The position of the coinstake.**  A transaction of an accepted proof-of-stake block is a
coinstake exactly at position one. -/
theorem BlockOk.isCoinStake_iff_second [Zero G] (h : BlockOk nd block)
    (hstake : block.isProofOfStake = true) {i : Nat} {tx : CTransaction G}
    (hi : block.vtx[i]? = some tx) : tx.isCoinStake = true ↔ i = 1 := by
  obtain ⟨coinbase, rest, hvtx, hcb, _⟩ := h.coinBases
  have hothers := h.coinStakes hstake
  simp only [CBlock.isProofOfStake, hvtx] at hstake
  rw [hvtx] at hi hothers
  cases rest with
  | nil => cases hstake
  | cons stake rest =>
    match i, hi with
    | 0, hi =>
      obtain rfl : coinbase = tx := by simpa using hi
      simp [CTransaction.not_isCoinStake_of_isCoinBase hcb]
    | 1, hi =>
      obtain rfl : stake = tx := by simpa using hi
      simpa using hstake
    | j + 2, hi =>
      have hmem : tx ∈ rest := List.mem_of_getElem? (by simpa using hi)
      simp [hothers tx hmem]

end Navcoin
