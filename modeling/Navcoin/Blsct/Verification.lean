import Navcoin.Coins
import Navcoin.Consensus.Programs
import Navcoin.Lib.RunningSum

/-!
# `VerifyBLSCT` and `VerifyBLSCTBalanceOutputs`

The two checks of `blsct/verification.cpp`.  The first runs on every transaction with a
private part except coinstakes, the second on the outputs of a private coinstake.  Both
build one group element and ask the curve library whether the balance signature is a
signature under that element as public key.

The calls to the library are recorded as events, so that statements can speak about the
element a signature was checked against and about the keys an aggregate signature covers.
-/

namespace Navcoin

/-- How a validation function ends when it does not return true. -/
inductive Failure where
  | reject (nDoS : Nat) (chRejectCode : Nat) (strRejectReason : String)
  /-- `false` without a recorded reason -/
  | returnFalse
  /-- an exception leaves the function -/
  | exception
  /-- an `assert` does not hold -/
  | assertion
  deriving DecidableEq, Repr

/-- `state.DoS(100, false, REJECT_INVALID, reason)` -/
def dos100 (reason : String) : Failure := .reject 100 0x10 reason

/-- `state.Invalid(false, REJECT_INVALID, reason)` -/
def invalid (reason : String) : Failure := .reject 0 0x10 reason

/-- The signature and range proof checks of the curve library; `none` is an exception. -/
structure Bls (G : Type) extends Crypto G where
  /-- `G2Element::FromBytes` does not throw -/
  g2Valid : Bytes → Bool
  /-- `BasicSchemeMPL::Verify(key, message, signature)` -/
  verify : G → Bytes → Bytes → Option Bool
  /-- `AugSchemeMPL::AggregateVerify(keys, messages, signature)` -/
  aggregateVerify : List G → List Bytes → Bytes → Option Bool
  /-- multiplication by the view key -/
  mulViewKey : G → G
  /-- the verdict of `VerifyBulletproof(proofs, nonces, fOnlyRecover, tokenId)` -/
  verifyBulletproof : List (Nat × BulletproofsRangeproof G) → List G → Bool → TokenId → Option Bool

/-- What validation is observed to do. -/
inductive Event (G : Type) where
  /-- the balance signature of `tx` was checked under `key` -/
  | verify (tx : CTransaction G) (key : G) (ret : Option Bool)
  /-- the aggregate signature of `tx` was checked for these pairs of key and message -/
  | aggregateVerify (tx : CTransaction G) (signers : List (G × Bytes)) (ret : Option Bool)
  /-- the program in output `n` of `tx` took effect -/
  | execute (tx : CTransaction G) (n : Nat) (program : Predicate G)
  /-- a coinbase output paid the payment request -/
  | pay (prid : Uint256) (o : CTxOut G)
  /-- a vote was recorded under the hash of the block -/
  | record (vote : VoteRecord)

/-- `balanceMsg` -/
def balanceMsg : Bytes := [0x42, 0x4c, 0x53, 0x43, 0x54, 0x42, 0x41, 0x4c, 0x41, 0x4e, 0x43, 0x45]

instance : LT TokenId where
  lt a b := a.token < b.token ∨ a.token = b.token ∧ a.subid < b.subid

instance : DecidableLT TokenId := fun a b =>
  inferInstanceAs (Decidable (a.token < b.token ∨ a.token = b.token ∧ a.subid < b.subid))

/-- `GetBulletproof().GetValueCommitments()[0]` -/
def firstCommitment {G : Type} [Zero G] (o : CTxOut G) : G := o.getBulletproof.V.headD 0

/-- `kParameters[0]`; every action that reads it pushes it. -/
def Predicate.key {G : Type} [Zero G] (p : Predicate G) : G := p.kParameters.headD 0

/-- `nParameters[0]`; every action that reads it pushes it. -/
def Predicate.number {G : Type} (p : Predicate G) : UInt64 := p.nParameters.headD 0

variable {G : Type} [G1Group G] [DecidableEq G]

/-- `SerializeHash(key)`: the id of the token a key controls. -/
def tokenHash (c : Crypto G) (key : G) : Uint256 := c.hash (writeG1 c key)

/-- The scalar of `nMixFee`, negated when the fee is negative. -/
def mixFeeScalar (nMixFee : Int) : Scalar :=
  let sMixFee := Scalar.copy (toUint64 nMixFee)
  if nMixFee < 0 then (groupOrder - sMixFee) % groupOrder else sMixFee

/-! ## The locals of `VerifyBLSCT` -/

structure BlsctLocals (G : Type) [AddCommMonoid G] where
  balKey : RunningSum G := .empty
  balKeyOut : RunningSum G := .empty
  /-- `txSigningKeys` and `vMessages`, which grow together -/
  signers : List (G × Bytes) := []
  /-- the proofs to check with their nonces, by token -/
  proofs : List (TokenId × List ((Nat × BulletproofsRangeproof G) × G)) := []

namespace BlsctLocals

def addIn (s : BlsctLocals G) (t : G) : BlsctLocals G := { s with balKey := s.balKey.push t }

def addOut (s : BlsctLocals G) (t : G) : BlsctLocals G :=
  { s with balKeyOut := s.balKeyOut.push t }

/-- Push a key and the hash it has to sign. -/
def addSigner (s : BlsctLocals G) (key : G) (hash : Uint256) : BlsctLocals G :=
  { s with signers := s.signers ++ [(key, writeUint256 hash)] }

def addProof (s : BlsctLocals G) (tokenId : TokenId) (j : Nat) (bp : BulletproofsRangeproof G)
    (nonce : G) : BlsctLocals G :=
  let known := (AssocMap.find? tokenId s.proofs).getD []
  { s with proofs := AssocMap.assign tokenId (known ++ [((j, bp), nonce)]) s.proofs }

end BlsctLocals

/-! ## The loops -/

/-- The checks that are switched on. -/
structure BlsctChecks where
  fCheckRange : Bool
  fCheckBLSSignature : Bool
  fCheckBalance : Bool
  deriving DecidableEq, Repr

def BlsctChecks.of (tx : CTransaction G) (fOnlyRecover : Bool) : BlsctChecks :=
  { fCheckRange := tx.isCTOutput
    fCheckBLSSignature := tx.isBLSInput && !fOnlyRecover
    fCheckBalance := (tx.isBLSInput || tx.isCTOutput) && !fOnlyRecover }

variable (b : Bls G)

/-- What an output counts for when it is spent. -/
def inputTerm (o : CTxOut G) : G :=
  if o.hasRangeProof then firstCommitment o else toUint64 o.nValue • b.valueGen o.tokenId

/-- The loop over `tx.vin`. -/
def addInput (view : CStateView G) (f : BlsctChecks) (s : BlsctLocals G)
    (i : CTxIn) : Except Failure (BlsctLocals G) :=
  if f.fCheckBalance || f.fCheckBLSSignature then
    match view.getOutputFor i with
    | none => .error .assertion
    | some prevOut =>
      let s := if f.fCheckBalance then s.addIn (inputTerm b prevOut) else s
      if f.fCheckBLSSignature then
        match b.fromBytes prevOut.spendingKey with
        | .error what => .error (dos100 ("caught-spendingkey-exception " ++ what))
        | .ok key => .ok (s.addSigner key (i.getHash b.toCrypto))
      else .ok s
  else .ok s

/-- The token id and the amount that a `MINT` program credits. -/
def mintedAmount (view : CStateView G) (p : Predicate G) : Except Failure (TokenId × Nat) :=
  let tokenId := tokenHash b.toCrypto p.key
  match view.getToken tokenId with
  | none => .error (dos100 "wrong-token-id")
  | some token =>
    if token.nVersion = 0 then .ok ({ token := tokenId }, p.number.toNat)
    else if token.nVersion = 1 then .ok ({ token := tokenId, subid := p.number }, 1)
    else .error (dos100 "wrong-token-version")

/-- The program of an output.  Keyed programs add their key as a signer of the output. -/
def addProgram (view : CStateView G) (o : CTxOut G) (s : BlsctLocals G) :
    Except Failure (BlsctLocals G) :=
  let program := Predicate.ofVch b.toCrypto o.vData
  let hash := o.getHash b.toCrypto
  if o.vData.isEmpty then .ok s else match program.action with
  | .err => .error (dos100 "error-program-vdata")
  | .createToken | .updateNameFirst | .updateName | .stopMint =>
    .ok (s.addSigner program.key hash)
  | .mint => do
    let minted ← mintedAmount b view program
    pure ((s.addSigner program.key hash).addIn (minted.2 • b.valueGen minted.1))
  | .burn =>
    if o.scriptPubKey ≠ [opReturn] then .error (dos100 "burn-wrong-script")
    else .ok (s.addOut (program.number.toNat • b.valueGen o.tokenId))
  | _ => .ok s

/-- The range proof or the public value of an output. -/
def addValue (f : BlsctChecks) (s : BlsctLocals G) (o : CTxOut G) (j : Nat) :
    Except Failure (BlsctLocals G) :=
  if o.hasRangeProof then
    if o.ephemeralKey.isEmpty then .error (dos100 "empty-ephemeral-key")
    else if f.fCheckRange then
      match b.fromBytes o.outputKey with
      | .error _ => .error (dos100 "caught-ephemeralkey-exception")
      | .ok t =>
        let s := s.addProof o.tokenId j o.getBulletproof (b.mulViewKey t)
        .ok (if f.fCheckBalance then s.addOut (firstCommitment o) else s)
    else .ok (if f.fCheckBalance then s.addOut (firstCommitment o) else s)
  else if f.fCheckBalance && o.nValue > 0 then
    .ok (s.addOut (toUint64 o.nValue • b.valueGen o.tokenId))
  else .ok s

/-- The signature by the ephemeral key of an output. -/
def addEphemeral (f : BlsctChecks) (s : BlsctLocals G) (o : CTxOut G) :
    Except Failure (BlsctLocals G) :=
  if f.fCheckBLSSignature && !o.ephemeralKey.isEmpty then
    match b.fromBytes o.ephemeralKey with
    | .error _ => .error (dos100 "caught-ephemeralkey-exception")
    | .ok key => .ok (s.addSigner key (o.getHash b.toCrypto))
  else .ok s

/-- The loop over `tx.vout`. -/
def addOutput (view : CStateView G) (f : BlsctChecks) (s : BlsctLocals G)
    (e : CTxOut G × Nat) : Except Failure (BlsctLocals G) := do
  let s ← addProgram b view e.1 s
  let s ← addValue b f s e.1 e.2
  addEphemeral b f s e.1

/-- Everything before the first call of the library. -/
def collectBLSCT (tx : CTransaction G) (view : CStateView G) (f : BlsctChecks)
    (nMixFee : Int) : Except Failure (BlsctLocals G) := do
  let start : BlsctLocals G :=
    if nMixFee ≠ 0 then BlsctLocals.addIn {} (mixFeeScalar nMixFee • b.valueGen {}) else {}
  let s ← tx.vin.foldlM (addInput b view f) start
  tx.vout.zipIdx.foldlM (addOutput b view f) s

/-! ## The checks -/

/-- `VerifyBulletproof` for the proofs of every token. -/
def checkRange (fOnlyRecover : Bool)
    (proofs : List (TokenId × List ((Nat × BulletproofsRangeproof G) × G))) :
    Except Failure Unit :=
  proofs.forM fun it =>
    if it.2.isEmpty then .ok ()
    else match b.verifyBulletproof (it.2.map Prod.fst) (it.2.map Prod.snd) fOnlyRecover it.1 with
      | none => .error .exception
      | some ok => Except.rejectIf (ok = false) (dos100 "invalid-rangeproof")

/-- Check the balance signature under `key`. -/
def checkBalance (tx : CTransaction G) (key : G) : Traced (Event G) Failure Unit := do
  Traced.rejectIf (tx.vchBalanceSig = []) (dos100 "could-not-read-balanceproof")
  Traced.rejectIf (b.g2Valid tx.vchBalanceSig = false) (dos100 "caught-balanceproof-exception")
  let ret := b.verify key balanceMsg tx.vchBalanceSig
  Traced.emit (.verify tx key ret)
  match ret with
  | none => Traced.fail (dos100 "caught-balanceproof-exception")
  | some ok => Traced.rejectIf (ok = false) (dos100 "invalid-balanceproof")

/-- Check the aggregate signature of the collected keys. -/
def checkSignature (tx : CTransaction G) (signers : List (G × Bytes)) :
    Traced (Event G) Failure Unit := do
  Traced.rejectIf (tx.vchTxSig = []) (dos100 "could-not-read-blstxsig")
  Traced.rejectIf (b.g2Valid tx.vchTxSig = false) (dos100 "caught-blstxsig-exception")
  let ret := b.aggregateVerify (signers.map Prod.fst) (signers.map Prod.snd) tx.vchTxSig
  Traced.emit (.aggregateVerify tx signers ret)
  match ret with
  | none => Traced.fail (dos100 "caught-blstxsig-exception")
  | some ok => Traced.rejectIf (ok = false) (dos100 "invalid-bls-signature")

def verifyBLSCT (tx : CTransaction G) (view : CStateView G) (fOnlyRecover : Bool)
    (nMixFee : Int) : Traced (Event G) Failure Unit := do
  let f := BlsctChecks.of tx fOnlyRecover
  Traced.rejectIf (fOnlyRecover = false ∧ view.haveInputs tx = false)
    (dos100 "inputs-not-available")
  if f.fCheckRange || f.fCheckBalance || f.fCheckBLSSignature then
    let s ← Traced.ofExcept (collectBLSCT b tx view f nMixFee)
    Traced.onlyIf f.fCheckRange (Traced.ofExcept (checkRange b fOnlyRecover s.proofs))
    Traced.onlyIf f.fCheckBalance
      (checkBalance b tx (s.balKey.total + inverse s.balKeyOut.total))
    Traced.onlyIf f.fCheckBLSSignature (checkSignature b tx s.signers)
  else pure ()

/-! ## The coinstake check -/

/-- The locals of `VerifyBLSCTBalanceOutputs`. -/
structure StakeLocals (G : Type) [AddCommMonoid G] where
  balKey : RunningSum G := .empty
  proofs : List ((Nat × BulletproofsRangeproof G) × G) := []

/-- The loop over the outputs.  A commitment is subtracted, unless it is the first term
of the sum: then it is taken as it is. -/
def addStakeOutput (s : StakeLocals G) (e : CTxOut G × Nat) : Except Failure (StakeLocals G) :=
  let o := e.1
  if o.hasRangeProof then
    if o.ephemeralKey.isEmpty then .error (dos100 "empty-ephemeral-key")
    else match b.fromBytes o.outputKey with
      | .error _ => .error (dos100 "caught-ephemeralkey-exception")
      | .ok t =>
        let term := if s.balKey.isFirst then firstCommitment o else inverse (firstCommitment o)
        .ok { balKey := s.balKey.push term,
              proofs := s.proofs ++ [((e.2, o.getBulletproof), b.mulViewKey t)] }
  else .ok s

def collectStake (tx : CTransaction G) (nMixFee : Int) : Except Failure (StakeLocals G) :=
  let start : StakeLocals G :=
    if nMixFee ≠ 0 then { balKey := RunningSum.empty.push (mixFeeScalar nMixFee • b.valueGen {}) }
    else {}
  tx.vout.zipIdx.foldlM (addStakeOutput b) start

def verifyBLSCTBalanceOutputs (tx : CTransaction G) (fOnlyRecover : Bool)
    (nMixFee : Int) : Traced (Event G) Failure Unit := do
  let s ← Traced.ofExcept (collectStake b tx nMixFee)
  Traced.ofExcept (checkRange b fOnlyRecover [({}, s.proofs)])
  checkBalance b tx s.balKey.total

/-! ## A concrete library -/

/-- A library for concrete runs: the group is the integers modulo the order, every balance
signature and range proof passes, and `answer` is given to every aggregate signature. -/
def fixedBls (answer : Bool) : Bls (ZMod groupOrder) where
  serialize p := toBE 48 p.val
  fromBytes v := if v.length = 48 then .ok (ofBE v) else .error "invalid length"
  hash bs := BitVec.ofNat 256 (ofLE bs + 1)
  valueGen t := (t.token.toNat * 2 ^ 64 + t.subid.toNat + 1 : Nat)
  g2Valid _ := true
  verify _ _ _ := some true
  aggregateVerify _ _ _ := some answer
  mulViewKey p := p
  verifyBulletproof _ _ _ _ := some true

theorem fixedBls_encodesElements (answer : Bool) :
    (fixedBls answer).toCrypto.EncodesElements := by
  constructor
  · intro p
    exact length_toBE 48 p.val
  · intro p
    have hne : NeZero groupOrder := ⟨by decide⟩
    have hlt : p.val < 256 ^ 48 := (ZMod.val_lt p).trans (by decide)
    simp only [fixedBls, length_toBE, if_true, ofBE_toBE_of_lt hlt, ZMod.natCast_zmod_val]

/-- A view that holds the outputs of one transaction, under the hash one. -/
def coinView {G : Type} (vout : List (CTxOut G)) : CStateView G :=
  { coins := fun h => if h = 1 then some { vout := vout } else none }

/-- An input that spends one of them. -/
def coinInput (n : UInt32) : CTxIn := { prevout := ⟨1, n⟩ }

end Navcoin
