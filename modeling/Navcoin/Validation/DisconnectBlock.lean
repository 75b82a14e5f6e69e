import Navcoin.Dao.VoteTally
import Navcoin.Undo.Entries
import Navcoin.Validation.ConnectBlock

/-!
# `DisconnectBlock`

What `UpdateCoins` keeps of the outputs that a block spends, and the function that takes a block
back: objects of the DAO are removed, programs are undone, outputs removed and spent outputs put
back, transaction by transaction from the last one; then the recorded votes are subtracted and
votes and parameters of the height are cleared.
-/

namespace Navcoin

variable {G : Type}

/-! ## `UpdateCoins` with its records -/

namespace CStateView

/-- One input of `UpdateCoins`. -/
def spendInputUndo (s : CStateView G × CTxUndo G) (i : CTxIn) :
    Option (CStateView G × CTxUndo G) :=
  match s.1.coins i.prevout.hash with
  | none => none
  | some coins =>
    if coins.isAvailable i.prevout.n then
      some (s.1.setCoins i.prevout.hash (coins.spend i.prevout.n),
        ⟨s.2.vprevout ++ [coins.undoOf i.prevout.n]⟩)
    else none

/-- `UpdateCoins`, with the undo data of the transaction. -/
def updateCoinsUndo [Zero G] (c : Crypto G) (nHeight : Int) (view : CStateView G)
    (tx : CTransaction G) : Option (CStateView G × CTxUndo G) :=
  let spent := if tx.isCoinBase then some (view, {})
    else tx.vin.foldlM spendInputUndo (view, {})
  spent.map fun s => (s.1.setCoins (tx.getHash c) (CCoins.fromTx tx nHeight), s.2)

/-- A transaction after the coinbase adds its undo data to those of the block. -/
def updateCoinsNext [Zero G] (c : Crypto G) (nHeight : Int) (s : CStateView G × CBlockUndo G)
    (tx : CTransaction G) : Option (CStateView G × CBlockUndo G) :=
  (s.1.updateCoinsUndo c nHeight tx).map fun r => (r.1, ⟨s.2.vtxundo ++ [r.2]⟩)

/-- `UpdateCoins` for the transactions of a block; what it says of the coinbase is dropped. -/
def updateBlockCoins [Zero G] (c : Crypto G) (nHeight : Int) (view : CStateView G)
    (vtx : List (CTransaction G)) : Option (CStateView G × CBlockUndo G) :=
  match vtx with
  | [] => some (view, {})
  | coinbase :: rest => (view.updateCoinsUndo c nHeight coinbase).bind fun s =>
    rest.foldlM (updateCoinsNext c nHeight) (s.1, {})

end CStateView

/-! ## Objects of the DAO -/

/-- The object that a transaction added is removed; an answer is removed by its hash, whether or
not it was added by this transaction. -/
def removeDaoObject [Zero G] (nd : ChainNode G) (block : CBlock G) (pprev : CBlockIndex)
    (tx : CTransaction G) (view : DaoView) : Except Failure DaoView :=
  let d := nd.deployments pprev
  let hash := tx.getHash nd.toCrypto
  if d.communityFund || d.dao then
    let view := if tx.kind = proposalVersion then view.removeProposal hash else view
    if tx.kind = paymentRequestVersion then .ok (view.removePaymentRequest hash)
    else if d.dao && tx.kind = consultationVersion then .ok (view.removeConsultation hash)
    else if d.dao && tx.kind = answerVersion then
      match txToConsultationAnswer nd.toDaoNode nd.toCrypto tx.strDZeel hash block.hash with
      | .ok answer => .ok (view.removeConsultationAnswer answer.hash)
      | .error .exception => .error .exception
      | .error _ => .ok view
    else .ok view
  else .ok view

/-! ## Programs -/

section Programs

variable [G1Group G] [DecidableEq G]

/-- The results of `DecreaseSupply` and `IncreaseSupply` are not looked at. -/
def undoMint (b : Bls G) (view : CStateView G) (program : Predicate G) :
    Except Failure (CStateView G) :=
  let tokenId := tokenHash b.toCrypto program.key
  match view.getToken tokenId with
  | none => .error (dos100 "wrong-token-id")
  | some token =>
    if token.nVersion = 0 then
      .ok (view.modifyToken tokenId token
        ((token.decreaseSupply (toInt64 program.number)).getD token))
    else if token.nVersion = 1 then
      if AssocMap.contains program.number token.mapMetadata then
        .ok (view.modifyToken tokenId token
          { token with mapMetadata := AssocMap.erase program.number token.mapMetadata })
      else .error (dos100 "unknown-nft")
    else .error (dos100 "unknown-token-version")

def undoBurn (view : CStateView G) (o : CTxOut G) (program : Predicate G) :
    Except Failure (CStateView G) :=
  let tokenId := o.tokenId.token
  match view.getToken tokenId with
  | none => .error (dos100 "wrong-token-id")
  | some token =>
    if token.nVersion = 0 then
      .ok (view.modifyToken tokenId token
        ((token.increaseSupply (toInt64 program.number)).getD token))
    else .ok view

def undoStopMint (b : Bls G) (view : CStateView G) (program : Predicate G) :
    Except Failure (CStateView G) :=
  let tokenId := tokenHash b.toCrypto program.key
  match view.getToken tokenId with
  | none => .error (dos100 "wrong-token-id")
  | some token => .ok (view.modifyToken tokenId token { token with canMint := true })

def undoToken (b : Bls G) (view : CStateView G) (o : CTxOut G) (program : Predicate G) :
    Except Failure (CStateView G) :=
  match program.action with
  | .mint => undoMint b view program
  | .burn => undoBurn view o program
  | .createToken => .ok (view.removeToken (tokenHash b.toCrypto program.key))
  | .stopMint => undoStopMint b view program
  | _ => .ok view

/-- The key of the removed name data is the hash of the name as the program spells it. -/
def undoName (c : Crypto G) (nHeight : Int) (view : CStateView G) (program : Predicate G) :
    Except Failure (CStateView G) :=
  match program.action with
  | .registerName =>
    let hash := program.hParameters.headD 0
    if (view.getNameRecord hash).isSome then .ok (view.removeNameRecord hash)
    else .error (dos100 "register-name-hash-unknown")
  | .updateNameFirst | .updateName | .renewName =>
    .ok (view.removeNameData (c.hash (writeVector (program.str 0)))
      (UInt64.ofNat (toUint64 nHeight)))
  | _ => .ok view

/-- The program of an output is undone. -/
def undoProgram (b : Bls G) (nHeight : Int) (fDotNav : Bool) (view : CStateView G)
    (o : CTxOut G) : Except Failure (CStateView G) :=
  if o.vData.isEmpty then .ok view
  else do
    let program := Predicate.ofVch b.toCrypto o.vData
    Except.rejectIf (program.action = .err) (dos100 "error-program-vdata")
    let view' ← if view.tokensEnabled then undoToken b view o program else .ok view
    if fDotNav then undoName b.toCrypto nHeight view' program else .ok view'

end Programs

/-! ## Outputs -/

section Coins

variable [Zero G] [DecidableEq G]

/-- `ApplyTxInUndo` -/
def applyTxInUndo (undo : CTxInUndo G) (view : CStateView G) (out : COutPoint) :
    CStateView G × Bool :=
  let r := ((view.coins out.hash).getD {}).applyUndo undo out.n
  (view.setCoins out.hash r.1, r.2)

/-- A view and `fClean`. -/
abbrev DisconnectLocals (G : Type) := CStateView G × Bool

/-- The outputs have to be those of the block, and are removed. -/
def removeOutputs (c : Crypto G) (nHeight : Int) (tx : CTransaction G) (s : DisconnectLocals G) :
    DisconnectLocals G :=
  let outs := (s.1.coins (tx.getHash c)).getD {}
  (s.1.setCoins (tx.getHash c) {}, s.2 && outs.matchesBlock tx nHeight)

def restoreInput (s : DisconnectLocals G) (e : CTxIn × CTxInUndo G) : DisconnectLocals G :=
  let r := applyTxInUndo e.2 s.1 e.1.prevout
  (r.1, s.2 && r.2)

/-- The inputs of a transaction are restored, the last one first; those of a coinbase have no
undo data. -/
def restoreInputs (tx : CTransaction G) (undo : Option (CTxUndo G)) (s : DisconnectLocals G) :
    Except Failure (DisconnectLocals G) :=
  match undo with
  | none => .ok s
  | some txundo =>
    if txundo.vprevout.length ≠ tx.vin.length then .error .returnFalse
    else .ok ((tx.vin.zip txundo.vprevout).reverse.foldl restoreInput s)

end Coins

/-! ## Votes -/

namespace CProposal

def withoutVote (vote : Int) (p : CProposal) : CProposal :=
  if vote = VoteFlags.voteYes then { p with nVotesYes := max (p.nVotesYes - 1) 0 }
  else if vote = VoteFlags.voteAbstain then { p with nVotesAbs := max (p.nVotesAbs - 1) 0 }
  else if vote = VoteFlags.voteNo then { p with nVotesNo := max (p.nVotesNo - 1) 0 }
  else p

end CProposal

namespace CPaymentRequest

def withoutVote (vote : Int) (p : CPaymentRequest) : CPaymentRequest :=
  if vote = VoteFlags.voteYes then { p with nVotesYes := max (p.nVotesYes - 1) 0 }
  else if vote = VoteFlags.voteAbstain then { p with nVotesAbs := max (p.nVotesAbs - 1) 0 }
  else if vote = VoteFlags.voteNo then { p with nVotesNo := max (p.nVotesNo - 1) 0 }
  else p

end CPaymentRequest

/-- The count of a value is a `uint64_t`: it is erased at one, and a count of zero wraps. -/
def CConsultation.withoutVote (vote : Int) (c : CConsultation) : CConsultation :=
  let value := toUint64 vote
  let n := ((c.mapVotes.find? value).map Prod.snd).getD 0
  if n = 1 then { c with mapVotes := c.mapVotes.erase value }
  else { c with mapVotes := c.mapVotes.assign (value, (n + (2 ^ 64 - 1)) % 2 ^ 64) }

/-- The subtraction is one of `uint64_t`, so the maximum with zero does nothing. -/
def CConsultationAnswer.withoutVote (a : CConsultationAnswer) : CConsultationAnswer :=
  { a with nVotes := a.nVotes - 1 }

/-- The view and the keys of `vSeen`. -/
abbrev UncountLocals := DaoView × List Uint256

def uncountProposal (s : UncountLocals) (it : Uint256 × Int) : UncountLocals :=
  if (s.1.getProposal it.1).isNone || it.1 ∈ s.2 then s
  else ({ s.1 with proposals := s.1.proposals.modify it.1 (.withoutVote it.2) }, it.1 :: s.2)

def uncountPaymentRequest (s : UncountLocals) (it : Uint256 × Int) : UncountLocals :=
  if (s.1.getPaymentRequest it.1).isNone || it.1 ∈ s.2 then s
  else
    ({ s.1 with paymentRequests := s.1.paymentRequests.modify it.1 (.withoutVote it.2) },
      it.1 :: s.2)

def uncountSupport (s : UncountLocals) (hash : Uint256) : UncountLocals :=
  if hash ∈ s.2 then s
  else if (s.1.getConsultation hash).isSome then
    ({ s.1 with consultations := s.1.consultations.modify hash fun c =>
        { c with nSupport := max (c.nSupport - 1) 0 } }, hash :: s.2)
  else if (s.1.getConsultationAnswer hash).isSome then
    ({ s.1 with answers := s.1.answers.modify hash fun a =>
        { a with nSupport := max (a.nSupport - 1) 0 } }, hash :: s.2)
  else s

def uncountConsultation (view : DaoView) (it : Uint256 × Int) : DaoView :=
  if (view.getConsultation it.1).isSome then
    { view with consultations := view.consultations.modify it.1 (.withoutVote it.2) }
  else if (view.getConsultationAnswer it.1).isSome then
    { view with answers := view.answers.modify it.1 .withoutVote }
  else view

/-- The votes recorded for the block are subtracted from the counts. -/
def uncountVotes (votes : BlockVotes) (view : DaoView) : DaoView :=
  let s := votes.proposalVotes.foldl uncountProposal (view, [])
  let s := votes.paymentRequestVotes.foldl uncountPaymentRequest s
  let s := votes.support.entries.foldl uncountSupport s
  votes.consultationVotes.entries.foldl uncountConsultation s.1

/-- The cached votes of the height are cleared, unless the block counted none. -/
def clearCachedVotes (nd : ChainNode G) (block : CBlock G) (pindex pprev : CBlockIndex)
    (view : DaoView) : DaoView :=
  let d := nd.deployments pprev
  if block.isProofOfStake && d.voteCacheState && d.communityFund &&
      !(pindex.nNonce &&& 1 != 0 && !block.stakerIsColdStakingv2) then
    view.votes.entries.foldl (fun v it => v.modifyVote it.1 (·.clear pindex.nHeight)) view
  else view

/-- The values of the height are cleared. -/
def clearParameters (nHeight : Int) (view : DaoView) : DaoView :=
  { view with parameters := fun p => (view.parameters p).clear nHeight }

/-! ## The block -/

section Block

variable [G1Group G] [DecidableEq G]

/-- The part of a transaction that may fail: objects and programs. -/
def undoTransaction (nd : ChainNode G) (block : CBlock G) (pindex pprev : CBlockIndex)
    (view : CStateView G) (tx : CTransaction G) : Except Failure (CStateView G) := do
  let dao ← removeDaoObject nd block pprev tx view.toDaoView
  tx.vout.foldlM (undoProgram nd.toBls pindex.nHeight (nd.deployments pprev).dotNav)
    { view with toDaoView := dao }

/-- A transaction, with its undo data. -/
def disconnectTransaction (nd : ChainNode G) (block : CBlock G) (pindex pprev : CBlockIndex)
    (s : DisconnectLocals G) (e : CTransaction G × Option (CTxUndo G)) :
    Except Failure (DisconnectLocals G) := do
  let view ← undoTransaction nd block pindex pprev s.1 e.1
  restoreInputs e.1 e.2 (removeOutputs nd.toCrypto pindex.nHeight e.1 (view, s.2))

/-- The transactions of a block with their undo data; the coinbase has none. -/
def CBlock.withUndo (block : CBlock G) (blockUndo : CBlockUndo G) :
    List (CTransaction G × Option (CTxUndo G)) :=
  block.vtx.zip (none :: blockUndo.vtxundo.map some)

/-- What follows the transactions. -/
def disconnectDao (nd : ChainNode G) (records : VoteRecords) (block : CBlock G)
    (pindex pprev : CBlockIndex) (view : DaoView) : DaoView :=
  clearParameters pindex.nHeight
    (clearCachedVotes nd block pindex pprev (uncountVotes (records block.hash) view))

/-- `DisconnectBlock` with the undo data of the block: the view, and whether everything was as
expected. -/
def disconnectWith (nd : ChainNode G) (records : VoteRecords) (block : CBlock G)
    (pindex pprev : CBlockIndex) (blockUndo : CBlockUndo G) (view : CStateView G) :
    Except Failure (DisconnectLocals G) := do
  Except.rejectIf (blockUndo.vtxundo.length + 1 ≠ block.vtx.length) .returnFalse
  let s ← (block.withUndo blockUndo).reverse.foldlM
    (disconnectTransaction nd block pindex pprev) (view, true)
  pure ({ s.1 with toDaoView := disconnectDao nd records block pindex pprev s.1.toDaoView }, s.2)

/-- `DisconnectBlock`, with the file of its undo data. -/
def disconnectBlock (nd : ChainNode G) (k : PubKeys) (records : VoteRecords) (block : CBlock G)
    (pindex pprev : CBlockIndex) (file : Bytes) (view : CStateView G) :
    Except Failure (DisconnectLocals G) :=
  match undoReadFromDisk nd.toCrypto k pprev.hashBlock file with
  | none => .error .returnFalse
  | some blockUndo => disconnectWith nd records block pindex pprev blockUndo view

end Block

end Navcoin
