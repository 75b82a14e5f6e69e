import Navcoin.Validation.ChainNode

/-!
# The votes of a block

The two places where `ConnectBlock` looks at votes.  Before a transaction is applied, the votes in
its outputs are either written to the list of the voter, or recorded for the block; after the last
transaction the effective votes of the staker are recorded for the block.
-/

namespace Navcoin

variable {G : Type}

inductive VoteKind where
  | proposal
  | paymentRequest
  | support
  | consultation
  deriving DecidableEq, Repr

structure CastVote where
  kind : VoteKind
  hash : Uint256
  vote : Int
  deriving DecidableEq, Repr

/-- The vote of an output, if it has one. -/
def readVote (o : CTxOut G) : Except Failure (Option CastVote) :=
  if o.isProposalVote then
    .ok (some ⟨.proposal, o.scriptPubKey.extractVote.1, o.scriptPubKey.extractVote.2⟩)
  else if o.isPaymentRequestVote then
    .ok (some ⟨.paymentRequest, o.scriptPubKey.extractVote.1, o.scriptPubKey.extractVote.2⟩)
  else if o.isSupportVote then
    .ok (some ⟨.support, o.scriptPubKey.extractSupportVote.1, o.scriptPubKey.extractSupportVote.2⟩)
  else if o.isConsultationVote then
    match o.scriptPubKey.extractConsultationVote with
    | none => .error .exception
    | some (hash, vote) => .ok (some ⟨.consultation, hash, vote⟩)
  else .ok none

def isValidDaoTxVote (tx : CTransaction G) (view : DaoView) : Bool :=
  tx.kind == voteVersion &&
    (tx.vout.any fun o => o.isVote || o.isSupportVote || o.isConsultationVote) &&
    toUint64 tx.nContribution ≥ view.param .daoVoteLightMinFee

namespace DaoView

def proposalCanVote (r : DaoRules) (view : DaoView) (hash : Uint256) : Bool :=
  (view.getProposal hash).any (CProposal.canVote r)

def requestCanVote (r : DaoRules) (view : DaoView) (hash : Uint256) : Bool :=
  (view.getPaymentRequest hash).any (CPaymentRequest.canVote r view)

def canBeSupported (r : DaoRules) (view : DaoView) (hash : Uint256) : Bool :=
  (view.getConsultation hash).any (CConsultation.canBeSupported r) ||
    (view.getConsultationAnswer hash).any (CConsultationAnswer.canBeSupported r view)

end DaoView

/-! ## Answers of one consultation -/

/-- `mapCountAnswers` and `mapCacheMaxAnswers` -/
structure AnswerCount where
  mapCountAnswers : Uint256 → Int := fun _ => 0
  mapCacheMaxAnswers : Uint256 → Option Int := fun _ => none

namespace AnswerCount

/-- The greatest number of answers is read once, as `int`. -/
def readMax (view : DaoView) (parent : Uint256) (n : AnswerCount) : AnswerCount :=
  match n.mapCacheMaxAnswers parent, view.getConsultation parent with
  | none, some c =>
    let nMax := (BitVec.ofNat 32 c.nMax).toInt
    { n with mapCacheMaxAnswers := Function.update n.mapCacheMaxAnswers parent (some nMax) }
  | _, _ => n

def increment (parent : Uint256) (n : AnswerCount) : AnswerCount :=
  let count := n.mapCountAnswers parent + 1
  { n with mapCountAnswers := Function.update n.mapCountAnswers parent count }

def exceeds (parent : Uint256) (n : AnswerCount) : Bool :=
  n.mapCountAnswers parent > (n.mapCacheMaxAnswers parent).getD 0

end AnswerCount

/-- A vote on a consultation or an answer, as far as it may be recorded. -/
def recordConsultation (r : DaoRules) (view : DaoView) (hash : Uint256) (vote : Int)
    (n : AnswerCount) : AnswerCount × Option VoteRecord :=
  if (view.getConsultation hash).any fun c => c.canBeVoted r vote && c.isValidVote vote then
    (n, some (.consultation hash vote))
  else
    match view.getConsultationAnswer hash with
    | none => (n, none)
    | some answer =>
      if answer.canBeVoted r view then
        let n := (n.readMax view answer.parent).increment answer.parent
        (n, if n.exceeds answer.parent then none else some (.consultation hash vote))
      else (n, none)

/-! ## The votes of a transaction -/

structure VoteLocals where
  view : DaoView
  /-- the keys of `votes`: voter and object -/
  votes : List (Bytes × Uint256)
  answers : AnswerCount := {}

variable (nd : ChainNode G) (x : BlockContext G)

/-- A vote goes to the list of the voter. -/
def cacheVote (voterScript : Bytes) (v : CastVote) (s : VoteLocals) : VoteLocals :=
  let d := x.deployed nd
  let r := nd.toDaoRules
  let set := s.view.modifyVote voterScript fun list => list.set x.pindex.nHeight v.hash v.vote
  if d.dao && v.kind == .consultation then
    if ((s.view.getConsultation v.hash).any fun c =>
        (c.canBeVoted r v.vote && c.isValidVote v.vote) || v.vote == VoteFlags.voteRemove) ||
      (s.view.getConsultationAnswer v.hash).any (CConsultationAnswer.canBeVoted r s.view) then
      { s with view := set }
    else s
  else if (d.communityFund && ((v.kind == .proposal && s.view.proposalCanVote r v.hash) ||
        (v.kind == .paymentRequest && s.view.requestCanVote r v.hash))) ||
      (d.dao && v.kind == .support && s.view.canBeSupported r v.hash) then
    { s with view := set, votes := (voterScript, v.hash) :: s.votes }
  else s

/-- A vote of the coinbase is recorded. -/
def recordVote (v : CastVote) (s : VoteLocals) : VoteLocals × Option VoteRecord :=
  let d := x.deployed nd
  let r := nd.toDaoRules
  if d.communityFund && v.kind == .proposal && s.view.proposalCanVote r v.hash then
    (s, some (.proposal v.hash v.vote))
  else if d.communityFund && v.kind == .paymentRequest && s.view.requestCanVote r v.hash then
    (s, some (.paymentRequest v.hash v.vote))
  else if d.dao && v.kind == .support && s.view.canBeSupported r v.hash then
    (s, some (.support v.hash))
  else if d.dao && v.kind == .consultation && v.vote != VoteFlags.voteRemove then
    let n := recordConsultation r s.view v.hash v.vote s.answers
    ({ s with answers := n.1 }, n.2)
  else (s, none)

def emitRecord (vote : Option VoteRecord) : Traced (Event G) Failure Unit :=
  Traced.emitAll (vote.toList.map Event.record)

/-- One output of the transaction at position `i`. -/
def castVote (i : Nat) (voterScript : Bytes)
    (s : VoteLocals) (o : CTxOut G) : Traced (Event G) Failure (VoteLocals) := do
  match ← Traced.ofExcept (readVote o) with
  | none => pure s
  | some v =>
    if (voterScript, v.hash) ∈ s.votes then pure s
    else
      let s := if v.vote = VoteFlags.voteRemove then s
        else { s with votes := (voterScript, v.hash) :: s.votes }
      if (x.deployed nd).voteCacheState && !voterScript.isEmpty then
        pure (cacheVote nd x voterScript v s)
      else if i = 0 then do
        emitRecord (recordVote nd x v s).2
        pure (recordVote nd x v s).1
      else pure s

/-- `fDaoTx` -/
def fDaoTx (view : DaoView) (tx : CTransaction G) : Bool :=
  isValidDaoTxVote tx view && (x.deployed nd).voteCacheState && (x.deployed nd).coldStakingv2

/-- The votes of a transaction are looked at. -/
def votesIn (view : DaoView) (e : CTransaction G × Nat) : Bool :=
  ((x.deployed nd).communityFund || (x.deployed nd).dao) && x.countsVotes &&
    ((e.1.isCoinBase && !x.block.stakerIsColdStakingv2) ||
      (fDaoTx nd x view e.1 && e.2 > if x.block.isProofOfStake then 1 else 0))

/-- The script of the voter; the output may be one of the same block. -/
def voterScript [Zero G] (nd : ChainNode G) (x : BlockContext G) (view : CStateView G)
    (tx : CTransaction G) : Except Failure Bytes :=
  if fDaoTx nd x view.toDaoView tx then
    match BlockContext.spentScript (fun hash => (nd.getTransaction hash view).or
        (x.block.vtx.find? fun t => t.getHash nd.toCrypto = hash)) tx with
    | none => .error .returnFalse
    | some script => .ok script.getStakerScript
  else .ok ((x.stakerScript nd).getD [])

/-- The votes in the outputs of a transaction. -/
def castVotes [Zero G] (nd : ChainNode G) (x : BlockContext G) (view : CStateView G)
    (votes : List (Bytes × Uint256)) (e : CTransaction G × Nat) :
    Traced (Event G) Failure (VoteLocals) :=
  if votesIn nd x view.toDaoView e then do
    let voter ← Traced.ofExcept (voterScript nd x view e.1)
    e.1.vout.foldlM (castVote nd x e.2 voter) { view := view.toDaoView, votes := votes }
  else pure { view := view.toDaoView, votes := votes }

/-! ## The votes of the staker -/

/-- One effective vote of the staker. -/
def stakerVote (view : DaoView) (n : AnswerCount)
    (it : Uint256 × Int) : AnswerCount × Option VoteRecord :=
  let d := x.deployed nd
  let r := nd.toDaoRules
  if it.2 = VoteFlags.supportRemove ∨ it.2 = VoteFlags.voteRemove then (n, none)
  else if d.communityFund && view.proposalCanVote r it.1 then (n, some (.proposal it.1 it.2))
  else if d.communityFund && view.requestCanVote r it.1 then (n, some (.paymentRequest it.1 it.2))
  else if it.2 = VoteFlags.support then
    (n, if d.dao && view.canBeSupported r it.1 then some (.support it.1) else none)
  else if d.dao then recordConsultation r view it.1 it.2 n
  else (n, none)

def castStakerVote (view : DaoView) (n : AnswerCount)
    (it : Uint256 × Int) : Traced (Event G) Failure AnswerCount := do
  emitRecord (stakerVote nd x view n it).2
  pure (stakerVote nd x view n it).1

def castStakerVotes (view : DaoView) : Traced (Event G) Failure Unit :=
  if x.block.isProofOfStake && (x.deployed nd).voteCacheState then
    match view.getCachedVoter ((x.stakerScript nd).getD []) with
    | none => pure ()
    | some list => do
      let _ ← list.getList.entries.foldlM (castStakerVote nd x view) {}
      pure ()
  else pure ()

end Navcoin
