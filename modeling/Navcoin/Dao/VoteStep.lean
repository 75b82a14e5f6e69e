import Navcoin.Dao.Transactions
import Navcoin.Dao.VoteTally
import Navcoin.Lib.MirroredMap

/-!
# `VoteStep`

The step of the DAO after a block was connected, or disconnected.  The votes of the cycle are
counted and written to the objects; then payment requests, proposals, answers and consultations
move to their next states, in this order; then what nobody voted on is reset and the parameters
that were voted on are changed.  The loops run over copies of the objects that are only in part
brought up to date, as in the source.
-/

namespace Navcoin

/-- What a step reads besides its state. -/
structure VoteStepContext extends DaoRules where
  pindexNew : CBlockIndex
  /-- the block that is undone, if one is -/
  pindexDelete : Option CBlockIndex
  nCycleLength : Nat
  fCFund : Bool
  fDAOConsultations : Bool
  fScanningWholeCycle : Bool

namespace VoteStepContext

/-- The next block starts a cycle. -/
def endsCycle (x : VoteStepContext) : Bool :=
  toUint64 (x.pindexNew.nHeight + 1) % x.nCycleLength == 0

/-- The block of an object, when it has one that is known. -/
def blockOf (x : VoteStepContext) (txblockhash : Uint256) : Option CBlockIndex :=
  if txblockhash = 0 then none else x.mapBlockIndex txblockhash

/-- `nVotingCycles`, with the limit as `uint64_t`, as it is assigned to an `unsigned int`. -/
def nVotingCycles (x : VoteStepContext) (pblockindex : CBlockIndex) (limit : Nat) : Nat :=
  min (elapsedCycles (cycleOf pblockindex.nHeight x.nCycleLength)
    (cycleOf x.pindexNew.nHeight x.nCycleLength)) (limit % 2 ^ 64) % 2 ^ 32

end VoteStepContext

/-- The state of a step.  Of the view, the objects are in the maps with their copies and the
rest is in `rest`. -/
structure VoteStepLocals where
  rest : DaoView
  nCFSupply : Int
  nCFLocked : Int
  proposals : MirroredMap CProposal.hash
  requests : MirroredMap CPaymentRequest.hash
  consultations : MirroredMap CConsultation.hash
  answers : MirroredMap CConsultationAnswer.hash
  mapSeen : List Uint256 := []
  mapSeenSupport : List Uint256 := []
  mapAlreadyCleared : List Uint256 := []
  vClearAnswers : List Uint256 := []
  mapConsensusToChange : OrderedMap (Prod.fst : Nat × Nat → Nat) := ∅

def VoteStepLocals.view (s : VoteStepLocals) : DaoView :=
  { s.rest with
    proposals := s.proposals.stored, paymentRequests := s.requests.stored
    consultations := s.consultations.stored, answers := s.answers.stored }

namespace VoteStepLocals

/-! ## Modifiers -/

def touchProposal (id : Uint256) (f : CProposal → CProposal) (s : VoteStepLocals) :
    VoteStepLocals :=
  { s with proposals := s.proposals.touch id f }

def touchPaymentRequest (id : Uint256) (f : CPaymentRequest → CPaymentRequest)
    (s : VoteStepLocals) : VoteStepLocals :=
  { s with requests := s.requests.touch id f }

def touchConsultation (id : Uint256) (f : CConsultation → CConsultation) (s : VoteStepLocals) :
    VoteStepLocals :=
  { s with consultations := s.consultations.touch id f }

def touchConsultationAnswer (id : Uint256) (f : CConsultationAnswer → CConsultationAnswer)
    (s : VoteStepLocals) : VoteStepLocals :=
  { s with answers := s.answers.touch id f }

/-- The copies of consultations and answers are brought up to date. -/
def flushConsultations (s : VoteStepLocals) : VoteStepLocals :=
  { s with consultations := s.consultations.flush, answers := s.answers.flush }

end VoteStepLocals

/-! ## Voting cycles, and what an undone block leaves of an object -/

def CProposal.withCycle (nVotingCycle : Nat) (p : CProposal) : CProposal := { p with nVotingCycle }

def CPaymentRequest.withCycle (nVotingCycle : Nat) (p : CPaymentRequest) : CPaymentRequest :=
  { p with nVotingCycle }

def CConsultation.withCycle (nVotingCycle : Nat) (c : CConsultation) : CConsultation :=
  { c with nVotingCycle }

def CProposal.undo (r : DaoRules) (pindexDelete : CBlockIndex) (nVotingCycles : Nat)
    (p : CProposal) : CProposal :=
  let p := p.clearState pindexDelete
  if p.getLastState r.mapBlockIndex = .nil then p.withCycle nVotingCycles else p

def CPaymentRequest.undo (r : DaoRules) (pindexDelete : CBlockIndex) (nVotingCycles : Nat)
    (p : CPaymentRequest) : CPaymentRequest :=
  let p := p.clearState pindexDelete
  if p.getLastState r.mapBlockIndex = .nil then p.withCycle nVotingCycles else p

def CConsultation.undo (r : DaoRules) (pindexDelete : CBlockIndex) (nVotingCycles : Nat)
    (c : CConsultation) : CConsultation :=
  let c := c.clearState pindexDelete
  if c.isFinished r then c else c.withCycle nVotingCycles

/-! ## Counted votes -/

section Votes

variable (x : VoteStepContext)

def CProposal.withVotes (t : Tally) (p : CProposal) : CProposal :=
  { p with nVotesYes := t.nVotesYes, nVotesNo := t.nVotesNo, nVotesAbs := t.nVotesAbs }

def applyProposalVotes (s : VoteStepLocals) (it : Uint256 × Tally) : VoteStepLocals :=
  match s.proposals.copy.find? it.1 with
  | none => s
  | some p =>
    match x.blockOf p.txblockhash with
    | none => s
    | some pblockindex =>
      let nVotingCycles :=
        x.nVotingCycles pblockindex (s.view.param .proposalMaxVotingCycles + 1)
      let s' := match x.pindexDelete with
        | none => s
        | some pindexDelete => s.touchProposal it.1 (.undo x.toDaoRules pindexDelete nVotingCycles)
      let fCanVote : Bool := match x.pindexDelete with
        | none => p.canVote x.toDaoRules
        | some _ => (s'.proposals.stored.find? it.1).any (CProposal.canVote x.toDaoRules)
      if fCanVote then
        let s' := s'.touchProposal it.1 (.withVotes it.2)
        { s' with mapSeen := it.1 :: s'.mapSeen }
      else s'

def CPaymentRequest.withVotes (t : Tally) (p : CPaymentRequest) : CPaymentRequest :=
  { p with nVotesYes := t.nVotesYes, nVotesNo := t.nVotesNo, nVotesAbs := t.nVotesAbs }

def applyPaymentRequestVotes (s : VoteStepLocals) (it : Uint256 × Tally) : VoteStepLocals :=
  match s.requests.copy.find? it.1 with
  | none => s
  | some p =>
    match x.blockOf p.txblockhash with
    | none => s
    | some pblockindex =>
      let nVotingCycles :=
        x.nVotingCycles pblockindex (s.view.param .paymentRequestMaxVotingCycles + 1)
      let s' := match x.pindexDelete with
        | none => s
        | some pindexDelete =>
          s.touchPaymentRequest it.1 (.undo x.toDaoRules pindexDelete nVotingCycles)
      let fCanVote : Bool := match x.pindexDelete with
        | none => p.canVote x.toDaoRules s.view
        | some _ => (s'.requests.stored.find? it.1).any
            (CPaymentRequest.canVote x.toDaoRules s'.view)
      if fCanVote then
        let s' := s'.touchPaymentRequest it.1 (.withVotes it.2)
        { s' with mapSeen := it.1 :: s'.mapSeen }
      else s'

def CConsultation.withSupport (nSupport : Int) (c : CConsultation) : CConsultation :=
  { c with nSupport := nSupport }

def CConsultationAnswer.withSupport (nSupport : Int) (a : CConsultationAnswer) :
    CConsultationAnswer :=
  { a with nSupport := nSupport }

def supportConsultation (s : VoteStepLocals) (c : CConsultation) (nSupport : Int) :
    VoteStepLocals :=
  match x.blockOf c.txblockhash with
  | none => s
  | some pblockindex =>
    let nVotingCycles := x.nVotingCycles pblockindex
      (s.view.param .consultationMaxVotingCycles + s.view.param .consultationReflectionLength +
        s.view.param .consultationMaxSupportCycles)
    let s' := match x.pindexDelete with
      | none => s
      | some pindexDelete =>
        s.touchConsultation c.hash (.undo x.toDaoRules pindexDelete nVotingCycles)
    let fCanBeSupported : Bool := match x.pindexDelete with
      | none => c.canBeSupported x.toDaoRules
      | some _ => (s'.consultations.stored.find? c.hash).any
          (CConsultation.canBeSupported x.toDaoRules)
    if fCanBeSupported then
      let s' := s'.touchConsultation c.hash (.withSupport nSupport)
      { s' with mapSeenSupport := c.hash :: s'.mapSeenSupport }
    else s'

def supportConsultationAnswer (s : VoteStepLocals) (a : CConsultationAnswer) (nSupport : Int) :
    VoteStepLocals :=
  match x.blockOf a.txblockhash with
  | none => s
  | some _ =>
    let s' := match x.pindexDelete with
      | none => s
      | some pindexDelete => s.touchConsultationAnswer a.hash fun a => a.clearState pindexDelete
    let fCanBeSupported : Bool := match x.pindexDelete with
      | none => a.canBeSupported x.toDaoRules s.view
      | some _ => (s'.answers.stored.find? a.hash).any
          (CConsultationAnswer.canBeSupported x.toDaoRules s'.view)
    if fCanBeSupported then
      let s' := s'.touchConsultationAnswer a.hash (.withSupport nSupport)
      { s' with mapSeenSupport := a.hash :: s'.mapSeenSupport }
    else s'

def applySupport (s : VoteStepLocals) (it : Uint256 × Int) : VoteStepLocals :=
  match s.consultations.copy.find? it.1 with
  | some c => supportConsultation x s c it.2
  | none =>
    match s.answers.copy.find? it.1 with
    | some a => supportConsultationAnswer x s a it.2
    | none => s

/-- The count for one value, which is stored as `uint64_t`. -/
def CConsultation.withVote (vote nVotes : Int) (c : CConsultation) : CConsultation :=
  { c with mapVotes := c.mapVotes.assign (toUint64 vote, toUint64 nVotes) }

def CConsultation.clearVotes (c : CConsultation) : CConsultation := { c with mapVotes := ∅ }

def CConsultationAnswer.withVotes (nVotes : Int) (a : CConsultationAnswer) : CConsultationAnswer :=
  { a with nVotes := nVotes }

def voteConsultation (s : VoteStepLocals) (c : CConsultation) (vote nVotes : Int) :
    VoteStepLocals :=
  match x.blockOf c.txblockhash with
  | none => s
  | some pblockindex =>
    let nVotingCycles :=
      x.nVotingCycles pblockindex (s.view.param .consultationMaxVotingCycles + 1)
    let s' := match x.pindexDelete with
      | none => s
      | some pindexDelete =>
        s.touchConsultation c.hash (.undo x.toDaoRules pindexDelete nVotingCycles)
    let fCanBeVoted : Bool := match x.pindexDelete with
      | none => c.canBeVoted x.toDaoRules vote && c.isValidVote vote
      | some _ => (s'.consultations.stored.find? c.hash).any fun c =>
          c.canBeVoted x.toDaoRules vote && c.isValidVote vote
    if fCanBeVoted then
      let fClear := x.fScanningWholeCycle && !s'.mapAlreadyCleared.contains c.hash
      let s' := s'.touchConsultation c.hash fun c =>
        (if fClear then c.clearVotes else c).withVote vote nVotes
      { s' with
        mapSeen := c.hash :: s'.mapSeen
        mapAlreadyCleared :=
          if fClear then c.hash :: s'.mapAlreadyCleared else s'.mapAlreadyCleared }
    else s'

def voteConsultationAnswer (s : VoteStepLocals) (a : CConsultationAnswer) (nVotes : Int) :
    VoteStepLocals :=
  match x.blockOf a.txblockhash with
  | none => s
  | some _ =>
    let s' := match x.pindexDelete with
      | none => s
      | some pindexDelete => s.touchConsultationAnswer a.hash fun a => a.clearState pindexDelete
    let fCanBeVoted : Bool := match x.pindexDelete with
      | none => a.canBeVoted x.toDaoRules s.view
      | some _ => (s'.answers.stored.find? a.hash).any
          (CConsultationAnswer.canBeVoted x.toDaoRules s'.view)
    if fCanBeVoted then
      let s' := s'.touchConsultationAnswer a.hash (.withVotes nVotes)
      { s' with mapSeen := a.hash :: s'.mapSeen }
    else s'

def applyConsultationVotes (s : VoteStepLocals) (it : ConsultationVote × Int) : VoteStepLocals :=
  match s.consultations.copy.find? it.1.hash with
  | some c => voteConsultation x s c it.1.vote it.2
  | none =>
    match s.answers.copy.find? it.1.hash with
    | some a => voteConsultationAnswer x s a it.2
    | none => s

/-- The votes on proposals and payment requests. -/
def updateFundVotes (caches : VoteCaches) (s : VoteStepLocals) : VoteStepLocals :=
  let s := caches.mapCacheProposalsToUpdate.entries.foldl (applyProposalVotes x) s
  let s := { s with proposals := s.proposals.flush }
  let s := caches.mapCachePaymentRequestToUpdate.entries.foldl (applyPaymentRequestVotes x) s
  { s with requests := s.requests.flush }

/-- The votes on consultations and answers. -/
def updateConsultationVotes (caches : VoteCaches) (s : VoteStepLocals) : VoteStepLocals :=
  let s := caches.mapCacheSupportToUpdate.entries.foldl (applySupport x) s
  let s := s.flushConsultations
  let s := caches.mapCacheConsultationToUpdate.entries.foldl (applyConsultationVotes x) s
  s.flushConsultations

/-- The counts are written to the objects that can be voted on. -/
def updateVotes (caches : VoteCaches) (s : VoteStepLocals) : VoteStepLocals :=
  let s := if x.fCFund then updateFundVotes x caches s else s
  let s := if x.fDAOConsultations then updateConsultationVotes x caches s else s
  { s with rest := { s.rest with nExcludeVotes := caches.nCacheExclude } }

end Votes

/-! ## Payment requests -/

section States

variable (x : VoteStepContext)

/-- The proposal of a request has the funds for it. -/
def requestFunded (s : VoteStepLocals) (it : CPaymentRequest) (proposal : CProposal) : Bool :=
  let proposalOldState := proposal.getLastState x.mapBlockIndex
  (proposalOldState == .accepted || proposalOldState == .pendingVotingPreq) &&
    (proposal.isSuper || it.nAmount ≤ s.nCFLocked) &&
    it.nAmount ≤ proposal.getAvailable x.toDaoRules s.view

/-- The next state of a request at the end of a cycle.  `q` is the object that its votes are read
off: the one in the view while the request is open, and the copy afterwards. -/
def requestVerdict (s : VoteStepLocals) (it q : CPaymentRequest) : Option DaoFlag :=
  let oldState := it.getLastState x.mapBlockIndex
  if q.isExpired x.toDaoRules s.view then
    if oldState ≠ .expired ∧ oldState ≠ .accepted ∧ oldState ≠ .rejected then some .expired
    else none
  else if q.isRejected x.toDaoRules s.view then
    if oldState ≠ .rejected then some .rejected else none
  else if oldState = .nil ∧ q.isAccepted x.toDaoRules s.view ∧
      (s.proposals.copy.find? it.proposalhash).any (requestFunded x s it) then
    some .accepted
  else none

/-- A request that is accepted takes its amount off the locked funds, unless its proposal is a
super proposal. -/
def lockedAfter (s : VoteStepLocals) (it : CPaymentRequest) (state : DaoFlag) : Int :=
  if state = .accepted ∧ !(s.proposals.copy.find? it.proposalhash).any CProposal.isSuper then
    s.nCFLocked - it.nAmount
  else s.nCFLocked

def closePaymentRequest (s : VoteStepLocals) (it q : CPaymentRequest) : VoteStepLocals :=
  match requestVerdict x s it q with
  | none => s
  | some state =>
    { s with nCFLocked := lockedAfter s it state }.touchPaymentRequest it.hash fun p =>
      p.setState x.pindexNew state

/-- One payment request.  The voting cycle of an open one goes to the view, not to the copy. -/
def stepPaymentRequest (s : VoteStepLocals) (it : CPaymentRequest) : VoteStepLocals :=
  match x.blockOf it.txblockhash with
  | none => s
  | some pblockindex =>
    let nVotingCycles := x.nVotingCycles pblockindex (x.nCycleLength + 1)
    match x.pindexDelete with
    | some pindexDelete =>
      s.touchPaymentRequest it.hash (.undo x.toDaoRules pindexDelete nVotingCycles)
    | none =>
      if it.getLastState x.mapBlockIndex = .nil then
        let s' := { s with requests := s.requests.modify it.hash (.withCycle nVotingCycles) }
        match s'.requests.stored.find? it.hash with
        | none => s'
        | some q => if x.endsCycle then closePaymentRequest x s' it q else s'
      else if x.endsCycle then closePaymentRequest x s it it
      else s

/-! ## Proposals -/

/-- The next state of a proposal at the end of a cycle. -/
def proposalVerdict (s : VoteStepLocals) (it : CProposal) : Option DaoFlag :=
  let oldState := it.getLastState x.mapBlockIndex
  if it.isExpired x.toDaoRules x.pindexNew.nTime s.view then
    if oldState ≠ .expired ∧ oldState ≠ .acceptedExpired ∧ oldState ≠ .rejected then
      if it.hasPendingPaymentRequests x.toDaoRules s.view then some .pendingVotingPreq
      else if oldState = .accepted ∨ oldState = .pendingVotingPreq then some .acceptedExpired
      else some .expired
    else none
  else if it.isRejected x.toDaoRules s.view then
    if oldState ≠ .rejected then some .rejected else none
  else if it.isAccepted x.toDaoRules s.view ∧ (oldState = .nil ∨ oldState = .pendingFunds) then
    if it.isSuper ∨ s.nCFSupply ≥ it.getAvailable x.toDaoRules s.view then some .accepted
    else if oldState ≠ .pendingFunds then some .pendingFunds
    else none
  else none

/-- What a proposal locks when it is accepted, and gives back when it expires after that. -/
def moveFunds (s : VoteStepLocals) (it : CProposal) (state : DaoFlag) : VoteStepLocals :=
  let available := it.getAvailable x.toDaoRules s.view
  if it.isSuper then s
  else if state = .accepted then
    { s with nCFSupply := s.nCFSupply - available, nCFLocked := s.nCFLocked + available }
  else if state = .acceptedExpired then
    { s with nCFSupply := s.nCFSupply + available, nCFLocked := s.nCFLocked - available }
  else s

def closeProposal (s : VoteStepLocals) (it : CProposal) : VoteStepLocals :=
  match proposalVerdict x s it with
  | none => s
  | some state =>
    (moveFunds x s it state).touchProposal it.hash fun p => p.setState x.pindexNew state

/-- One proposal.  Its votes are read off the copy, before the voting cycle is updated. -/
def stepProposal (s : VoteStepLocals) (it : CProposal) : VoteStepLocals :=
  match x.blockOf it.txblockhash with
  | none => s
  | some pblockindex =>
    let nVotingCycles :=
      x.nVotingCycles pblockindex (s.view.param .proposalMaxVotingCycles + 1)
    match x.pindexDelete with
    | some pindexDelete =>
      s.touchProposal it.hash (.undo x.toDaoRules pindexDelete nVotingCycles)
    | none =>
      let s' := if it.getLastState x.mapBlockIndex = .nil then
          s.touchProposal it.hash (.withCycle nVotingCycles)
        else s
      if x.endsCycle then closeProposal x s' it else s'

/-! ## Answers -/

/-- `insert`, which keeps the value a parameter already has. -/
def insertChange (m : OrderedMap (Prod.fst : Nat × Nat → Nat)) (e : Nat × Bytes) :
    Except Failure (OrderedMap (Prod.fst : Nat × Nat → Nat)) :=
  match stoll e.2 with
  | none => .error .exception
  | some val => .ok (if m.contains e.1 then m else m.assign (e.1, toUint64 val))

/-- What an answer changes that has enough votes. -/
def passAnswer (s : VoteStepLocals) (it : CConsultationAnswer) : Except Failure VoteStepLocals :=
  match s.consultations.copy.find? it.parent with
  | none => .ok s
  | some parent =>
    let answers := it.getAnswers
    let parameters := parent.getParameters
    if parent.isAboutConsensusParameter && answers.length == parameters.length then do
      let changes ← (parameters.zip answers).foldlM insertChange s.mapConsensusToChange
      pure ({ s with mapConsensusToChange := changes }.touchConsultationAnswer it.hash
        fun a => a.setState x.pindexNew .passed)
    else .ok s

/-- One answer. -/
def stepConsultationAnswer (s : VoteStepLocals) (it : CConsultationAnswer) :
    Except Failure VoteStepLocals :=
  match x.blockOf it.txblockhash with
  | none => .ok s
  | some _ =>
    match x.pindexDelete with
    | some pindexDelete =>
      .ok (s.touchConsultationAnswer it.hash fun a => a.clearState pindexDelete)
    | none =>
      if x.endsCycle then
        let oldState := it.getLastState x.mapBlockIndex
        let s' := if it.isSupported s.view && oldState == .nil then
            s.touchConsultationAnswer it.hash fun a => a.setState x.pindexNew .accepted
          else s
        if it.isConsensusAccepted x.toDaoRules s.view && oldState != .passed then
          passAnswer x s' it
        else .ok s'
      else .ok s

/-! ## Consultations -/

/-- The consultation is over because all its parameters are changed. -/
def consultationPasses (s : VoteStepLocals) (it : CConsultation) : Bool :=
  it.isAboutConsensusParameter && it.getLastState x.mapBlockIndex == .accepted &&
    !it.isExpired x.toDaoRules x.pindexNew s.view &&
    it.getParameters.all fun p => s.mapConsensusToChange.contains p

/-- The next state of a consultation at the end of a cycle. -/
def consultationVerdict (s : VoteStepLocals) (it : CConsultation) : Option DaoFlag :=
  let oldState := it.getLastState x.mapBlockIndex
  if consultationPasses x s it then some .passed
  else if it.isExpired x.toDaoRules x.pindexNew s.view then
    if oldState ≠ .expired then some .expired else none
  else if it.isSupported s.view then
    if oldState = .nil then some .supported
    else if oldState = .supported ∧ it.canMoveInReflection s.view then some .reflection
    else if oldState = .reflection ∧ it.isReflectionOver x.toDaoRules x.pindexNew s.view then
      some .accepted
    else none
  else none

def closeConsultation (s : VoteStepLocals) (it : CConsultation) : VoteStepLocals :=
  match consultationVerdict x s it with
  | none => s
  | some state => s.touchConsultation it.hash fun c => c.setState x.pindexNew state

/-- One consultation. -/
def stepConsultation (s : VoteStepLocals) (it : CConsultation) : VoteStepLocals :=
  match x.blockOf it.txblockhash with
  | none => s
  | some pblockindex =>
    let nVotingCycles :=
      x.nVotingCycles pblockindex (s.view.param .consultationMaxVotingCycles + 1)
    match x.pindexDelete with
    | some pindexDelete =>
      s.touchConsultation it.hash (.undo x.toDaoRules pindexDelete nVotingCycles)
    | none =>
      let s' := if it.isFinished x.toDaoRules then s
        else s.touchConsultation it.hash (.withCycle nVotingCycles)
      if x.endsCycle then closeConsultation x s' it else s'

/-- The next states of requests and proposals. -/
def stepFund (s : VoteStepLocals) : VoteStepLocals :=
  let s := s.requests.copy.entries.foldl (stepPaymentRequest x) s
  let s := { s with requests := s.requests.flush }
  let s := s.proposals.copy.entries.foldl (stepProposal x) s
  { s with proposals := s.proposals.flush }

/-- The next states of answers and consultations. -/
def stepConsultations (s : VoteStepLocals) : Except Failure VoteStepLocals := do
  let s ← s.answers.copy.entries.foldlM (stepConsultationAnswer x) s
  let s := { s with answers := s.answers.flush }
  let s := s.consultations.copy.entries.foldl (stepConsultation x) s
  pure { s with consultations := s.consultations.flush }

end States

/-! ## Resets -/

section Resets

variable (x : VoteStepContext)

/-- The abstentions are not reset. -/
def resetPaymentRequest (s : VoteStepLocals) (it : CPaymentRequest) : VoteStepLocals :=
  if !s.mapSeen.contains it.hash && it.canVote x.toDaoRules s.view then
    { s with requests := s.requests.modify it.hash fun p =>
        { p with nVotesYes := 0, nVotesNo := 0 } }
  else s

def resetProposal (s : VoteStepLocals) (it : CProposal) : VoteStepLocals :=
  if !s.mapSeen.contains it.hash && it.canVote x.toDaoRules then
    { s with proposals := s.proposals.modify it.hash fun p =>
        { p with nVotesYes := 0, nVotesNo := 0 } }
  else s

def resetConsultation (s : VoteStepLocals) (it : CConsultation) : VoteStepLocals :=
  let s := if it.canBeSupported x.toDaoRules && !s.mapSeenSupport.contains it.hash then
      { s with consultations := s.consultations.modify it.hash (.withSupport 0) }
    else s
  if it.getLastState x.mapBlockIndex = .accepted then
    let s := if it.isRange then s else { s with vClearAnswers := it.hash :: s.vClearAnswers }
    if (it.mapVotes.contains (toUint64 VoteFlags.voteAbstain) || it.isRange) &&
        !s.mapSeen.contains it.hash then
      { s with consultations := s.consultations.modify it.hash .clearVotes }
    else s
  else s

def resetConsultationAnswer (s : VoteStepLocals) (it : CConsultationAnswer) : VoteStepLocals :=
  if s.mapSeen.contains it.hash then s
  else
    let s := if it.canBeSupported x.toDaoRules s.view && !s.mapSeenSupport.contains it.hash then
        { s with answers := s.answers.modify it.hash (.withSupport 0) }
      else s
    if s.vClearAnswers.contains it.parent then
      { s with answers := s.answers.modify it.hash (.withVotes 0) }
    else s

/-- After a scan of the whole cycle, what was not voted on starts again. -/
def resetVotes (s : VoteStepLocals) : VoteStepLocals :=
  if x.fScanningWholeCycle then
    let s := if x.fCFund then
        let s := s.requests.copy.entries.foldl (resetPaymentRequest x) s
        s.proposals.copy.entries.foldl (resetProposal x) s
      else s
    if x.fDAOConsultations then
      let s := s.consultations.copy.entries.foldl (resetConsultation x) s
      s.answers.copy.entries.foldl (resetConsultationAnswer x) s
    else s
  else s

/-- A parameter that was voted on; other numbers name no parameter. -/
def changeParameter (view : DaoView) (e : Nat × Nat) : DaoView :=
  match ConsensusParam.ofNat? e.1 with
  | none => view
  | some p => view.setConsensusParameter p x.pindexNew.nHeight e.2

end Resets

/-! ## The step -/

structure VoteStepResult where
  view : DaoView
  nCFSupply : Int
  nCFLocked : Int
  caches : VoteCaches

/-- The copies are taken of the kinds that are deployed; null objects are left out. -/
def startStep (x : VoteStepContext) (nCFSupply nCFLocked : Int) (view : DaoView) :
    VoteStepLocals :=
  { rest := view, nCFSupply, nCFLocked
    proposals := ⟨view.proposals, if x.fCFund then view.getAllProposals else ∅, ∅⟩
    requests := ⟨view.paymentRequests, if x.fCFund then view.getAllPaymentRequests else ∅, ∅⟩
    consultations :=
      ⟨view.consultations, if x.fDAOConsultations then view.getAllConsultations else ∅, ∅⟩
    answers :=
      ⟨view.answers, if x.fDAOConsultations then view.getAllConsultationAnswers else ∅, ∅⟩ }

/-- The step on objects, after the votes were counted. -/
def stepObjects (x : VoteStepContext) (caches : VoteCaches) (nCFSupply nCFLocked : Int)
    (view : DaoView) : Except Failure VoteStepLocals := do
  let s := startStep x nCFSupply nCFLocked view
  -- the block of a request is dereferenced without a check
  Except.rejectIf (s.requests.copy.entries.any fun p =>
    p.txblockhash != 0 && (x.mapBlockIndex p.txblockhash).isNone) .assertion
  let s := updateVotes x caches s
  let s := if x.fCFund then stepFund x s else s
  let s ← (if x.fDAOConsultations then stepConsultations x s else .ok s)
  let s := resetVotes x s
  pure { s with rest := s.mapConsensusToChange.entries.foldl (changeParameter x) s.rest }

/-- The blocks that are scanned and whether they are the whole cycle so far. -/
def scansWholeCycle (fUndo : Bool) (nBlocks : Nat) (view : DaoView) (caches : VoteCaches) : Bool :=
  fUndo || caches.lastConsensusStateHash != some view.getConsensusStateHash || nBlocks == 1 ||
    caches.empty

/-- `VoteStep` at the top of a chain; with `pindexDelete` the top is the block before the one that
is undone. -/
def voteStep (nd : DaoNode) (records : VoteRecords) (caches : VoteCaches)
    (chain : List CBlockIndex) (pindexDelete : Option CBlockIndex) (nCFSupply nCFLocked : Int)
    (view : DaoView) : Except Failure VoteStepResult :=
  match chain with
  | [] => .error .assertion
  | pindexNew :: ancestors => do
    let nCycleLength := view.param .votingCycleLength
    Except.rejectIf (nCycleLength = 0) .assertion
    let nBlocks := toUint64 pindexNew.nHeight % nCycleLength + 1
    let d := (ancestors.head?.map nd.deployments).getD {}
    if !d.communityFund && !d.dao then
      pure { view, nCFSupply, nCFLocked, caches }
    else
      let whole := scansWholeCycle pindexDelete.isSome nBlocks view caches
      let caches := { (if whole then {} else caches) with
        lastConsensusStateHash := some view.getConsensusStateHash }
      let caches := scanBlocks d.communityFund d.dao view records caches
        (chain.take (if whole then nBlocks else 1))
      let x : VoteStepContext :=
        { nd.toDaoRules with
          pindexNew, pindexDelete, nCycleLength, fCFund := d.communityFund
          fDAOConsultations := d.dao, fScanningWholeCycle := whole }
      let s ← stepObjects x caches nCFSupply nCFLocked view
      pure { view := s.view, nCFSupply := s.nCFSupply, nCFLocked := s.nCFLocked, caches }

end Navcoin
