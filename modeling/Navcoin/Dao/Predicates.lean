import Navcoin.Dao.View
import Navcoin.Lib.BinaryRound

/-!
# What the votes on an object say

The predicates of `consensus/dao.cpp` on proposals, payment requests, consultations and answers.
Quorums are computed in `float` and shares of the votes in `double`, as the source does.
-/

namespace Navcoin

/-- What the predicates read of the node. -/
structure DaoRules where
  mapBlockIndex : BlockMap
  nConsensusChangeMinAccept : Nat
  nMinimumQuorumFirstHalf : ℚ
  nMinimumQuorumSecondHalf : ℚ

open BinaryRound

/-! ## Arithmetic -/

/-- A number of hundredths of a percent as `double`. -/
def hundredths (n : Nat) : ℚ := float64 (float64 n / 10000)

/-- `(nCycleLength - exclude) * nMinimumQuorum`: the difference is `uint64_t`, the product
`float`. -/
def quorumOf (nCycleLength : Nat) (exclude : Int) (nMinimumQuorum : ℚ) : ℚ :=
  float32 (float32 (toUint64 (nCycleLength - exclude)) * nMinimumQuorum)

/-- `(float)votes > (float)nTotalVotes * share` -/
def exceedsShare (votes nTotalVotes : Int) (share : ℚ) : Bool :=
  float32 votes > float64 (float32 nTotalVotes * share)

/-- `nHeight / nCycleLength` -/
def cycleOf (nHeight : Int) (nCycleLength : Nat) : Nat := toUint64 nHeight / nCycleLength

/-- `nCurrentCycle - nCreatedOnCycle` in `uint64_t`. -/
def elapsedCycles (nCreatedOnCycle nCurrentCycle : Nat) : Nat :=
  (nCurrentCycle + 2 ^ 64 - nCreatedOnCycle) % 2 ^ 64

/-! ## Votes on payment requests and proposals -/

/-- The parameters that the two kinds of objects are measured by. -/
structure VoteParams where
  minQuorum : ConsensusParam
  minAccept : ConsensusParam
  minReject : ConsensusParam
  maxVotingCycles : ConsensusParam

/-- The counters, with the version bits that say how they are read. -/
structure VoteCount where
  nVotesYes : Int
  nVotesNo : Int
  nVotesAbs : Int
  nVotingCycle : Nat
  fSuper : Bool
  fReducedQuorum : Bool
  fAbstainVote : Bool
  fExclude : Bool

namespace VoteCount

def nTotalVotes (c : VoteCount) : Int :=
  c.nVotesYes + c.nVotesNo + if c.fAbstainVote then c.nVotesAbs else 0

def nMinimumQuorum (r : DaoRules) (view : DaoView) (k : VoteParams) (c : VoteCount) : ℚ :=
  if c.fReducedQuorum then
    if c.nVotingCycle > view.param k.maxVotingCycles / 2 then r.nMinimumQuorumSecondHalf
    else r.nMinimumQuorumFirstHalf
  else float32 (hundredths (if c.fSuper then 7500 else view.param k.minQuorum))

/-- The quorum, and a share of the votes for one side. -/
def decides (r : DaoRules) (view : DaoView) (k : VoteParams) (c : VoteCount) (votes : Int)
    (share : ConsensusParam) : Bool :=
  let exclude := if c.fExclude then view.nExcludeVotes else 0
  float32 c.nTotalVotes >
      quorumOf (view.param .votingCycleLength) exclude (c.nMinimumQuorum r view k) &&
    exceedsShare votes c.nTotalVotes (hundredths (if c.fSuper then 9000 else view.param share))

def isAccepted (r : DaoRules) (view : DaoView) (k : VoteParams) (c : VoteCount) : Bool :=
  c.decides r view k c.nVotesYes k.minAccept

def isRejected (r : DaoRules) (view : DaoView) (k : VoteParams) (c : VoteCount) : Bool :=
  c.decides r view k c.nVotesNo k.minReject

end VoteCount

namespace CProposal

def voteParams : VoteParams :=
  ⟨.proposalMinQuorum, .proposalMinAccept, .proposalMinReject, .proposalMaxVotingCycles⟩

def voteCount (p : CProposal) : VoteCount :=
  { nVotesYes := p.nVotesYes, nVotesNo := p.nVotesNo, nVotesAbs := p.nVotesAbs,
    nVotingCycle := p.nVotingCycle, fSuper := p.isSuper,
    fReducedQuorum := p.nVersion &&& reducedQuorumVersion != 0,
    fAbstainVote := p.nVersion &&& abstainVoteVersion != 0,
    fExclude := p.nVersion &&& excludeVersion != 0 }

variable (r : DaoRules)

def isAccepted (view : DaoView) (p : CProposal) : Bool :=
  p.voteCount.isAccepted r view voteParams

def isRejected (view : DaoView) (p : CProposal) : Bool :=
  p.voteCount.isRejected r view voteParams

def canVote (p : CProposal) : Bool := p.getLastState r.mapBlockIndex == .nil

def exceededMaxVotingCycles (view : DaoView) (p : CProposal) : Bool :=
  p.nVotingCycle > view.param .proposalMaxVotingCycles

def isExpired (currentTime : Nat) (view : DaoView) (p : CProposal) : Bool :=
  if p.nVersion &&& baseVersion ≠ 0 then
    let fLastState := p.getLastState r.mapBlockIndex
    match fLastState, p.mapState.getLastStateBlockIndexForState r.mapBlockIndex .accepted with
    | .accepted, some pblockindex => pblockindex.nTime + p.nDeadline.toNat < currentTime
    | _, _ => fLastState == .expired || fLastState == .pendingVotingPreq ||
        (p.exceededMaxVotingCycles view && fLastState == .nil)
  else p.nDeadline.toNat < currentTime

/-- The requests that `GetAvailable` takes off. -/
def charges (fIncludeRequests : Bool) (p : CProposal) (prequest : CPaymentRequest) : Bool :=
  let fLastState := prequest.getLastState r.mapBlockIndex
  prequest.proposalhash == p.hash &&
    if fIncludeRequests then fLastState != .rejected && fLastState != .expired
    else fLastState == .accepted || fLastState == .paid

def getAvailable (view : DaoView) (p : CProposal) (fIncludeRequests : Bool := false) : Int :=
  p.nAmount -
    ((view.getAllPaymentRequests.entries.filter (p.charges r fIncludeRequests)).map
      CPaymentRequest.nAmount).sum

/-- What a request takes off the proposal with a given hash. -/
def chargeOf (hash : Uint256) (prequest : CPaymentRequest) : Int :=
  let fLastState := prequest.getLastState r.mapBlockIndex
  if prequest.proposalhash = hash ∧ (fLastState = .accepted ∨ fLastState = .paid) then
    prequest.nAmount
  else 0

/-- Null requests have no amount, so they may be counted as well. -/
theorem getAvailable_eq (view : DaoView) (p : CProposal) : p.getAvailable r view =
      p.nAmount - (view.paymentRequests.entries.map (chargeOf r p.hash)).sum := by
  unfold getAvailable DaoView.getAllPaymentRequests OrderedMap.filter
  congr 1
  dsimp only
  induction view.paymentRequests.entries with
  | nil => rfl
  | cons q l ih =>
    rw [List.map_cons, List.sum_cons, ← ih]
    by_cases hnull : q.isNull = true
    · have hzero : chargeOf r p.hash q = 0 := by
        have hamount : q.nAmount = 0 := by
          simp only [CPaymentRequest.isNull, Bool.and_eq_true, beq_iff_eq] at hnull
          exact hnull.1.1.1.1.1
        unfold chargeOf
        dsimp only
        split
        · exact hamount
        · rfl
      rw [List.filter_cons_of_neg (by simpa using hnull), hzero, zero_add]
    · rw [List.filter_cons_of_pos (by simpa using hnull)]
      by_cases hcharge : p.charges r false q = true
      · have hvalue : chargeOf r p.hash q = q.nAmount := by
          simp only [charges, Bool.and_eq_true, beq_iff_eq, Bool.false_eq_true, if_false,
            Bool.or_eq_true] at hcharge
          exact if_pos hcharge
        rw [List.filter_cons_of_pos hcharge, List.map_cons, List.sum_cons, hvalue]
      · have hvalue : chargeOf r p.hash q = 0 := by
          simp only [charges, Bool.and_eq_true, beq_iff_eq, Bool.false_eq_true, if_false,
            Bool.or_eq_true] at hcharge
          exact if_neg hcharge
        rw [List.filter_cons_of_neg hcharge, hvalue, zero_add]

end CProposal

namespace CPaymentRequest

def voteParams : VoteParams :=
  ⟨.paymentRequestMinQuorum, .paymentRequestMinAccept, .paymentRequestMinReject,
    .paymentRequestMaxVotingCycles⟩

def voteCount (p : CPaymentRequest) : VoteCount :=
  { nVotesYes := p.nVotesYes, nVotesNo := p.nVotesNo, nVotesAbs := p.nVotesAbs,
    nVotingCycle := p.nVotingCycle, fSuper := p.isSuper,
    fReducedQuorum := p.nVersion &&& reducedQuorumVersion != 0,
    fAbstainVote := p.nVersion &&& abstainVoteVersion != 0,
    fExclude := p.nVersion &&& excludeVersion != 0 }

def isAccepted (r : DaoRules) (view : DaoView) (p : CPaymentRequest) : Bool :=
  p.voteCount.isAccepted r view voteParams

def isRejected (r : DaoRules) (view : DaoView) (p : CPaymentRequest) : Bool :=
  p.voteCount.isRejected r view voteParams

def canVote (r : DaoRules) (view : DaoView) (p : CPaymentRequest) : Bool :=
  match view.getProposal p.proposalhash with
  | none => false
  | some proposal =>
    let fProposalLastState := proposal.getLastState r.mapBlockIndex
    p.nAmount ≤ proposal.getAvailable r view && p.getLastState r.mapBlockIndex == .nil &&
      (fProposalLastState == .accepted || fProposalLastState == .pendingVotingPreq)

def exceededMaxVotingCycles (view : DaoView) (p : CPaymentRequest) : Bool :=
  p.nVotingCycle > view.param .paymentRequestMaxVotingCycles

def isExpired (r : DaoRules) (view : DaoView) (p : CPaymentRequest) : Bool :=
  let fLastState := p.getLastState r.mapBlockIndex
  baseVersion ≤ p.nVersion && p.exceededMaxVotingCycles view && fLastState != .accepted &&
    fLastState != .rejected && fLastState != .paid

end CPaymentRequest

def CProposal.hasPendingPaymentRequests (r : DaoRules) (view : DaoView) (p : CProposal) :
    Bool :=
  view.getAllPaymentRequests.entries.any fun prequest =>
    prequest.proposalhash == p.hash && prequest.canVote r view

/-! ## Consultations -/

namespace CConsultationAnswer

def canBeSupported (r : DaoRules) (view : DaoView) (a : CConsultationAnswer) : Bool :=
  match view.getConsultation a.parent with
  | none => false
  | some consultation =>
    let fConsultationState := consultation.getLastState r.mapBlockIndex
    (fConsultationState == .nil || fConsultationState == .supported) &&
      a.getLastState r.mapBlockIndex == .nil

def canBeVoted (r : DaoRules) (view : DaoView) (a : CConsultationAnswer) : Bool :=
  match view.getConsultation a.parent with
  | none => false
  | some consultation =>
    !consultation.isRange && a.getLastState r.mapBlockIndex == .accepted &&
      consultation.getLastState r.mapBlockIndex == .accepted

def isSupported (view : DaoView) (a : CConsultationAnswer) : Bool :=
  float32 a.nSupport ≥ quorumOf (view.param .votingCycleLength) 0
    (float32 (hundredths (view.param .consultationAnswerMinSupport)))

def isConsensusAccepted (r : DaoRules) (view : DaoView) (a : CConsultationAnswer) : Bool :=
  let exclude := if a.nVersion &&& excludeVersion ≠ 0 then view.nExcludeVotes else 0
  float32 a.nVotes ≥ quorumOf (view.param .votingCycleLength) exclude
    (float32 (hundredths r.nConsensusChangeMinAccept))

end CConsultationAnswer

namespace CConsultation

/-- The answers of the consultation that the view knows as such. -/
def supportedAnswers (view : DaoView) (c : CConsultation) : List Uint256 :=
  c.vAnswers.filter fun it => (view.getConsultationAnswer it).any fun answer =>
    answer.parent == c.hash && answer.isSupported view

def haveEnoughAnswers (view : DaoView) (c : CConsultation) : Bool :=
  if c.isRange then true
  else (c.supportedAnswers view).length ≥ if c.isAboutConsensusParameter then 1 else 2

def isSupported (view : DaoView) (c : CConsultation) : Bool :=
  if c.isRange then
    float32 c.nSupport > quorumOf (view.param .votingCycleLength) 0
      (float32 (hundredths (view.param .consultationMinSupport)))
  else c.haveEnoughAnswers view

def canMoveInReflection (view : DaoView) (c : CConsultation) : Bool :=
  c.nVotingCycle ≥ view.param .consultationMinCycles

def isReflectionOver (r : DaoRules) (pindex : CBlockIndex) (view : DaoView)
    (c : CConsultation) : Bool :=
  let nVotingLength := view.param .votingCycleLength
  match c.mapState.getLastStateBlockIndexForState r.mapBlockIndex .reflection with
  | none => false
  | some pblockindex =>
    -- the cycles are `unsigned int`
    (cycleOf pindex.nHeight nVotingLength % 2 ^ 32 + 2 ^ 32 -
        cycleOf pblockindex.nHeight nVotingLength % 2 ^ 32) % 2 ^ 32 ≥
      view.param .consultationReflectionLength

def exceededMaxVotingCycles (view : DaoView) (c : CConsultation) : Bool :=
  c.nVotingCycle ≥ view.param .consultationMaxSupportCycles

def isExpired (r : DaoRules) (pindex : CBlockIndex) (view : DaoView) (c : CConsultation) :
    Bool :=
  let fState := c.getLastState r.mapBlockIndex
  let nVotingLength := view.param .votingCycleLength
  match fState, c.mapState.getLastStateBlockIndexForState r.mapBlockIndex .accepted with
  | .accepted, some pblockindex =>
    elapsedCycles (cycleOf pblockindex.nHeight nVotingLength)
      (cycleOf pindex.nHeight nVotingLength) ≥ view.param .consultationMaxVotingCycles
  | _, _ => fState == .expired || (c.exceededMaxVotingCycles view && fState == .nil)

def canBeSupported (r : DaoRules) (c : CConsultation) : Bool :=
  c.getLastState r.mapBlockIndex == .nil && c.isRange

def canBeVoted (r : DaoRules) (vote : Int) (c : CConsultation) : Bool :=
  c.getLastState r.mapBlockIndex == .accepted && (c.isRange || vote == VoteFlags.voteAbstain)

/-- The bounds are compared as `uint64_t`. -/
def isValidVote (vote : Int) (c : CConsultation) : Bool :=
  vote == VoteFlags.voteAbstain ||
    (c.isRange && toUint64 vote ≥ c.nMin && toUint64 vote ≤ c.nMax)

def canHaveNewAnswers (r : DaoRules) (c : CConsultation) : Bool :=
  let fState := c.getLastState r.mapBlockIndex
  (fState == .nil || fState == .supported) && !c.isRange &&
    c.nVersion &&& moreAnswersVersion != 0

def isFinished (r : DaoRules) (c : CConsultation) : Bool :=
  let fState := c.getLastState r.mapBlockIndex
  fState == .expired || fState == .passed

end CConsultation

end Navcoin
