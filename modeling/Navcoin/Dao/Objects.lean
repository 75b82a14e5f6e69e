import Mathlib.Data.List.Sort
import Navcoin.Lib.AssocMap
import Navcoin.Primitives.Basic

/-!
# The objects that are voted on

The records of `consensus/dao.h` and their state maps.  A state is recorded under
the hash of the block that set it; the last state is the one whose block, looked up
in the global block index, is highest.  The flag `fDirty` only tells the caches below
the view what to write and is left out.
-/

namespace Navcoin

/-- `DAOFlags` -/
inductive DaoFlag where
  | nil
  | accepted
  | rejected
  | expired
  | pendingFunds
  | pendingVotingPreq
  | paid
  | passed
  | reflection
  | supported
  | acceptedExpired
  deriving DecidableEq, Repr

/-- The part of a block index entry that the state machines read. -/
structure CBlockIndex where
  hashBlock : Uint256
  nHeight : Int
  nTime : Nat := 0
  nVersion : BitVec 32 := 0
  nNonce : UInt32 := 0
  /-- `IsColdStakeV2` -/
  fColdStakeV2 : Bool := false
  deriving DecidableEq, Repr

/-- `mapBlockIndex`: every block the node knows of, on the active chain or not. -/
abbrev BlockMap := Uint256 → Option CBlockIndex

abbrev StateMap := List (Uint256 × DaoFlag)

namespace StateMap

variable (mapBlockIndex : BlockMap)

/-- One round of the loop shared by `GetLastState` and `GetLastStateBlockIndex`: keep
the entry if its block is known and strictly higher than the best so far, which
starts at height zero. -/
def consider (best : Option (CBlockIndex × DaoFlag))
    (it : Uint256 × DaoFlag) : Option (CBlockIndex × DaoFlag) :=
  match mapBlockIndex it.1 with
  | none => best
  | some pindex =>
    if pindex.nHeight > (best.map fun b => b.1.nHeight).getD 0 then some (pindex, it.2) else best

def last (mapState : StateMap) : Option (CBlockIndex × DaoFlag) :=
  mapState.foldl (consider mapBlockIndex) none

def getLastState (mapState : StateMap) : DaoFlag :=
  match last mapBlockIndex mapState with
  | some b => b.2
  | none => .nil

def getLastStateBlockIndex (mapState : StateMap) : Option CBlockIndex :=
  (last mapBlockIndex mapState).map Prod.fst

def getLastStateBlockIndexForState (mapState : StateMap) (state : DaoFlag) : Option CBlockIndex :=
  getLastStateBlockIndex mapBlockIndex (mapState.filter fun it => it.2 = state)

def setState (mapState : StateMap) (pindex : CBlockIndex) (state : DaoFlag) : StateMap :=
  AssocMap.assign pindex.hashBlock state mapState

def clearState (mapState : StateMap) (pindex : CBlockIndex) : StateMap :=
  AssocMap.erase pindex.hashBlock mapState

end StateMap

structure CPaymentRequest where
  nAmount : Int := 0
  mapState : StateMap := []
  hash : Uint256 := 0
  proposalhash : Uint256 := 0
  txblockhash : Uint256 := 0
  nVotesYes : Int := 0
  nVotesNo : Int := 0
  nVotesAbs : Int := 0
  nExclude : Int := 0
  strDZeel : Bytes := []
  nVersion : BitVec 32 := 0
  nVotingCycle : Nat := 0
  deriving DecidableEq, Repr

namespace CPaymentRequest

def baseVersion : BitVec 32 := 1 <<< 1
def reducedQuorumVersion : BitVec 32 := 1 <<< 2
def abstainVoteVersion : BitVec 32 := 1 <<< 3
def excludeVersion : BitVec 32 := 1 <<< 4
def superVersion : BitVec 32 := 1 <<< 5

def isNull (p : CPaymentRequest) : Bool :=
  p.nAmount == 0 && p.nVotesYes == 0 && p.nVotesNo == 0 && p.nExclude == 0 &&
    p.strDZeel.isEmpty && p.mapState.isEmpty

def getLastState (m : BlockMap) (p : CPaymentRequest) : DaoFlag := p.mapState.getLastState m

def setState (p : CPaymentRequest) (pindex : CBlockIndex) (state : DaoFlag) : CPaymentRequest :=
  { p with mapState := p.mapState.setState pindex state }

def clearState (p : CPaymentRequest) (pindex : CBlockIndex) : CPaymentRequest :=
  { p with mapState := p.mapState.clearState pindex }

def isSuper (p : CPaymentRequest) : Bool := p.nVersion &&& superVersion != 0

end CPaymentRequest

structure CProposal where
  nAmount : Int := 0
  nFee : Int := 0
  ownerAddress : Bytes := []
  paymentAddress : Bytes := []
  nDeadline : UInt32 := 0
  mapState : StateMap := []
  nVotesYes : Int := 0
  nVotesNo : Int := 0
  nVotesAbs : Int := 0
  nExclude : Int := 0
  strDZeel : Bytes := []
  hash : Uint256 := 0
  txblockhash : Uint256 := 0
  nVersion : BitVec 32 := 0
  nVotingCycle : Nat := 0
  deriving DecidableEq, Repr

namespace CProposal

def baseVersion : BitVec 32 := 1 <<< 1
def reducedQuorumVersion : BitVec 32 := 1 <<< 2
def abstainVoteVersion : BitVec 32 := 1 <<< 3
def paymentAddressVersion : BitVec 32 := 1 <<< 4
def excludeVersion : BitVec 32 := 1 <<< 5
def superVersion : BitVec 32 := 1 <<< 6

def isNull (p : CProposal) : Bool :=
  p.nAmount == 0 && p.nFee == 0 && p.ownerAddress.isEmpty && p.paymentAddress.isEmpty &&
    p.nVotesYes == 0 && p.nVotesNo == 0 && p.nExclude == 0 && p.nDeadline == 0 &&
    p.strDZeel.isEmpty && p.mapState.isEmpty

def getLastState (m : BlockMap) (p : CProposal) : DaoFlag := p.mapState.getLastState m

def setState (p : CProposal) (pindex : CBlockIndex) (state : DaoFlag) : CProposal :=
  { p with mapState := p.mapState.setState pindex state }

def clearState (p : CProposal) (pindex : CBlockIndex) : CProposal :=
  { p with mapState := p.mapState.clearState pindex }

def isSuper (p : CProposal) : Bool := p.nVersion &&& superVersion != 0

def getPaymentAddress (p : CProposal) : Bytes :=
  if p.nVersion &&& paymentAddressVersion ≠ 0 then p.paymentAddress else p.ownerAddress

end CProposal

/-! ## Consultations -/

structure CConsultationAnswer where
  nVersion : BitVec 32 := 0
  sAnswer : Bytes := []
  vAnswer : List Bytes := []
  nVotes : Int := 0
  nSupport : Int := 0
  nExclude : Int := 0
  mapState : StateMap := []
  hash : Uint256 := 0
  parent : Uint256 := 0
  txblockhash : Uint256 := 0
  txhash : Uint256 := 0
  deriving DecidableEq, Repr

namespace CConsultationAnswer

def baseVersion : BitVec 32 := 1
def excludeVersion : BitVec 32 := 1 <<< 1
def superVersion : BitVec 32 := 1 <<< 2

def isNull (a : CConsultationAnswer) : Bool := a == {}

def getLastState (m : BlockMap) (a : CConsultationAnswer) : DaoFlag := a.mapState.getLastState m

def setState (a : CConsultationAnswer) (pindex : CBlockIndex) (state : DaoFlag) :
    CConsultationAnswer :=
  { a with mapState := a.mapState.setState pindex state }

def clearState (a : CConsultationAnswer) (pindex : CBlockIndex) : CConsultationAnswer :=
  { a with mapState := a.mapState.clearState pindex }

/-- `GetAnswers`: the texts of a super answer in alphabetical order. -/
def getAnswers (a : CConsultationAnswer) : List Bytes :=
  if a.nVersion &&& superVersion ≠ 0 then a.vAnswer.insertionSort (· ≤ ·) else [a.sAnswer]

end CConsultationAnswer

structure CConsultation where
  mapState : StateMap := []
  hash : Uint256 := 0
  txblockhash : Uint256 := 0
  nVersion : BitVec 64 := 0
  nVotingCycle : Nat := 0
  strDZeel : Bytes := []
  nSupport : Int := 0
  nMin : Nat := 0
  vParameters : List Nat := []
  nMax : Nat := 0
  /-- the number of votes for each value -/
  mapVotes : OrderedMap (Prod.fst : Nat × Nat → Nat) := ∅
  vAnswers : List Uint256 := []
  nExclude : Int := 0
  deriving DecidableEq, Repr

namespace CConsultation

def baseVersion : BitVec 64 := 1
def answerIsARangeVersion : BitVec 64 := 1 <<< 1
def moreAnswersVersion : BitVec 64 := 1 <<< 2
def consensusParameterVersion : BitVec 64 := 1 <<< 3
def excludeVersion : BitVec 64 := 1 <<< 4
def superVersion : BitVec 64 := 1 <<< 5

def isNull (c : CConsultation) : Bool :=
  c.hash == 0 && c.txblockhash == 0 && c.mapState.isEmpty && c.nVersion == 0 &&
    c.nVotingCycle == 0 && c.strDZeel.isEmpty && c.nSupport == 0 && c.nMin == 0 && c.nMax == 0 &&
    c.vAnswers.isEmpty && c.nExclude == 0 && c.vParameters.isEmpty

def getLastState (m : BlockMap) (c : CConsultation) : DaoFlag := c.mapState.getLastState m

def setState (c : CConsultation) (pindex : CBlockIndex) (state : DaoFlag) : CConsultation :=
  { c with mapState := c.mapState.setState pindex state }

def clearState (c : CConsultation) (pindex : CBlockIndex) : CConsultation :=
  { c with mapState := c.mapState.clearState pindex }

def isRange (c : CConsultation) : Bool := c.nVersion &&& answerIsARangeVersion != 0

def isSuper (c : CConsultation) : Bool := c.nVersion &&& superVersion != 0

def isAboutConsensusParameter (c : CConsultation) : Bool :=
  c.nVersion &&& consensusParameterVersion != 0

/-- `GetParameters`: the parameters of a super consultation in ascending order. -/
def getParameters (c : CConsultation) : List Nat :=
  if c.isAboutConsensusParameter then
    if c.isSuper then c.vParameters.insertionSort (· ≤ ·) else [c.nMin]
  else []

end CConsultation

end Navcoin
