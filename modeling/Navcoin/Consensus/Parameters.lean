import Navcoin.Lib.OrderedMap
import Navcoin.Primitives.Basic

/-!
# Consensus parameters

`consensus/daoconsensusparams.h`: the parameters that a vote can change, and the list of changes
that the view keeps for each of them; and the deployments that version bits switch on.
-/

namespace Navcoin

/-- `ConsensusParamsPos` -/
inductive ConsensusParam where
  | votingCycleLength
  | consultationMinSupport
  | consultationAnswerMinSupport
  | consultationMinCycles
  | consultationMaxVotingCycles
  | consultationMaxSupportCycles
  | consultationReflectionLength
  | consultationMinFee
  | consultationAnswerMinFee
  | proposalMinQuorum
  | proposalMinAccept
  | proposalMinReject
  | proposalMinFee
  | proposalMaxVotingCycles
  | paymentRequestMinQuorum
  | paymentRequestMinAccept
  | paymentRequestMinReject
  | paymentRequestMinFee
  | paymentRequestMaxVotingCycles
  | fundSpreadAccumulation
  | fundPercentPerBlock
  | generationPerBlock
  | navnsFee
  | daoVoteLightMinFee
  | confidentialTokensEnabled
  | dotnavLength
  | dotnavMaxData
  | dotnavFeeExtraData
  deriving DecidableEq, Repr

namespace ConsensusParam

/-- The parameters in the order of the enumeration. -/
def all : List ConsensusParam :=
  [.votingCycleLength, .consultationMinSupport, .consultationAnswerMinSupport,
    .consultationMinCycles, .consultationMaxVotingCycles, .consultationMaxSupportCycles,
    .consultationReflectionLength, .consultationMinFee, .consultationAnswerMinFee,
    .proposalMinQuorum, .proposalMinAccept, .proposalMinReject, .proposalMinFee,
    .proposalMaxVotingCycles, .paymentRequestMinQuorum, .paymentRequestMinAccept,
    .paymentRequestMinReject, .paymentRequestMinFee, .paymentRequestMaxVotingCycles,
    .fundSpreadAccumulation, .fundPercentPerBlock, .generationPerBlock, .navnsFee,
    .daoVoteLightMinFee, .confidentialTokensEnabled, .dotnavLength, .dotnavMaxData,
    .dotnavFeeExtraData]

/-- The parameter at a position of the enumeration. -/
def ofNat? (n : Nat) : Option ConsensusParam := all[n]?

/-- The position of a parameter. -/
def toNat (p : ConsensusParam) : Nat := all.idxOf p

theorem mem_all (p : ConsensusParam) : p ∈ all := by cases p <;> decide

theorem ofNat?_toNat (p : ConsensusParam) : ofNat? p.toNat = some p := by
  unfold ofNat? toNat
  rw [List.getElem?_eq_getElem (List.idxOf_lt_length_of_mem (mem_all p))]
  exact congrArg some (List.getElem_idxOf _)

theorem toNat_of_ofNat? {n : Nat} {p : ConsensusParam} (h : ofNat? n = some p) : p.toNat = n := by
  obtain ⟨hlt, rfl⟩ := List.getElem?_eq_some_iff.mp h
  exact List.Nodup.idxOf_getElem (by decide) n hlt

end ConsensusParam

inductive ConsensusParamType where
  | number
  | percent
  | nav
  | bool
  | block
  | cycle
  deriving DecidableEq, Repr

/-- `vConsensusParamsType` -/
def ConsensusParam.type : ConsensusParam → ConsensusParamType
  | .votingCycleLength => .block
  | .consultationMinSupport | .consultationAnswerMinSupport => .percent
  | .consultationMinCycles | .consultationMaxVotingCycles | .consultationMaxSupportCycles
  | .consultationReflectionLength => .cycle
  | .consultationMinFee | .consultationAnswerMinFee => .nav
  | .proposalMinQuorum | .proposalMinAccept | .proposalMinReject => .percent
  | .proposalMinFee => .nav
  | .proposalMaxVotingCycles => .cycle
  | .paymentRequestMinQuorum | .paymentRequestMinAccept | .paymentRequestMinReject => .percent
  | .paymentRequestMinFee => .nav
  | .paymentRequestMaxVotingCycles => .cycle
  | .fundSpreadAccumulation => .number
  | .fundPercentPerBlock => .percent
  | .generationPerBlock | .navnsFee | .daoVoteLightMinFee => .nav
  | .confidentialTokensEnabled => .bool
  | .dotnavLength | .dotnavMaxData => .number
  | .dotnavFeeExtraData => .nav

/-- `CConsensusParameter`: the values a parameter was given, by height. -/
abbrev CConsensusParameter := OrderedMap (Prod.fst : Int × Nat → Int)

namespace CConsensusParameter

/-- `Get`: the value of the greatest height; negative heights do not count. -/
def get (list : CConsensusParameter) : Option Nat :=
  let best := list.entries.foldl (fun (best : Option (Int × Nat)) it =>
    if it.1 < (best.map Prod.fst).getD 0 then best else some it) none
  best.map Prod.snd

/-- `Set` -/
def set (list : CConsensusParameter) (height : Int) (val : Nat) : CConsensusParameter :=
  list.assign (height, val)

/-- `Clear` -/
def clear (list : CConsensusParameter) (height : Int) : CConsensusParameter := list.erase height

end CConsensusParameter

/-- The version bits that are read, at the previous block. -/
structure Deployments where
  communityFund : Bool := false
  communityFundAccumulation : Bool := false
  communityFundAccumulationSpread : Bool := false
  communityFundAmountV2 : Bool := false
  reducedCFundQuorum : Bool := false
  dao : Bool := false
  exclude : Bool := false
  daoSuper : Bool := false
  voteCacheState : Bool := false
  coldStakingv2 : Bool := false
  xnavSer : Bool := false
  dotNav : Bool := false
  burnFees : Bool := false
  staticReward : Bool := false
  deriving DecidableEq, Repr

end Navcoin
