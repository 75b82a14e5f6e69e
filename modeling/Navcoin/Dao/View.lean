import Navcoin.Consensus.Parameters
import Navcoin.Dao.Objects
import Navcoin.Dao.VoteList

/-!
# The DAO part of the state view

Proposals, payment requests, consultations, answers, cached votes and consensus parameters, as
`CStateViewCache` returns them.  An object is stored under its own hash; a null object counts as
missing.
-/

namespace Navcoin

structure DaoView where
  proposals : OrderedMap CProposal.hash := ∅
  paymentRequests : OrderedMap CPaymentRequest.hash := ∅
  consultations : OrderedMap CConsultation.hash := ∅
  answers : OrderedMap CConsultationAnswer.hash := ∅
  votes : OrderedMap (Prod.fst : Bytes × CVoteList → Bytes) := ∅
  /-- the values of the chain, which hold until a vote changes them -/
  consensusParams : ConsensusParam → Int := fun _ => 0
  parameters : ConsensusParam → CConsensusParameter := fun _ => ∅
  nExcludeVotes : Int := 0

variable {prid : Uint256} {id : Uint256}

namespace DaoView

variable {view : DaoView} {p : CPaymentRequest}

/-! ## Proposals and payment requests -/

def getProposal (view : DaoView) (id : Uint256) : Option CProposal :=
  (view.proposals.find? id).filter fun p => !p.isNull

def getAllProposals (view : DaoView) : OrderedMap CProposal.hash :=
  view.proposals.filter fun p => !p.isNull

/-- What a modifier writes; the objects are stored under their hash. -/
def setProposal (view : DaoView) (p : CProposal) : DaoView :=
  { view with proposals := view.proposals.assign p }

/-- `AddProposal` never replaces a proposal. -/
def addProposal (view : DaoView) (proposal : CProposal) : DaoView :=
  if (view.getProposal proposal.hash).isSome then view else view.setProposal proposal

def removeProposal (view : DaoView) (id : Uint256) : DaoView :=
  if (view.getProposal id).isSome then { view with proposals := view.proposals.erase id } else view

def getPaymentRequest (view : DaoView) (id : Uint256) : Option CPaymentRequest :=
  (view.paymentRequests.find? id).filter fun p => !p.isNull

def getAllPaymentRequests (view : DaoView) : OrderedMap CPaymentRequest.hash :=
  view.paymentRequests.filter fun p => !p.isNull

def setPaymentRequest (view : DaoView) (p : CPaymentRequest) : DaoView :=
  { view with paymentRequests := view.paymentRequests.assign p }

/-- `AddPaymentRequest` never replaces a payment request. -/
def addPaymentRequest (view : DaoView) (prequest : CPaymentRequest) : DaoView :=
  if (view.getPaymentRequest prequest.hash).isSome then view else view.setPaymentRequest prequest

def removePaymentRequest (view : DaoView) (id : Uint256) : DaoView :=
  if (view.getPaymentRequest id).isSome then
    { view with paymentRequests := view.paymentRequests.erase id }
  else view

/-! ## Consultations -/

def getConsultation (view : DaoView) (id : Uint256) : Option CConsultation :=
  (view.consultations.find? id).filter fun c => !c.isNull

def getAllConsultations (view : DaoView) : OrderedMap CConsultation.hash :=
  view.consultations.filter fun c => !c.isNull

def setConsultation (view : DaoView) (c : CConsultation) : DaoView :=
  { view with consultations := view.consultations.assign c }

def addConsultation (view : DaoView) (c : CConsultation) : DaoView :=
  if (view.getConsultation c.hash).isSome then view else view.setConsultation c

def getConsultationAnswer (view : DaoView) (id : Uint256) : Option CConsultationAnswer :=
  (view.answers.find? id).filter fun a => !a.isNull

def getAllConsultationAnswers (view : DaoView) : OrderedMap CConsultationAnswer.hash :=
  view.answers.filter fun a => !a.isNull

def setConsultationAnswer (view : DaoView) (a : CConsultationAnswer) : DaoView :=
  { view with answers := view.answers.assign a }

/-- Change a consultation that is there. -/
def modifyConsultation (view : DaoView) (id : Uint256) (f : CConsultation → CConsultation) :
    DaoView :=
  match view.consultations.find? id with
  | none => view
  | some c => view.setConsultation (f c)

/-- `AddConsultationAnswer`, whose callers have looked the parent up. -/
def addConsultationAnswer (view : DaoView) (a : CConsultationAnswer) : DaoView :=
  if (view.getConsultationAnswer a.hash).isSome then view
  else (view.modifyConsultation a.parent fun c =>
    { c with vAnswers := c.vAnswers ++ [a.hash] }).setConsultationAnswer a

/-- The loop that erases while it goes on: what follows an erased element is skipped. -/
def eraseAnswer (cid : Uint256) : List Uint256 → List Uint256
  | [] => []
  | [a] => if a = cid then [] else [a]
  | a :: b :: l => if a = cid then b :: eraseAnswer cid l else a :: eraseAnswer cid (b :: l)

def removeConsultationAnswer (view : DaoView) (cid : Uint256) : DaoView :=
  match view.getConsultationAnswer cid with
  | none => view
  | some a =>
    let view := view.modifyConsultation a.parent fun c =>
      { c with vAnswers := eraseAnswer cid c.vAnswers }
    { view with answers := view.answers.erase cid }

/-- `RemoveConsultation`, with its answers. -/
def removeConsultation (view : DaoView) (cid : Uint256) : DaoView :=
  match view.getConsultation cid with
  | none => view
  | some c =>
    let view := c.vAnswers.foldl removeConsultationAnswer view
    { view with consultations := view.consultations.erase cid }

/-! ## Voters and parameters -/

def getCachedVoter (view : DaoView) (voter : Bytes) : Option CVoteList :=
  ((view.votes.find? voter).map Prod.snd).filter fun list => !list.isNull

/-- `ModifyVote`: an unknown voter starts with an empty list. -/
def modifyVote (view : DaoView) (voter : Bytes) (f : CVoteList → CVoteList) : DaoView :=
  let list : CVoteList := ((view.votes.find? voter).map Prod.snd).getD ∅
  { view with votes := view.votes.assign (voter, f list) }

/-- `GetConsensusParameter`: the last change, or the value of the chain, as `uint64_t`. -/
def param (view : DaoView) (p : ConsensusParam) : Nat :=
  (view.parameters p).get.getD (toUint64 (view.consensusParams p))

def setConsensusParameter (view : DaoView) (p : ConsensusParam) (height : Int) (val : Nat) :
    DaoView :=
  { view with parameters := Function.update view.parameters p ((view.parameters p).set height val) }

/-! ## Frames -/

/-- Two views with the same consensus parameters. -/
structure SameParams (view view' : DaoView) : Prop where
  consensusParams : view'.consensusParams = view.consensusParams
  parameters : view'.parameters = view.parameters

theorem SameParams.refl (view : DaoView) : SameParams view view := ⟨rfl, rfl⟩

theorem SameParams.symm {view' : DaoView} (h : SameParams view view') :
    SameParams view' view := ⟨h.consensusParams.symm, h.parameters.symm⟩

theorem SameParams.trans {v₁ v₂ v₃ : DaoView} (h : SameParams v₁ v₂) (h' : SameParams v₂ v₃) :
    SameParams v₁ v₃ :=
  ⟨h'.consensusParams.trans h.consensusParams, h'.parameters.trans h.parameters⟩

theorem SameParams.param {view' : DaoView} (h : SameParams view view') :
    view'.param = view.param := by
  funext p
  rw [DaoView.param, DaoView.param, h.consensusParams, h.parameters]

theorem find?_of_getPaymentRequest (h : view.getPaymentRequest prid = some p) :
    view.paymentRequests.find? prid = some p :=
  (Option.filter_eq_some_iff.mp h).1

theorem hash_of_getPaymentRequest (h : view.getPaymentRequest prid = some p) :
    p.hash = prid :=
  OrderedMap.key_of_filter_find? h

theorem hash_of_getProposal {p : CProposal} (h : view.getProposal id = some p) :
    p.hash = id :=
  OrderedMap.key_of_filter_find? h

theorem hash_of_getConsultation {c : CConsultation}
    (h : view.getConsultation id = some c) : c.hash = id :=
  OrderedMap.key_of_filter_find? h

theorem hash_of_getConsultationAnswer {a : CConsultationAnswer}
    (h : view.getConsultationAnswer id = some a) : a.hash = id :=
  OrderedMap.key_of_filter_find? h

theorem getPaymentRequest_of_some (h : view.paymentRequests.find? prid = some p)
    (hnull : p.isNull = false) :
    view.getPaymentRequest prid = some p := by
  simp [getPaymentRequest, h, Option.filter, hnull]

end DaoView

end Navcoin
