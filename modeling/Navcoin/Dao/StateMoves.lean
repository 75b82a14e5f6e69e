import Navcoin.Dao.StepOutcomes

/-!
# The moves of a step

Which states a step may give to an object, by the state that the object had.

* `requestDecided_settled`, `proposalDecided_settled`: a request or a proposal that was decided
  moves only when the votes it is left with reject it;
* `consultationDecided_finished`: a consultation that is over does not move.
-/

namespace Navcoin

/-! ## States by hash -/

def DaoView.requestState (m : BlockMap) (view : DaoView) (k : Uint256) : Option DaoFlag :=
  (view.paymentRequests.find? k).map (CPaymentRequest.getLastState m)

def DaoView.proposalState (m : BlockMap) (view : DaoView) (k : Uint256) : Option DaoFlag :=
  (view.proposals.find? k).map (CProposal.getLastState m)

def DaoView.consultationState (m : BlockMap) (view : DaoView) (k : Uint256) : Option DaoFlag :=
  (view.consultations.find? k).map (CConsultation.getLastState m)

namespace ForwardStep

variable {f : ForwardStep} {r : VoteStepResult}
variable {t : VoteStepLocals} {decision : Option DaoFlag} {p : CProposal} {k : Uint256}

/-! ## What the votes are measured by -/

/-- The parameters before the step, with the blocks that were just excluded. -/
def scale (f : ForwardStep) : DaoView := { f.view with nExcludeVotes := f.scanned.nCacheExclude }

theorem sameScale_counted : f.scale.SameScale f.counted.view := by
  have hrest := f.counted_ok.rest
  constructor
  · funext p
    show DaoView.param { f.counted.rest with .. } p = _
    rw [hrest]
    rfl
  · rfl

theorem sameScale_requests (ht : f.counted.SameButRequests t) :
    f.scale.SameScale t.view := by
  have hsame : f.counted.view.SameScale t.view := VoteStepLocals.sameScale (by rw [ht])
  exact ⟨hsame.param.trans sameScale_counted.param,
    hsame.nExcludeVotes.trans sameScale_counted.nExcludeVotes⟩

theorem sameScale_proposals (hfund : f.deployed.communityFund = true)
    (ht : (stepRequests f.context f.counted).SameButProposals t) : f.scale.SameScale t.view := by
  have hsame : (stepRequests f.context f.counted).view.SameScale t.view :=
    VoteStepLocals.sameScale (by rw [ht])
  have hrequests := sameScale_requests (f.requests_ok hfund).1.frame
  exact ⟨hsame.param.trans hrequests.param, hsame.nExcludeVotes.trans hrequests.nExcludeVotes⟩

/-! ## Requests -/

/-- The step looks at the votes of the request. -/
def closesRequest (f : ForwardStep) (p : CPaymentRequest) : Bool :=
  f.deployed.communityFund && !p.isNull && (f.context.blockOf p.txblockhash).isSome &&
    f.context.endsCycle

/-- The votes that the request is left with reject it. -/
def rejectsRequest (f : ForwardStep) (p : CPaymentRequest) : Bool :=
  f.closesRequest p && !p.isExpired f.nd.toDaoRules f.scale &&
    p.isRejected f.nd.toDaoRules f.scale

/-- Votes are counted for open requests only. -/
theorem countedRequest_of_decided {p : CPaymentRequest}
    (hp : f.view.paymentRequests.find? p.hash = some p)
    (hstate : p.getLastState f.nd.mapBlockIndex ≠ .nil) :
    countedRequest f.context f.scanned f.start p = p := by
  have hnot : votableRequest f.context f.start.requests.copy f.start.view p.hash = false := by
    unfold votableRequest
    cases hcopy : f.start.requests.copy.find? p.hash with
    | none => rfl
    | some q =>
      obtain ⟨_, hstored, rfl⟩ := f.start_synced.requests p.hash q hcopy
      have hsame : q = p := Option.some.inj (hstored.symm.trans hp)
      subst hsame
      have hvote : q.canVote f.context.toDaoRules f.start.view = false := by
        unfold CPaymentRequest.canVote
        split
        · rfl
        · rw [beq_false_of_ne (show q.getLastState f.context.mapBlockIndex ≠ .nil from hstate),
            Bool.and_false, Bool.false_and]
      rw [Option.any_some, hvote, Bool.and_false]
  unfold countedRequest
  split
  · rw [hnot]
    rfl
  · rfl

theorem current_of_decided {p : CPaymentRequest}
    (hstate : p.getLastState f.nd.mapBlockIndex ≠ .nil) : p.current f.context = p := by
  unfold CPaymentRequest.current
  split
  · rfl
  · exact if_neg hstate

/-- **A request that was decided** moves only when it is rejected. -/
theorem requestDecided_settled {p : CPaymentRequest}
    (hp : f.view.paymentRequests.find? k = some p)
    (hstate : p.getLastState f.nd.mapBlockIndex ∈ [DaoFlag.accepted, .paid, .rejected, .expired])
    (h : f.RequestDecided p decision) :
    decision = if p.getLastState f.nd.mapBlockIndex ≠ .rejected ∧ f.rejectsRequest p then
      some .rejected else none := by
  have hnil : p.getLastState f.nd.mapBlockIndex ≠ .nil := by
    intro hnil
    rw [hnil] at hstate
    simp at hstate
  unfold RequestDecided at h
  split at h
  · next hlooks =>
    obtain ⟨t, ht, rfl⟩ := h
    have hscale := sameScale_requests ht
    rw [countedRequest_of_decided (by rwa [OrderedMap.key_of_find? hp]) hnil]
    unfold requestDecision rejectsRequest closesRequest
    rw [hlooks, Bool.true_and]
    split
    · next hcloses =>
      rw [hcloses, current_of_decided hnil]
      unfold requestVerdict
      rw [CPaymentRequest.isExpired_congr hscale, CPaymentRequest.isRejected_congr hscale]
      have hrules : f.context.toDaoRules = f.nd.toDaoRules := rfl
      rw [hrules]
      cases hexpired : p.isExpired f.nd.toDaoRules f.scale with
      | true =>
        -- only an expired request among these counts as expired
        have hold : p.getLastState f.nd.mapBlockIndex = .expired := by
          simp only [CPaymentRequest.isExpired, Bool.and_eq_true, bne_iff_ne, ne_eq] at hexpired
          simp only [List.mem_cons, List.not_mem_nil, or_false] at hstate
          tauto
        simp [hold]
      | false =>
        cases hrejected : p.isRejected f.nd.toDaoRules f.scale with
        | true => simp
        | false => simp [hnil]
    · next hcloses =>
      rw [Bool.not_eq_true] at hcloses
      rw [hcloses]
      simp
  · next hlooks =>
    have hnot : f.rejectsRequest p = false := by
      unfold rejectsRequest closesRequest
      rw [Bool.not_eq_true] at hlooks
      rw [hlooks]
      rfl
    rw [h, hnot]
    simp

/-! ## Proposals -/

/-- The step looks at the votes of the proposal. -/
def closesProposal (f : ForwardStep) (p : CProposal) : Bool :=
  f.deployed.communityFund && !p.isNull && (f.context.blockOf p.txblockhash).isSome &&
    f.context.endsCycle

/-- The votes that the proposal is left with reject it. -/
def rejectsProposal (f : ForwardStep) (p : CProposal) : Bool :=
  f.closesProposal p && !p.isExpired f.nd.toDaoRules f.pindexNew.nTime f.scale &&
    p.isRejected f.nd.toDaoRules f.scale

/-- Votes are counted for open proposals only. -/
theorem countedProposal_of_decided (hp : f.view.proposals.find? p.hash = some p)
    (hstate : p.getLastState f.nd.mapBlockIndex ≠ .nil) :
    countedProposal f.context f.scanned f.start p = p := by
  have hnot : votableProposal f.context f.start.proposals.copy p.hash = false := by
    unfold votableProposal
    cases hcopy : f.start.proposals.copy.find? p.hash with
    | none => rfl
    | some q =>
      obtain ⟨_, hstored, rfl⟩ := f.start_synced.proposals p.hash q hcopy
      have hsame : q = p := Option.some.inj (hstored.symm.trans hp)
      subst hsame
      have hvote : q.canVote f.context.toDaoRules = false :=
        beq_false_of_ne (show q.getLastState f.context.mapBlockIndex ≠ .nil from hstate)
      rw [Option.any_some, hvote, Bool.and_false]
  unfold countedProposal
  split
  · rw [hnot]
    rfl
  · rfl

/-- The decision on a proposal that has a state. -/
theorem proposalDecided_of_decided (hp : f.view.proposals.find? k = some p)
    (hstate : p.getLastState f.nd.mapBlockIndex ≠ .nil) (h : f.ProposalDecided p decision) :
    decision = none ∧ f.closesProposal p = false ∨
      f.closesProposal p = true ∧ ∃ t, (stepRequests f.context f.counted).SameButProposals t ∧
        f.scale.SameScale t.view ∧ decision = proposalVerdict f.context t p := by
  unfold ProposalDecided at h
  split at h
  · next hlooks =>
    obtain ⟨t, ht, rfl⟩ := h
    have hfund : f.deployed.communityFund = true := by
      rw [Bool.and_eq_true] at hlooks
      exact hlooks.1
    rw [countedProposal_of_decided (by rwa [OrderedMap.key_of_find? hp]) hstate]
    unfold proposalDecision closesProposal
    rw [hlooks]
    split
    · next hcloses => exact .inr ⟨hcloses, t, ht, sameScale_proposals hfund ht, rfl⟩
    · next hcloses => exact .inl ⟨rfl, by simpa using hcloses⟩
  · next hlooks =>
    rw [Bool.not_eq_true] at hlooks
    left
    refine ⟨h, ?_⟩
    unfold closesProposal
    rw [hlooks]
    rfl

/-- **A proposal that is over** moves only when it is rejected. -/
theorem proposalDecided_settled (hp : f.view.proposals.find? k = some p)
    (hstate : p.getLastState f.nd.mapBlockIndex ∈ [DaoFlag.rejected, .expired, .acceptedExpired])
    (h : f.ProposalDecided p decision) :
    decision = if p.getLastState f.nd.mapBlockIndex ≠ .rejected ∧ f.rejectsProposal p then
      some .rejected else none := by
  have hnil : p.getLastState f.nd.mapBlockIndex ≠ .nil := by
    intro hnil
    rw [hnil] at hstate
    simp at hstate
  unfold rejectsProposal
  rcases proposalDecided_of_decided hp hnil h with ⟨rfl, hcloses⟩ | ⟨hcloses, t, _, hscale, rfl⟩
  · simp [hcloses]
  · rw [hcloses]
    unfold proposalVerdict
    rw [CProposal.isExpired_congr hscale, CProposal.isRejected_congr hscale]
    have hrules : f.context.toDaoRules = f.nd.toDaoRules := rfl
    have htime : f.context.pindexNew = f.pindexNew := rfl
    rw [hrules, htime]
    simp only [List.mem_cons, List.not_mem_nil, or_false] at hstate
    cases p.isExpired f.nd.toDaoRules f.pindexNew.nTime f.scale with
    | true => rcases hstate with hstate | hstate | hstate <;> simp [hstate]
    | false =>
      cases p.isRejected f.nd.toDaoRules f.scale with
      | true => simp
      | false => rcases hstate with hstate | hstate | hstate <;> simp [hstate]

/-- When an accepted proposal is rejected. -/
theorem proposalDecided_accepted (hp : f.view.proposals.find? k = some p)
    (hstate : p.getLastState f.nd.mapBlockIndex = .accepted) (h : f.ProposalDecided p decision) :
    decision = some .rejected ↔ f.rejectsProposal p = true := by
  unfold rejectsProposal
  rcases proposalDecided_of_decided hp (by simp [hstate]) h with
    ⟨rfl, hcloses⟩ | ⟨hcloses, t, _, hscale, rfl⟩
  · simp [hcloses]
  · rw [hcloses]
    unfold proposalVerdict
    rw [CProposal.isExpired_congr hscale, CProposal.isRejected_congr hscale]
    have hrules : f.context.toDaoRules = f.nd.toDaoRules := rfl
    have htime : f.context.pindexNew = f.pindexNew := rfl
    rw [hrules, htime, hstate]
    cases p.isExpired f.nd.toDaoRules f.pindexNew.nTime f.scale with
    | true => cases p.hasPendingPaymentRequests f.nd.toDaoRules t.view <;> simp
    | false =>
      cases p.isRejected f.nd.toDaoRules f.scale with
      | true => simp
      | false => simp

/-! ## Consultations -/

theorem consultationVerdict_finished {x : VoteStepContext} {c : CConsultation}
    (hstate : c.isFinished x.toDaoRules = true) :
    consultationVerdict x t c = none := by
  simp only [CConsultation.isFinished, Bool.or_eq_true, beq_iff_eq] at hstate
  unfold consultationVerdict consultationPasses
  rcases hstate with hstate | hstate
  · have hexpired : c.isExpired x.toDaoRules x.pindexNew t.view = true := by
      simp [CConsultation.isExpired, hstate]
    simp [hstate, hexpired]
  · have hexpired : c.isExpired x.toDaoRules x.pindexNew t.view = false := by
      simp [CConsultation.isExpired, hstate]
    simp [hstate, hexpired]

/-- **A consultation that is over** does not move. -/
theorem consultationDecided_finished {c c₁ : CConsultation} (hcount : c.Recounted c₁)
    (hstate : c.isFinished f.nd.toDaoRules = true) (h : f.ConsultationDecided c c₁ decision) :
    decision = none := by
  have hstate₁ : c₁.isFinished f.context.toDaoRules = true := by
    rw [← hstate]
    unfold CConsultation.isFinished CConsultation.getLastState
    rw [hcount.mapState_eq]
    rfl
  unfold ConsultationDecided at h
  split at h
  · obtain ⟨t, _, _, rfl⟩ := h
    unfold consultationDecision
    split
    · exact consultationVerdict_finished hstate₁
    · rfl
  · exact h

end ForwardStep

end Navcoin
