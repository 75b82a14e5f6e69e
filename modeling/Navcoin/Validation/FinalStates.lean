import Navcoin.Dao.StateMoves
import Navcoin.Validation.ActiveChain

/-!
# Final states

Along a chain, an object that was decided may be decided again: a payment request or a proposal
that was accepted, paid or expired is rejected when the votes it is left with reject it under
parameters that have changed since, and before the fork a request is paid in any state.

* `TipConnected.request_moves`, `TipConnected.proposal_moves`, `TipConnected.consultation_moves`:
  the states of the objects after a block;
* `TipConnected.kept_of_decisionsStand`, `TipConnected.decisionsStand_of_kept`: when one block
  leaves the decisions as they are;
* `finalStates_kept_iff`: final states are final exactly along the chains where every block does.
-/

namespace Navcoin

variable {G : Type} [G1Group G] [DecidableEq G] {o : DaoFlag}

namespace NodeState

variable {nd : ChainNode G} {s s' : NodeState G} {e : BlockEntry G} {pprev tip : CBlockIndex}
  {c : Connected G} {r : VoteStepResult}
variable {k : Uint256}

/-! ## The objects after a block -/

theorem mapState_ne_nil_of_getLastState {m : BlockMap} {mapState : StateMap}
    (h : mapState.getLastState m ≠ .nil) : mapState ≠ [] := by
  rintro rfl
  exact h rfl

section Moves

variable (h : TipConnected nd s e s' pprev c r)
include h

theorem TipConnected.connected_request {p : CPaymentRequest}
    (hp : s.view.paymentRequests.find? k = some p)
    (hstate : p.getLastState nd.mapBlockIndex ≠ .nil) :
    c.locals.view.paymentRequests.find? k =
      some (if k ∈ s.pays nd e then p.paid e.pindex else p) := by
  obtain ⟨mid, hobj⟩ := h.objects
  obtain ⟨q, hq, rfl | ⟨hnew, _⟩⟩ := hobj.grown.requests.exists_right hp
  · rw [hobj.paid.find?, hq]
    split <;> rfl
  · exact absurd hnew (mapState_ne_nil_of_getLastState hstate)

theorem TipConnected.connected_proposal {p : CProposal}
    (hp : s.view.proposals.find? k = some p) (hstate : p.getLastState nd.mapBlockIndex ≠ .nil) :
    c.locals.view.proposals.find? k = some p := by
  obtain ⟨mid, hobj⟩ := h.objects
  have hsame : c.locals.view.proposals = mid.proposals := by rw [hobj.frame]
  obtain ⟨q, hq, rfl | ⟨hnew, _⟩⟩ := hobj.grown.proposals.exists_right hp
  · rw [hsame, hq]
  · exact absurd hnew.1 (mapState_ne_nil_of_getLastState hstate)

theorem TipConnected.connected_consultation {d : CConsultation}
    (hd : s.view.consultations.find? k = some d)
    (hstate : d.getLastState nd.mapBlockIndex ≠ .nil) :
    ∃ d', c.locals.view.consultations.find? k = some d' ∧ d.Answered d' := by
  obtain ⟨mid, hobj⟩ := h.objects
  have hsame : c.locals.view.consultations = mid.consultations := by rw [hobj.frame]
  obtain ⟨d', hd', hanswered | ⟨hnew, _⟩⟩ := hobj.grown.consultations.exists_right hd
  · exact ⟨d', hsame ▸ hd', hanswered⟩
  · exact absurd hnew (mapState_ne_nil_of_getLastState hstate)

variable (hs : s.Grounded nd tip)
include hs

/-- The state of a request after the step. -/
theorem TipConnected.request_moves {p : CPaymentRequest}
    (hp : c.locals.view.paymentRequests.find? k = some p) :
    ∃ decision, (s.forwardStep nd pprev e c).RequestDecided p decision ∧
      s'.view.requestState nd.mapBlockIndex k =
        some (decision.getD (p.getLastState nd.mapBlockIndex)) := by
  obtain ⟨hpos, hbelow, _⟩ := h.below hs
  obtain ⟨q, hq, hout⟩ := OrderedMap.Kept.exists_right (ForwardStep.requests_at h.voted) hp
  obtain ⟨decision, hdecided, hstates⟩ := hout.states
  refine ⟨decision, hdecided, ?_⟩
  rw [h.view, DaoView.requestState, hq, Option.map_some]
  unfold CPaymentRequest.getLastState
  rw [hstates]
  exact congrArg some (StateMap.getLastState_decided h.known hpos (hbelow.requests k p hp) decision)

/-- The state of a proposal after the step. -/
theorem TipConnected.proposal_moves {p : CProposal}
    (hp : c.locals.view.proposals.find? k = some p) :
    ∃ decision, (s.forwardStep nd pprev e c).ProposalDecided p decision ∧
      s'.view.proposalState nd.mapBlockIndex k =
        some (decision.getD (p.getLastState nd.mapBlockIndex)) := by
  obtain ⟨hpos, hbelow, _⟩ := h.below hs
  obtain ⟨q, hq, hout⟩ := OrderedMap.Kept.exists_right (ForwardStep.proposals_at h.voted) hp
  obtain ⟨decision, hdecided, hstates⟩ := hout.states
  refine ⟨decision, hdecided, ?_⟩
  rw [h.view, DaoView.proposalState, hq, Option.map_some]
  unfold CProposal.getLastState
  rw [hstates]
  exact congrArg some
    (StateMap.getLastState_decided h.known hpos (hbelow.proposals k p hp) decision)

/-- The state of a consultation after the step. -/
theorem TipConnected.consultation_moves {d : CConsultation}
    (hd : c.locals.view.consultations.find? k = some d) :
    ∃ d₁ decision, d.Recounted d₁ ∧
      (s.forwardStep nd pprev e c).ConsultationDecided d d₁ decision ∧
      s'.view.consultationState nd.mapBlockIndex k =
        some (decision.getD (d.getLastState nd.mapBlockIndex)) := by
  obtain ⟨hpos, hbelow, _⟩ := h.below hs
  obtain ⟨d', hd', hout⟩ := OrderedMap.Kept.exists_right (ForwardStep.consultations_at h.voted) hd
  obtain ⟨d₁, decision, hcount, hdecided, _, hstates⟩ := hout.states
  refine ⟨d₁, decision, hcount, hdecided, ?_⟩
  rw [h.view, DaoView.consultationState, hd', Option.map_some]
  unfold CConsultation.getLastState
  rw [hstates]
  exact congrArg some
    (StateMap.getLastState_decided h.known hpos (hbelow.consultations k d hd) decision)

/-- A request that was decided, after a block. -/
theorem TipConnected.request_settled (ho : s.view.requestState nd.mapBlockIndex k = some o)
    (hmem : o ∈ [DaoFlag.accepted, .paid, .rejected, .expired]) :
    ∃ p, c.locals.view.paymentRequests.find? k = some p ∧
      s'.view.requestState nd.mapBlockIndex k = some
        (if (if k ∈ s.pays nd e then DaoFlag.paid else o) ≠ .rejected ∧
            (s.forwardStep nd pprev e c).rejectsRequest p then .rejected
          else if k ∈ s.pays nd e then .paid else o) := by
  obtain ⟨p₀, hp₀, rfl⟩ := Option.map_eq_some_iff.mp ho
  have hnil : p₀.getLastState nd.mapBlockIndex ≠ .nil :=
    ne_of_mem_of_not_mem hmem (by decide)
  have hp := h.connected_request hp₀ hnil
  generalize hp' : (if k ∈ s.pays nd e then p₀.paid e.pindex else p₀) = p at hp
  obtain ⟨hpos, hbelow, _⟩ := h.below hs
  have hlast : p.getLastState nd.mapBlockIndex =
      if k ∈ s.pays nd e then .paid else p₀.getLastState nd.mapBlockIndex := by
    rw [← hp']
    split
    · have hbelow₀ : p₀.mapState.Below nd.mapBlockIndex e.pindex := by
        have hheight := h.nHeight
        have hhead := hs.head
        rw [h.head] at hhead
        cases hhead
        exact (hs.states.requests k p₀ hp₀).next hs.known (by omega)
      exact StateMap.getLastState_decided h.known hpos hbelow₀ (some .paid)
    · rfl
  obtain ⟨decision, hdecided, hstate⟩ := h.request_moves hs hp
  have hsettled : p.getLastState nd.mapBlockIndex ∈
      [DaoFlag.accepted, .paid, .rejected, .expired] := by
    rw [hlast]
    split
    · simp
    · exact hmem
  have hdecision := ForwardStep.requestDecided_settled
    hp hsettled hdecided
  refine ⟨p, hp, ?_⟩
  rw [hstate, ← hlast, hdecision, apply_ite (Option.getD · _)]
  rfl

/-- A proposal that is over, after a block. -/
theorem TipConnected.proposal_settled (ho : s.view.proposalState nd.mapBlockIndex k = some o)
    (hmem : o ∈ [DaoFlag.rejected, .expired, .acceptedExpired]) :
    ∃ p, c.locals.view.proposals.find? k = some p ∧
      s'.view.proposalState nd.mapBlockIndex k = some
        (if o ≠ .rejected ∧ (s.forwardStep nd pprev e c).rejectsProposal p then .rejected
          else o) := by
  obtain ⟨p, hp₀, rfl⟩ := Option.map_eq_some_iff.mp ho
  have hnil : p.getLastState nd.mapBlockIndex ≠ .nil :=
    ne_of_mem_of_not_mem hmem (by decide)
  have hp := h.connected_proposal hp₀ hnil
  obtain ⟨decision, hdecided, hstate⟩ := h.proposal_moves hs hp
  have hdecision := ForwardStep.proposalDecided_settled
    hp hmem hdecided
  refine ⟨p, hp, ?_⟩
  rw [hstate, hdecision, apply_ite (Option.getD · _)]
  rfl

/-- An accepted proposal, after a block. -/
theorem TipConnected.proposal_accepted
    (ho : s.view.proposalState nd.mapBlockIndex k = some .accepted) :
    ∃ p, c.locals.view.proposals.find? k = some p ∧
      (s'.view.proposalState nd.mapBlockIndex k = some .rejected ↔
        (s.forwardStep nd pprev e c).rejectsProposal p = true) := by
  obtain ⟨p, hp₀, hlast⟩ := Option.map_eq_some_iff.mp ho
  have hp := h.connected_proposal hp₀ (by rw [hlast]; decide)
  obtain ⟨decision, hdecided, hstate⟩ := h.proposal_moves hs hp
  refine ⟨p, hp, ?_⟩
  rw [← ForwardStep.proposalDecided_accepted hp hlast hdecided,
    hstate, hlast]
  cases decision with
  | none => simp
  | some f => simp

/-- A consultation that is over stays so. -/
theorem TipConnected.consultation_settled
    (ho : s.view.consultationState nd.mapBlockIndex k = some o)
    (hmem : o ∈ [DaoFlag.expired, .passed]) :
    s'.view.consultationState nd.mapBlockIndex k = some o := by
  obtain ⟨d₀, hd₀, rfl⟩ := Option.map_eq_some_iff.mp ho
  have hnil : d₀.getLastState nd.mapBlockIndex ≠ .nil :=
    ne_of_mem_of_not_mem hmem (by decide)
  obtain ⟨d, hd, hanswered⟩ := h.connected_consultation hd₀ hnil
  have hlast : d.getLastState nd.mapBlockIndex = d₀.getLastState nd.mapBlockIndex := by
    have hstates : d.mapState = d₀.mapState := (congrArg CConsultation.mapState hanswered : _)
    unfold CConsultation.getLastState
    rw [hstates]
  obtain ⟨d₁, decision, hcount, hdecided, hstate⟩ := h.consultation_moves hs hd
  have hfinished : d.isFinished nd.toDaoRules = true := by
    simpa [CConsultation.isFinished, hlast] using hmem
  rw [hstate, ForwardStep.consultationDecided_finished hcount hfinished hdecided]
  exact congrArg some hlast

end Moves

/-! ## One block -/

/-- Final states are as they were. -/
structure FinalStatesKept (m : BlockMap) (view view' : DaoView) : Prop where
  requests : ∀ k f, view.requestState m k = some f → f ∈ [DaoFlag.paid, .rejected, .expired] →
    view'.requestState m k = some f
  proposals : ∀ k f, view.proposalState m k = some f →
    f ∈ [DaoFlag.rejected, .expired, .acceptedExpired] → view'.proposalState m k = some f
  consultations : ∀ k f, view.consultationState m k = some f → f ∈ [DaoFlag.expired, .passed] →
    view'.consultationState m k = some f

/-- What was accepted is not rejected now. -/
structure AcceptedNotRejected (m : BlockMap) (view view' : DaoView) : Prop where
  requests : ∀ k, view.requestState m k = some .accepted →
    view'.requestState m k ≠ some .rejected
  proposals : ∀ k, view.proposalState m k = some .accepted →
    view'.proposalState m k ≠ some .rejected

theorem FinalStatesKept.refl (m : BlockMap) (view : DaoView) : FinalStatesKept m view view :=
  ⟨fun _ _ h _ => h, fun _ _ h _ => h, fun _ _ h _ => h⟩

theorem FinalStatesKept.trans {m : BlockMap} {v₁ v₂ v₃ : DaoView} (h : FinalStatesKept m v₁ v₂)
    (h' : FinalStatesKept m v₂ v₃) : FinalStatesKept m v₁ v₃ :=
  ⟨fun k f hf hfinal => h'.requests k f (h.requests k f hf hfinal) hfinal,
    fun k f hf hfinal => h'.proposals k f (h.proposals k f hf hfinal) hfinal,
    fun k f hf hfinal => h'.consultations k f (h.consultations k f hf hfinal) hfinal⟩

/-- The block leaves the decisions as they are: the votes on an object that was decided do not
reject it now, an expired request is not paid, and one that was rejected is not paid either,
unless the votes reject it again. -/
structure DecisionsStand (nd : ChainNode G) (s : NodeState G) (e : BlockEntry G) (view : DaoView)
    (f : ForwardStep) : Prop where
  requests : ∀ k p, view.paymentRequests.find? k = some p →
    s.view.requestState nd.mapBlockIndex k ∈
      [some DaoFlag.accepted, some .paid, some .expired] → f.rejectsRequest p = false
  unpaid : ∀ k ∈ s.pays nd e, s.view.requestState nd.mapBlockIndex k ≠ some .expired
  rejected : ∀ k ∈ s.pays nd e, s.view.requestState nd.mapBlockIndex k = some .rejected →
    ∀ p, view.paymentRequests.find? k = some p → f.rejectsRequest p = true
  proposals : ∀ k p, view.proposals.find? k = some p →
    s.view.proposalState nd.mapBlockIndex k ∈
      [some DaoFlag.accepted, some .expired, some .acceptedExpired] → f.rejectsProposal p = false

theorem TipConnected.kept_of_decisionsStand (h : TipConnected nd s e s' pprev c r)
    (hs : s.Grounded nd tip)
    (hstand : DecisionsStand nd s e c.locals.view.toDaoView (s.forwardStep nd pprev e c)) :
    FinalStatesKept nd.mapBlockIndex s.view.toDaoView s'.view.toDaoView ∧
      AcceptedNotRejected nd.mapBlockIndex s.view.toDaoView s'.view.toDaoView := by
  refine ⟨⟨?_, ?_, ?_⟩, ⟨?_, ?_⟩⟩
  · intro k o ho hfinal
    simp only [List.mem_cons, List.not_mem_nil, or_false] at hfinal
    obtain ⟨p, hp, hafter⟩ :=
      h.request_settled hs ho (by rcases hfinal with rfl | rfl | rfl <;> simp)
    rw [hafter]
    rcases hfinal with rfl | rfl | rfl
    · have hrejects := hstand.requests k p hp (by rw [ho]; simp)
      simp [hrejects]
    · by_cases hpays : k ∈ s.pays nd e
      · have hrejects := hstand.rejected k hpays ho p hp
        simp [hpays, hrejects]
      · simp [hpays]
    · have hpays : k ∉ s.pays nd e := fun hpays => hstand.unpaid k hpays ho
      have hrejects := hstand.requests k p hp (by rw [ho]; simp)
      simp [hpays, hrejects]
  · intro k o ho hfinal
    obtain ⟨p, hp, hafter⟩ := h.proposal_settled hs ho hfinal
    simp only [List.mem_cons, List.not_mem_nil, or_false] at hfinal
    rw [hafter]
    rcases hfinal with rfl | rfl | rfl
    · simp
    · have hrejects := hstand.proposals k p hp (by rw [ho]; simp)
      simp [hrejects]
    · have hrejects := hstand.proposals k p hp (by rw [ho]; simp)
      simp [hrejects]
  · intro k o ho hfinal
    exact h.consultation_settled hs ho hfinal
  · intro k ho
    obtain ⟨p, hp, hafter⟩ := h.request_settled hs ho (by simp)
    have hrejects := hstand.requests k p hp (by rw [ho]; simp)
    rw [hafter, if_neg (by simp [hrejects])]
    split <;> simp
  · intro k ho hrejected
    obtain ⟨p, hp, hiff⟩ := h.proposal_accepted hs ho
    have hrejects := hstand.proposals k p hp (by rw [ho]; simp)
    rw [hiff.mp hrejected] at hrejects
    cases hrejects

theorem TipConnected.decisionsStand_of_kept (h : TipConnected nd s e s' pprev c r)
    (hs : s.Grounded nd tip)
    (hkept : FinalStatesKept nd.mapBlockIndex s.view.toDaoView s'.view.toDaoView)
    (haccepted : AcceptedNotRejected nd.mapBlockIndex s.view.toDaoView s'.view.toDaoView) :
    DecisionsStand nd s e c.locals.view.toDaoView (s.forwardStep nd pprev e c) := by
  refine ⟨?_, ?_, ?_, ?_⟩
  · intro k p hp hmem
    simp only [List.mem_cons, List.not_mem_nil, or_false] at hmem
    by_contra hrejects
    rw [Bool.not_eq_false] at hrejects
    have hset : ∀ o ∈ [DaoFlag.accepted, .paid, .expired],
        s.view.requestState nd.mapBlockIndex k = some o →
        s'.view.requestState nd.mapBlockIndex k = some .rejected := by
      intro o ho hold
      simp only [List.mem_cons, List.not_mem_nil, or_false] at ho
      obtain ⟨q, hq, hafter⟩ := h.request_settled hs hold
        (by rcases ho with rfl | rfl | rfl <;> simp)
      rw [hp] at hq
      cases hq
      have hne : (if k ∈ s.pays nd e then DaoFlag.paid else o) ≠ .rejected := by
        split
        · decide
        · rcases ho with rfl | rfl | rfl <;> decide
      rw [hafter, if_pos ⟨hne, hrejects⟩]
    rcases hmem with hold | hold | hold
    · exact haccepted.requests k hold (hset .accepted (by simp) hold)
    · have hstill := hkept.requests k .paid hold (by simp)
      rw [hset .paid (by simp) hold] at hstill
      cases hstill
    · have hstill := hkept.requests k .expired hold (by simp)
      rw [hset .expired (by simp) hold] at hstill
      cases hstill
  · intro k hpays hold
    obtain ⟨p, _, hafter⟩ := h.request_settled hs hold (by simp)
    rw [hkept.requests k .expired hold (by simp)] at hafter
    simp only [hpays, if_true] at hafter
    split at hafter <;> cases hafter
  · intro k hpays hold p hp
    obtain ⟨q, hq, hafter⟩ := h.request_settled hs hold (by simp)
    rw [hp] at hq
    cases hq
    rw [hkept.requests k .rejected hold (by simp)] at hafter
    simp only [hpays, if_true] at hafter
    split at hafter
    · next hrejects => exact hrejects.2
    · cases hafter
  · intro k p hp hmem
    simp only [List.mem_cons, List.not_mem_nil, or_false] at hmem
    by_contra hrejects
    rw [Bool.not_eq_false] at hrejects
    have hset : ∀ o ∈ [DaoFlag.expired, .acceptedExpired],
        s.view.proposalState nd.mapBlockIndex k = some o → False := by
      intro o ho hold
      simp only [List.mem_cons, List.not_mem_nil, or_false] at ho
      obtain ⟨q, hq, hafter⟩ := h.proposal_settled hs hold (by rcases ho with rfl | rfl <;> simp)
      rw [hp] at hq
      cases hq
      rw [hkept.proposals k o hold (by rcases ho with rfl | rfl <;> simp)] at hafter
      rcases ho with rfl | rfl
      · rw [if_pos ⟨by decide, hrejects⟩] at hafter
        cases hafter
      · rw [if_pos ⟨by decide, hrejects⟩] at hafter
        cases hafter
    rcases hmem with hold | hold | hold
    · obtain ⟨q, hq, hiff⟩ := h.proposal_accepted hs hold
      rw [hp] at hq
      cases hq
      exact haccepted.proposals k hold (hiff.mpr hrejects)
    · exact hset .expired (by simp) hold
    · exact hset .acceptedExpired (by simp) hold

/-! ## A chain -/

/-- The block leaves the decisions of the node as they are. -/
def KeepsDecisions (nd : ChainNode G) (s : NodeState G) (e : BlockEntry G) : Prop :=
  ∀ pprev c, s.chainActive.head? = some pprev → (s.connects nd pprev e).result = .ok c →
    DecisionsStand nd s e c.locals.view.toDaoView (s.forwardStep nd pprev e c)

theorem TipConnected.keepsDecisions_iff (h : TipConnected nd s e s' pprev c r) :
    s.KeepsDecisions nd e ↔
      DecisionsStand nd s e c.locals.view.toDaoView (s.forwardStep nd pprev e c) := by
  constructor
  · intro hall
    exact hall pprev c h.head h.connected
  · intro hstand pprev' c' hhead hresult
    rw [h.head] at hhead
    cases hhead
    rw [h.connected] at hresult
    cases hresult
    exact hstand

/-- **Final states are final** along a chain, and nothing that was accepted is rejected, if and
only if every block of the chain leaves the decisions as they are. -/
theorem finalStates_kept_iff {l : List (BlockEntry G)} {t : NodeState G}
    (hs : s.Grounded nd tip) (hrun : l.foldlM (NodeState.connectTip nd) s = .ok t) :
    ((∀ m n u v, m ≤ n → after nd s l m = .ok u → after nd s l n = .ok v →
        FinalStatesKept nd.mapBlockIndex u.view.toDaoView v.view.toDaoView) ∧
      ∀ n u v, after nd s l n = .ok u → after nd s l (n + 1) = .ok v →
        AcceptedNotRejected nd.mapBlockIndex u.view.toDaoView v.view.toDaoView) ↔
      ∀ n e u, l[n]? = some e → after nd s l n = .ok u → u.KeepsDecisions nd e := by
  constructor
  · rintro ⟨hkept, haccepted⟩ n e u he hu
    obtain ⟨v, hv⟩ := Run.exists_after hrun (n + 1)
    obtain ⟨_, hu', hstep⟩ := (Run.after_succ_eq_ok_iff he).mp hv
    rw [show Run.after _ s l n = .ok u from hu] at hu'
    cases hu'
    obtain ⟨tip', hu'⟩ := grounded_after hs hu
    obtain ⟨pprev, c, r, hc⟩ := connectTip_ok hstep
    exact hc.keepsDecisions_iff.mpr (hc.decisionsStand_of_kept hu'
      (hkept n (n + 1) u v n.le_succ hu hv) (haccepted n u v hu hv))
  · intro hall
    have hone : ∀ n e u v, l[n]? = some e → after nd s l n = .ok u → u.connectTip nd e = .ok v →
        FinalStatesKept nd.mapBlockIndex u.view.toDaoView v.view.toDaoView ∧
          AcceptedNotRejected nd.mapBlockIndex u.view.toDaoView v.view.toDaoView := by
      intro n e u v he hu hstep
      obtain ⟨tip', hu'⟩ := grounded_after hs hu
      obtain ⟨pprev, c, r, hc⟩ := connectTip_ok hstep
      exact hc.kept_of_decisionsStand hu' (hc.keepsDecisions_iff.mp (hall n e u he hu))
    constructor
    · intro m n u v hle hu hv
      exact Run.after_rel
        (R := fun u v : NodeState G =>
          FinalStatesKept nd.mapBlockIndex u.view.toDaoView v.view.toDaoView)
        (fun u => .refl _ u.view.toDaoView) (fun _ _ _ => .trans)
        (fun n e u v he hu hstep => (hone n e u v he hu hstep).1) hle hu hv
    · intro n u v hu hv
      obtain ⟨u', hu', rfl | ⟨e, he, hstep⟩⟩ := Run.exists_of_after_succ hv
      · rw [show Run.after _ s l n = .ok u from hu] at hu'
        cases hu'
        exact ⟨fun k hk => by rw [hk]; simp, fun k hk => by rw [hk]; simp⟩
      · rw [show Run.after _ s l n = .ok u from hu] at hu'
        cases hu'
        exact (hone n e u v he hu hstep).2

end NodeState

/-! ## A proposal that is rejected after it was accepted -/

namespace LoweredRejection

/-- A proposal for ten, and a consultation about the share that rejects proposals with the answer
that it be four tenths. -/
def objects : List (Bytes × JsonObject) :=
  [([1], jsonOf [('n', numMember 10), ('a', textMember "owner"), ('d', numMember 100),
      ('s', textMember "text"), ('v', numMember 2)]),
    ([2], jsonOf [('v', numMember 13), ('m', numMember 11), ('n', numMember 1),
      ('q', textMember "question"), ('a', .arr [.str (ascii "4000")])])]

def nd : ChainNode (ZMod groupOrder) := daoChain fundAndDao objects

def start : NodeState (ZMod groupOrder) := freshNode 100 [navOutput 3, navOutput 5]

def proposalTx : CTransaction (ZMod groupOrder) := daoTx proposalVersion 0 3 [1]

def consultationTx : CTransaction (ZMod groupOrder) := daoTx consultationVersion 1 5 [2]

def proposal : Uint256 := proposalTx.getHash nd.toCrypto

def answer : Uint256 := textHash nd.toCrypto (consultationTx.getHash nd.toCrypto) (ascii "4000")

/-- One vote for the proposal and one against it; both blocks of the fourth cycle vote for the
answer. -/
def blocks : List (BlockEntry (ZMod groupOrder)) :=
  [entryAt 2 [] [] [proposalTx, consultationTx], entryAt 3 [] [] [],
    entryAt 4 [fundVote opProp opYes proposal] [] [],
    entryAt 5 [fundVote opProp opNo proposal] [] [], entryAt 6 [] [] [], entryAt 7 [] [] [],
    entryAt 8 [answerVote answer] [] [], entryAt 9 [answerVote answer] [] [], entryAt 10 [] [] [],
    entryAt 11 [] [] []]

theorem blocks_connect : ∃ t, blocks.foldlM (NodeState.connectTip nd) start = .ok t :=
  Except.exists_of_isOk (by decide +kernel)

/-- The state of the proposal after the first blocks. -/
def stateAfter (n : Nat) : Except Failure (Option DaoFlag) :=
  (NodeState.after nd start blocks n).map fun s => s.view.proposalState nd.mapBlockIndex proposal

theorem stateAfter_eq_ok {n : Nat} {f : Option DaoFlag} (h : stateAfter n = .ok f) :
    ∃ u, NodeState.after nd start blocks n = .ok u ∧
      u.view.proposalState nd.mapBlockIndex proposal = f :=
  Except.exists_of_map_eq_ok h

/-- **An accepted proposal is rejected** once a consultation has lowered the share of votes that
rejects. -/
theorem accepted_rejected :
    start.view.proposals = ∅ ∧ start.view.consultations = ∅ ∧
      ∃ u v, NodeState.after nd start blocks 9 = .ok u ∧
        NodeState.after nd start blocks 10 = .ok v ∧
        u.view.proposalState nd.mapBlockIndex proposal = some .accepted ∧
        v.view.proposalState nd.mapBlockIndex proposal = some .rejected := by
  obtain ⟨u, hu, hbefore⟩ := stateAfter_eq_ok (n := 9) (f := some .accepted) (by decide +kernel)
  obtain ⟨v, hv, hafter⟩ := stateAfter_eq_ok (n := 10) (f := some .rejected) (by decide +kernel)
  exact ⟨rfl, rfl, u, v, hu, hv, hbefore, hafter⟩

/-- Some block of this chain does not leave the decisions as they are. -/
theorem not_keepsDecisions :
    ¬ ∀ n e u, blocks[n]? = some e → NodeState.after nd start blocks n = .ok u →
      u.KeepsDecisions nd e := by
  intro hkeeps
  obtain ⟨t, ht⟩ := blocks_connect
  obtain ⟨_, haccepted⟩ :=
    (NodeState.finalStates_kept_iff (freshNode_grounded _ _ _ _ _) ht).mpr hkeeps
  obtain ⟨u, hu, hbefore⟩ := stateAfter_eq_ok (n := 9) (f := some .accepted) (by decide +kernel)
  obtain ⟨v, hv, hafter⟩ := stateAfter_eq_ok (n := 10) (f := some .rejected) (by decide +kernel)
  exact (haccepted 9 u v hu hv).proposals proposal hbefore hafter

end LoweredRejection

end Navcoin
