import Navcoin.Dao.CountedVotes

/-!
# The next states of requests, proposals and consultations

What a step forward makes of each object once the votes are counted.  The loops change one object
at a time, so an object is seen by its own round as it was at the start of the loop; what a round
decides may depend on the funds that earlier rounds left.

* `stepPaymentRequest_cases`, `stepProposal_cases`, `stepConsultation_cases`: what a round may do;
* `stepPaymentRequest_spec`, `stepProposal_spec`, `stepConsultation_spec`: one round;
* `stepConsultations_at`: a consultation after its loop.
-/

namespace Navcoin

/-! ## What votes are measured by -/

/-- Two views by which votes are measured alike. -/
structure DaoView.SameScale (view view' : DaoView) : Prop where
  param : view'.param = view.param
  nExcludeVotes : view'.nExcludeVotes = view.nExcludeVotes

section SameScale

variable {r : DaoRules} {view view' : DaoView} (h : view.SameScale view')

include h

theorem VoteCount.nMinimumQuorum_congr (k : VoteParams) (c : VoteCount) :
    c.nMinimumQuorum r view' k = c.nMinimumQuorum r view k := by
  simp only [nMinimumQuorum, h.param]

theorem VoteCount.decides_congr (k : VoteParams) (c : VoteCount) (votes : Int)
    (share : ConsensusParam) :
    c.decides r view' k votes share = c.decides r view k votes share := by
  unfold decides
  rw [h.param, h.nExcludeVotes, nMinimumQuorum_congr h]

theorem CPaymentRequest.isExpired_congr (p : CPaymentRequest) :
    p.isExpired r view' = p.isExpired r view := by
  simp only [isExpired, exceededMaxVotingCycles, h.param]

theorem CPaymentRequest.isRejected_congr (p : CPaymentRequest) :
    p.isRejected r view' = p.isRejected r view :=
  VoteCount.decides_congr h _ _ _ _

theorem CPaymentRequest.isAccepted_congr (p : CPaymentRequest) :
    p.isAccepted r view' = p.isAccepted r view :=
  VoteCount.decides_congr h _ _ _ _

theorem CProposal.isExpired_congr (nTime : Nat) (p : CProposal) :
    p.isExpired r nTime view' = p.isExpired r nTime view := by
  simp only [isExpired, exceededMaxVotingCycles, h.param]

theorem CProposal.isRejected_congr (p : CProposal) : p.isRejected r view' = p.isRejected r view :=
  VoteCount.decides_congr h _ _ _ _

theorem CProposal.isAccepted_congr (p : CProposal) : p.isAccepted r view' = p.isAccepted r view :=
  VoteCount.decides_congr h _ _ _ _

end SameScale

theorem VoteStepLocals.sameScale {s s' : VoteStepLocals} (h : s'.rest = s.rest) :
    s.view.SameScale s'.view := by
  constructor
  · funext p
    show DaoView.param { s'.rest with .. } p = DaoView.param { s.rest with .. } p
    rw [h]
  · show s'.rest.nExcludeVotes = s.rest.nExcludeVotes
    rw [h]

section Forward

variable {x : VoteStepContext}

/-! ## Payment requests -/

/-- The request that the votes are read off: an open one has its voting cycle updated. -/
def CPaymentRequest.current (x : VoteStepContext) (p : CPaymentRequest) : CPaymentRequest :=
  match x.blockOf p.txblockhash with
  | none => p
  | some pblockindex =>
    if p.getLastState x.mapBlockIndex = .nil then
      p.withCycle (x.nVotingCycles pblockindex (x.nCycleLength + 1))
    else p

/-- The state that a round gives to a request, if any. -/
def requestDecision (x : VoteStepContext) (s : VoteStepLocals) (p : CPaymentRequest) :
    Option DaoFlag :=
  if (x.blockOf p.txblockhash).isSome && x.endsCycle then requestVerdict x s p (p.current x)
  else none

/-- A state that differs in its requests and the locked funds. -/
def VoteStepLocals.SameButRequests (s t : VoteStepLocals) : Prop :=
  t = { s with requests := t.requests, nCFLocked := t.nCFLocked }

theorem VoteStepLocals.SameButRequests.trans {s t u : VoteStepLocals} (h : s.SameButRequests t)
    (h' : t.SameButRequests u) : s.SameButRequests u := Eq.trans h' (by rw [h])

/-- A request with the state that was decided. -/
def CPaymentRequest.decided (x : VoteStepContext) (decision : Option DaoFlag)
    (p : CPaymentRequest) : CPaymentRequest :=
  match decision with
  | none => p
  | some state => p.setState x.pindexNew state

/-- The request after its round. -/
def CPaymentRequest.next (x : VoteStepContext) (decision : Option DaoFlag) (p : CPaymentRequest) :
    CPaymentRequest :=
  (p.current x).decided x decision

/-- A request that differs in its voting cycle. -/
def CPaymentRequest.Recycled (p q : CPaymentRequest) : Prop :=
  q = { p with nVotingCycle := q.nVotingCycle }

theorem CPaymentRequest.Recycled.refl (p : CPaymentRequest) : p.Recycled p := rfl

theorem CPaymentRequest.Recycled.withCycle {p q : CPaymentRequest} (n : Nat) (h : p.Recycled q) :
    p.Recycled (q.withCycle n) :=
  (congrArg (CPaymentRequest.withCycle n) h : _)

theorem CPaymentRequest.recycled_withCycle (n : Nat) (p : CPaymentRequest) :
    p.Recycled (p.withCycle n) := rfl

theorem CPaymentRequest.recycled_current (p : CPaymentRequest) : p.Recycled (p.current x) := by
  unfold current
  split
  · rfl
  · split
    · exact recycled_withCycle _ _
    · rfl

theorem CPaymentRequest.hash_withCycle (n : Nat) (p : CPaymentRequest) :
    (p.withCycle n).hash = p.hash := rfl

theorem CPaymentRequest.hash_current (p : CPaymentRequest) : (p.current x).hash = p.hash :=
  (congrArg hash (p.recycled_current (x := x)) : _)

theorem CPaymentRequest.hash_decided (decision : Option DaoFlag) (p : CPaymentRequest) :
    (p.decided x decision).hash = p.hash := by
  cases decision <;> rfl

theorem CPaymentRequest.hash_next (decision : Option DaoFlag) (p : CPaymentRequest) :
    (p.next x decision).hash = p.hash :=
  (CPaymentRequest.hash_decided _ _).trans p.hash_current

/-- The verdict does not depend on voting cycles in the view. -/
theorem requestVerdict_congr {s s' : VoteStepLocals} (hrest : s'.rest = s.rest)
    (hlocked : s'.nCFLocked = s.nCFLocked) (hproposals : s'.proposals = s.proposals)
    (hsum : ∀ hash, (s'.requests.stored.entries.map (CProposal.chargeOf x.toDaoRules hash)).sum =
      (s.requests.stored.entries.map (CProposal.chargeOf x.toDaoRules hash)).sum)
    (it q : CPaymentRequest) : requestVerdict x s' it q = requestVerdict x s it q := by
  have hscale := VoteStepLocals.sameScale hrest
  have havailable : ∀ q : CProposal,
      q.getAvailable x.toDaoRules s'.view = q.getAvailable x.toDaoRules s.view := by
    apply getAvailable_congr
    exact hsum
  have hfunded : requestFunded x s' it = requestFunded x s it := by
    funext proposal
    unfold requestFunded
    rw [hlocked, havailable]
  simp only [requestVerdict, CPaymentRequest.isExpired_congr hscale,
    CPaymentRequest.isRejected_congr hscale, CPaymentRequest.isAccepted_congr hscale, hproposals,
    hfunded]

theorem closePaymentRequest_spec (s : VoteStepLocals) (it q : CPaymentRequest) :
    MirroredMap.Stepped CPaymentRequest.Recycled it.hash (.decided x (requestVerdict x s it q))
        s.requests (closePaymentRequest x s it q).requests ∧
      (closePaymentRequest x s it q).nCFLocked =
        ((requestVerdict x s it q).map (lockedAfter s it)).getD s.nCFLocked ∧
      s.SameButRequests (closePaymentRequest x s it q) := by
  unfold closePaymentRequest
  cases requestVerdict x s it q with
  | none => exact ⟨.refl, rfl, rfl⟩
  | some state =>
    exact ⟨MirroredMap.stepped_touch CPaymentRequest.Recycled.refl fun _ => rfl, rfl, rfl⟩

/-- The voting cycle of an open request is written to the view first. -/
def VoteStepLocals.cycled (s : VoteStepLocals) (k : Uint256) (n : Nat) : VoteStepLocals :=
  { s with requests := s.requests.modify k (.withCycle n) }

theorem requestVerdict_cycled (s : VoteStepLocals) (k : Uint256) (n : Nat)
    (it q : CPaymentRequest) : requestVerdict x (s.cycled k n) it q = requestVerdict x s it q := by
  have hrest : (s.cycled k n).rest = s.rest := rfl
  apply requestVerdict_congr hrest
  · rfl
  · rfl
  · intro hash
    apply OrderedMap.sum_modify_of_eq
    · intro p
      rfl
    · intro p
      rfl

/-- A round updates the voting cycle of an open request, and then may close it. -/
theorem stepPaymentRequest_cases (hx : x.pindexDelete = none) (s : VoteStepLocals)
    (it : CPaymentRequest) :
    ∃ u, (u = s ∧ it.current x = it ∨
        ∃ n, u = s.cycled it.hash n ∧ it.current x = it.withCycle n) ∧
      (stepPaymentRequest x s it = u ∧ (s.requests.stored.find? it.hash = some it →
          ((x.blockOf it.txblockhash).isSome && x.endsCycle) = false) ∨
        ∃ q, stepPaymentRequest x s it = closePaymentRequest x u it q ∧
          ((x.blockOf it.txblockhash).isSome && x.endsCycle) = true ∧
          (s.requests.stored.find? it.hash = some it → q = it.current x)) := by
  cases hblock : x.blockOf it.txblockhash with
  | none =>
    refine ⟨s, .inl ⟨rfl, ?_⟩, .inl ⟨?_, fun _ => rfl⟩⟩
    · simp only [CPaymentRequest.current, hblock]
    · simp only [stepPaymentRequest, hblock]
  | some pblockindex =>
    by_cases hopen : it.getLastState x.mapBlockIndex = .nil
    · have hcurrent :
          it.current x = it.withCycle (x.nVotingCycles pblockindex (x.nCycleLength + 1)) := by
        simp only [CPaymentRequest.current, hblock, if_pos hopen]
      have hfind : ∀ n, s.requests.stored.find? it.hash = some it →
          (s.cycled it.hash n).requests.stored.find? it.hash = some (it.withCycle n) := by
        intro n hit
        refine (OrderedMap.find?_modify (CPaymentRequest.hash_withCycle n) _ _ _).trans ?_
        rw [if_pos rfl, hit]
        rfl
      refine ⟨_, .inr ⟨_, rfl, hcurrent⟩, ?_⟩
      simp only [stepPaymentRequest, hblock, hx, if_pos hopen, hcurrent]
      split
      · next hq =>
        refine .inl ⟨rfl, fun hit => ?_⟩
        cases hq.symm.trans (hfind _ hit)
      · next q hq =>
        split
        · next hends =>
          exact .inr ⟨q, rfl, hends, fun hit => Option.some.inj (hq.symm.trans (hfind _ hit))⟩
        · next hends => exact .inl ⟨rfl, fun _ => by simpa using hends⟩
    · have hcurrent : it.current x = it := by
        simp only [CPaymentRequest.current, hblock, if_neg hopen]
      refine ⟨s, .inl ⟨rfl, hcurrent⟩, ?_⟩
      simp only [stepPaymentRequest, hblock, hx, if_neg hopen, hcurrent]
      split
      · next hends => exact .inr ⟨it, rfl, hends, fun _ => rfl⟩
      · next hends => exact .inl ⟨rfl, fun _ => by simpa using hends⟩

/-- What a round does. -/
structure RequestStepped (x : VoteStepContext) (s : VoteStepLocals) (it : CPaymentRequest)
    (s' : VoteStepLocals) : Prop where
  stored : s'.requests.stored =
    s.requests.stored.modify it.hash (.next x (requestDecision x s it))
  nCFLocked : s'.nCFLocked = ((requestDecision x s it).map (lockedAfter s it)).getD s.nCFLocked
  frame : s.SameButRequests s'

/-- One round, with or without a new voting cycle, changes its own request. -/
theorem stepPaymentRequest_stepped (hx : x.pindexDelete = none) (s : VoteStepLocals)
    (it : CPaymentRequest) :
    ∃ (g : CPaymentRequest → CPaymentRequest) (decision : Option DaoFlag),
      MirroredMap.Stepped CPaymentRequest.Recycled it.hash (fun p => .decided x decision (g p))
        s.requests (stepPaymentRequest x s it).requests ∧
      it.current x = g it ∧ s.SameButRequests (stepPaymentRequest x s it) ∧
      (stepPaymentRequest x s it).nCFLocked =
        (decision.map (lockedAfter s it)).getD s.nCFLocked ∧
      (s.requests.stored.find? it.hash = some it → decision = requestDecision x s it) := by
  obtain ⟨u, hu, hstep⟩ := stepPaymentRequest_cases hx s it
  obtain ⟨g, hg, hcurrent⟩ : ∃ g, MirroredMap.Stepped CPaymentRequest.Recycled it.hash g
      s.requests u.requests ∧ it.current x = g it := by
    rcases hu with ⟨rfl, hcurrent⟩ | ⟨n, rfl, hcurrent⟩
    · exact ⟨id, .refl, hcurrent⟩
    · exact ⟨.withCycle n, ⟨CPaymentRequest.hash_withCycle n, rfl, fun _ _ h =>
        h.modify (fun _ _ => CPaymentRequest.Recycled.withCycle n)
          (CPaymentRequest.hash_withCycle n)⟩, hcurrent⟩
  have hverdict : ∀ q, requestVerdict x u it q = requestVerdict x s it q := by
    intro q
    rcases hu with ⟨rfl, _⟩ | ⟨n, rfl, _⟩
    · rfl
    · exact requestVerdict_cycled s it.hash n it q
  have hframe : u.nCFLocked = s.nCFLocked ∧ lockedAfter u it = lockedAfter s it ∧
      s.SameButRequests u := by
    rcases hu with ⟨rfl, _⟩ | ⟨n, rfl, _⟩ <;> exact ⟨rfl, rfl, rfl⟩
  rcases hstep with ⟨hstep, hguard⟩ | ⟨q, hstep, hguard, hq⟩
  · rw [hstep]
    exact ⟨g, none, hg, hcurrent, hframe.2.2, hframe.1,
      fun hit => by simp [requestDecision, hguard hit]⟩
  · obtain ⟨hclose, hlocked, hcframe⟩ := closePaymentRequest_spec u it q
    rw [hverdict] at hclose hlocked
    rw [hstep]
    refine ⟨g, requestVerdict x s it q, hg.trans hclose, hcurrent, hframe.2.2.trans hcframe, ?_,
      fun hit => by rw [requestDecision, if_pos hguard, hq hit]⟩
    rw [hlocked, hframe.1, hframe.2.1]

/-- One round. -/
theorem stepPaymentRequest_spec (hx : x.pindexDelete = none) {s : VoteStepLocals}
    {it : CPaymentRequest} (hit : s.requests.stored.find? it.hash = some it) :
    RequestStepped x s it (stepPaymentRequest x s it) := by
  obtain ⟨g, decision, hstepped, hcurrent, hframe, hlocked, hdecision⟩ :=
    stepPaymentRequest_stepped hx s it
  rw [hdecision hit] at hstepped hlocked
  refine ⟨hstepped.stored_at hit ?_, hlocked, hframe⟩
  rw [CPaymentRequest.next, hcurrent]

/-- A round leaves other requests alone, and everything but requests and locked funds; of its own
request it remembers all but the voting cycle. -/
theorem stepPaymentRequest_frame (hx : x.pindexDelete = none) (s : VoteStepLocals)
    (it : CPaymentRequest) :
    (∀ k, k ≠ it.hash → (stepPaymentRequest x s it).requests.stored.find? k =
        s.requests.stored.find? k) ∧
      s.SameButRequests (stepPaymentRequest x s it) ∧
      ∀ m₀ : MirroredMap CPaymentRequest.hash, (∃ p, m₀.copy.find? it.hash = some p) →
        m₀.Tracks CPaymentRequest.Recycled s.requests →
        m₀.Tracks CPaymentRequest.Recycled (stepPaymentRequest x s it).requests := by
  obtain ⟨g, decision, hstepped, _, hframe, _⟩ := stepPaymentRequest_stepped hx s it
  exact ⟨fun k hk => hstepped.others hk, hframe, hstepped.tracks⟩

/-! ## Proposals -/

/-- The proposal with its voting cycle updated, while it is open. -/
def CProposal.current (x : VoteStepContext) (view : DaoView) (p : CProposal) : CProposal :=
  match x.blockOf p.txblockhash with
  | none => p
  | some pblockindex =>
    if p.getLastState x.mapBlockIndex = .nil then
      p.withCycle (x.nVotingCycles pblockindex (view.param .proposalMaxVotingCycles + 1))
    else p

/-- The state that a round gives to a proposal, if any. -/
def proposalDecision (x : VoteStepContext) (s : VoteStepLocals) (p : CProposal) : Option DaoFlag :=
  if (x.blockOf p.txblockhash).isSome && x.endsCycle then proposalVerdict x s p else none

/-- A proposal with the state that was decided. -/
def CProposal.decided (x : VoteStepContext) (decision : Option DaoFlag) (p : CProposal) :
    CProposal :=
  match decision with
  | none => p
  | some state => p.setState x.pindexNew state

/-- The proposal after its round. -/
def CProposal.next (x : VoteStepContext) (view : DaoView) (decision : Option DaoFlag)
    (p : CProposal) : CProposal :=
  (p.current x view).decided x decision

theorem CProposal.hash_withCycle (n : Nat) (p : CProposal) : (p.withCycle n).hash = p.hash := rfl

theorem CProposal.hash_decided (decision : Option DaoFlag) (p : CProposal) :
    (p.decided x decision).hash = p.hash := by
  cases decision <;> rfl

theorem CProposal.hash_next (view : DaoView) (decision : Option DaoFlag) (p : CProposal) :
    (p.next x view decision).hash = p.hash := by
  rw [next, hash_decided, current]
  split
  · rfl
  · split
    · exact hash_withCycle _ _
    · rfl

/-- A state that differs in its proposals and the funds. -/
def VoteStepLocals.SameButProposals (s t : VoteStepLocals) : Prop :=
  t = { s with proposals := t.proposals, nCFSupply := t.nCFSupply, nCFLocked := t.nCFLocked }

theorem VoteStepLocals.SameButProposals.trans {s t u : VoteStepLocals}
    (h : s.SameButProposals t) (h' : t.SameButProposals u) : s.SameButProposals u :=
  Eq.trans h' (by rw [h])

/-- Whether a request can be voted on does not depend on the voting cycles of proposals. -/
theorem CPaymentRequest.canVote_withCycle {r : DaoRules} (view : DaoView) (k : Uint256) (n : Nat)
    (p : CPaymentRequest) :
    p.canVote r { view with proposals := view.proposals.modify k (.withCycle n) } =
      p.canVote r view := by
  have hget : DaoView.getProposal
      { view with proposals := view.proposals.modify k (.withCycle n) } p.proposalhash =
      (view.getProposal p.proposalhash).map
        (if p.proposalhash = k then .withCycle n else fun q => q) := by
    unfold DaoView.getProposal
    rw [OrderedMap.find?_modify (CProposal.hash_withCycle n)]
    by_cases heq : p.proposalhash = k
    · simp only [heq, if_true]
      cases view.proposals.find? k with
      | none => rfl
      | some q =>
        have hnull : (q.withCycle n).isNull = q.isNull := rfl
        cases hq : q.isNull <;> simp [Option.filter_some, hnull, hq]
    · simp only [heq, if_false, Option.map_id']
  have havailable : ∀ q : CProposal, q.getAvailable r
      { view with proposals := view.proposals.modify k (.withCycle n) } =
        q.getAvailable r view := by
    intro q
    rw [CProposal.getAvailable_eq, CProposal.getAvailable_eq]
  unfold canVote
  rw [hget]
  cases view.getProposal p.proposalhash with
  | none => rfl
  | some q =>
    simp only [Option.map_some, havailable]
    split
    · rfl
    · rfl

theorem closeProposal_spec (s : VoteStepLocals) (it : CProposal) :
    MirroredMap.Stepped Eq it.hash (.decided x (proposalVerdict x s it)) s.proposals
        (closeProposal x s it).proposals ∧
      (closeProposal x s it).nCFSupply =
        ((proposalVerdict x s it).map fun f => (moveFunds x s it f).nCFSupply).getD s.nCFSupply ∧
      (closeProposal x s it).nCFLocked =
        ((proposalVerdict x s it).map fun f => (moveFunds x s it f).nCFLocked).getD s.nCFLocked ∧
      s.SameButProposals (closeProposal x s it) := by
  have hmove : ∀ state, (moveFunds x s it state).proposals = s.proposals ∧
      s.SameButProposals (moveFunds x s it state) := by
    intro state
    simp only [moveFunds]
    split
    · exact ⟨rfl, rfl⟩
    · split
      · exact ⟨rfl, rfl⟩
      · split <;> exact ⟨rfl, rfl⟩
  unfold closeProposal
  cases proposalVerdict x s it with
  | none => exact ⟨.refl, rfl, rfl, rfl⟩
  | some state =>
    obtain ⟨hsame, hframe⟩ := hmove state
    refine ⟨?_, rfl, rfl, hframe.trans rfl⟩
    rw [← hsame]
    exact MirroredMap.stepped_touch (fun _ => rfl) fun _ => rfl

/-- The voting cycle of an open proposal is written first. -/
def VoteStepLocals.cycledProposal (s : VoteStepLocals) (k : Uint256) (n : Nat) :
    VoteStepLocals :=
  s.touchProposal k (.withCycle n)

section Cycled

variable (s : VoteStepLocals) (k : Uint256) (n : Nat)

theorem VoteStepLocals.cycledProposal_view :
    (s.cycledProposal k n).view =
      { s.view with proposals := s.view.proposals.modify k (.withCycle n) } := by
  unfold cycledProposal touchProposal view
  rw [MirroredMap.stored_touch]

theorem getAvailable_cycledProposal {r : DaoRules} (p : CProposal) :
    p.getAvailable r (s.cycledProposal k n).view = p.getAvailable r s.view := by
  rfl

theorem proposalVerdict_cycledProposal (it : CProposal) :
    proposalVerdict x (s.cycledProposal k n) it = proposalVerdict x s it := by
  have hrest : (s.cycledProposal k n).rest = s.rest := rfl
  have hscale := VoteStepLocals.sameScale hrest
  have hpending : it.hasPendingPaymentRequests x.toDaoRules (s.cycledProposal k n).view =
      it.hasPendingPaymentRequests x.toDaoRules s.view := by
    unfold CProposal.hasPendingPaymentRequests
    rw [VoteStepLocals.cycledProposal_view]
    simp only [CPaymentRequest.canVote_withCycle]
    rfl
  simp only [proposalVerdict, CProposal.isExpired_congr hscale, CProposal.isRejected_congr hscale,
    CProposal.isAccepted_congr hscale, hpending, getAvailable_cycledProposal]
  rfl

theorem moveFunds_cycledProposal (it : CProposal) (state : DaoFlag) :
    (moveFunds x (s.cycledProposal k n) it state).nCFSupply = (moveFunds x s it state).nCFSupply ∧
      (moveFunds x (s.cycledProposal k n) it state).nCFLocked =
        (moveFunds x s it state).nCFLocked := by
  simp only [moveFunds, getAvailable_cycledProposal]
  split
  · exact ⟨rfl, rfl⟩
  · split
    · exact ⟨rfl, rfl⟩
    · split <;> exact ⟨rfl, rfl⟩

end Cycled

/-- The round first updates the voting cycle. -/
theorem stepProposal_cases (hx : x.pindexDelete = none) (s : VoteStepLocals) (it : CProposal) :
    ∃ u : VoteStepLocals, (u = s ∧ it.current x s.view = it ∨
        ∃ n, u = s.cycledProposal it.hash n ∧ it.current x s.view = it.withCycle n) ∧
      stepProposal x s it =
        if (x.blockOf it.txblockhash).isSome && x.endsCycle then closeProposal x u it else u := by
  cases hblock : x.blockOf it.txblockhash with
  | none =>
    refine ⟨s, .inl ⟨rfl, ?_⟩, ?_⟩
    · simp only [CProposal.current, hblock]
    · simp only [stepProposal, hblock, Option.isSome_none, Bool.false_and, Bool.false_eq_true,
        if_false]
  | some pblockindex =>
    by_cases hopen : it.getLastState x.mapBlockIndex = .nil
    · refine ⟨s.cycledProposal it.hash
        (x.nVotingCycles pblockindex (s.view.param .proposalMaxVotingCycles + 1)),
        .inr ⟨_, rfl, ?_⟩, ?_⟩
      · simp only [CProposal.current, hblock, if_pos hopen]
      · simp only [stepProposal, hblock, hx, if_pos hopen, Option.isSome_some, Bool.true_and]
        rfl
    · refine ⟨s, .inl ⟨rfl, ?_⟩, ?_⟩
      · simp only [CProposal.current, hblock, if_neg hopen]
      · simp only [stepProposal, hblock, hx, if_neg hopen, Option.isSome_some, Bool.true_and]

/-- What a round does. -/
structure ProposalStepped (x : VoteStepContext) (s : VoteStepLocals) (it : CProposal)
    (s' : VoteStepLocals) : Prop where
  stored : s.proposals.stored.find? it.hash = some it → s'.proposals.stored =
    s.proposals.stored.modify it.hash (.next x s.view (proposalDecision x s it))
  others : ∀ k, k ≠ it.hash → s'.proposals.stored.find? k = s.proposals.stored.find? k
  nCFSupply : s'.nCFSupply =
    ((proposalDecision x s it).map fun f => (moveFunds x s it f).nCFSupply).getD s.nCFSupply
  nCFLocked : s'.nCFLocked =
    ((proposalDecision x s it).map fun f => (moveFunds x s it f).nCFLocked).getD s.nCFLocked
  frame : s.SameButProposals s'
  tracks : ∀ m₀ : MirroredMap CProposal.hash, (∃ p, m₀.copy.find? it.hash = some p) →
    m₀.Tracks Eq s.proposals → m₀.Tracks Eq s'.proposals

/-- One round, from the state with the voting cycle updated. -/
theorem proposalStepped_of_cycled {s u : VoteStepLocals} {it : CProposal}
    {g : CProposal → CProposal}
    (hstepped : MirroredMap.Stepped Eq it.hash g s.proposals u.proposals)
    (hcurrent : it.current x s.view = g it)
    (hverdict : proposalVerdict x u it = proposalVerdict x s it)
    (hmove : ∀ f, (moveFunds x u it f).nCFSupply = (moveFunds x s it f).nCFSupply ∧
      (moveFunds x u it f).nCFLocked = (moveFunds x s it f).nCFLocked)
    (hframe : s.SameButProposals u) (hsupply : u.nCFSupply = s.nCFSupply)
    (hlocked : u.nCFLocked = s.nCFLocked) :
    ProposalStepped x s it
      (if (x.blockOf it.txblockhash).isSome && x.endsCycle then closeProposal x u it else u) := by
  split
  · next hc =>
    have hdecision : proposalDecision x s it = proposalVerdict x s it := if_pos hc
    obtain ⟨hclose, hcsupply, hclocked, hcframe⟩ := closeProposal_spec u it
    rw [hverdict] at hclose hcsupply hclocked
    have hboth := hstepped.trans hclose
    refine ⟨fun hit => hboth.stored_at hit ?_, fun k => hboth.others, ?_, ?_,
      hframe.trans hcframe, hboth.tracks⟩
    · rw [CProposal.next, hcurrent, hdecision]
    · simp only [hcsupply, hdecision, hmove, hsupply]
    · simp only [hclocked, hdecision, hmove, hlocked]
  · next hc =>
    have hdecision : proposalDecision x s it = none := if_neg hc
    refine ⟨fun hit => hstepped.stored_at hit ?_, fun k => hstepped.others, ?_, ?_, hframe,
      hstepped.tracks⟩
    · rw [CProposal.next, hcurrent, hdecision]
      rfl
    · rw [hdecision, hsupply]
      rfl
    · rw [hdecision, hlocked]
      rfl

/-- One round. -/
theorem stepProposal_spec (hx : x.pindexDelete = none) (s : VoteStepLocals) (it : CProposal) :
    ProposalStepped x s it (stepProposal x s it) := by
  obtain ⟨u, ⟨rfl, hcurrent⟩ | ⟨n, rfl, hcurrent⟩, hstep⟩ := stepProposal_cases hx s it
  · rw [hstep]
    exact proposalStepped_of_cycled .refl hcurrent rfl (fun _ => ⟨rfl, rfl⟩) rfl rfl rfl
  · rw [hstep]
    exact proposalStepped_of_cycled
      (MirroredMap.stepped_touch (fun _ => rfl) (CProposal.hash_withCycle n)) hcurrent
      (proposalVerdict_cycledProposal s _ n it) (moveFunds_cycledProposal s _ n it) rfl rfl rfl

/-! ## Consultations -/

/-- The consultation with its voting cycle updated, while it is not over. -/
def CConsultation.current (x : VoteStepContext) (view : DaoView) (c : CConsultation) :
    CConsultation :=
  match x.blockOf c.txblockhash with
  | none => c
  | some pblockindex =>
    if c.isFinished x.toDaoRules then c
    else c.withCycle (x.nVotingCycles pblockindex (view.param .consultationMaxVotingCycles + 1))

/-- The state that a round gives to a consultation, if any. -/
def consultationDecision (x : VoteStepContext) (s : VoteStepLocals) (c : CConsultation) :
    Option DaoFlag :=
  if (x.blockOf c.txblockhash).isSome && x.endsCycle then consultationVerdict x s c else none

/-- A consultation with the state that was decided. -/
def CConsultation.decided (x : VoteStepContext) (decision : Option DaoFlag) (c : CConsultation) :
    CConsultation :=
  match decision with
  | none => c
  | some state => c.setState x.pindexNew state

/-- The consultation after its round. -/
def CConsultation.next (x : VoteStepContext) (view : DaoView) (decision : Option DaoFlag)
    (c : CConsultation) : CConsultation :=
  (c.current x view).decided x decision

theorem CConsultation.hash_withCycle (n : Nat) (c : CConsultation) :
    (c.withCycle n).hash = c.hash := rfl

theorem CConsultation.hash_decided (decision : Option DaoFlag) (c : CConsultation) :
    (c.decided x decision).hash = c.hash := by
  cases decision <;> rfl

theorem CConsultation.hash_next (view : DaoView) (decision : Option DaoFlag) (c : CConsultation) :
    (c.next x view decision).hash = c.hash := by
  rw [next, hash_decided, current]
  split
  · rfl
  · split
    · rfl
    · exact hash_withCycle _ _

/-- A state that differs in its consultations. -/
def VoteStepLocals.SameButConsultations (s t : VoteStepLocals) : Prop :=
  t = { s with consultations := t.consultations }

theorem VoteStepLocals.SameButConsultations.trans {s t u : VoteStepLocals}
    (h : s.SameButConsultations t) (h' : t.SameButConsultations u) : s.SameButConsultations u :=
  Eq.trans h' (by rw [h])

section SameButConsultations

variable {s t : VoteStepLocals} (h : s.SameButConsultations t)

include h

theorem VoteStepLocals.SameButConsultations.param : t.view.param = s.view.param :=
  (VoteStepLocals.sameScale (congrArg VoteStepLocals.rest h : _)).param

theorem VoteStepLocals.SameButConsultations.getConsultationAnswer :
    t.view.getConsultationAnswer = s.view.getConsultationAnswer := by
  rw [h]
  rfl

/-- The verdict does not depend on other consultations. -/
theorem consultationVerdict_congr (it : CConsultation) :
    consultationVerdict x t it = consultationVerdict x s it := by
  have hanswer : CConsultationAnswer.isSupported t.view =
      CConsultationAnswer.isSupported s.view := by
    unfold CConsultationAnswer.isSupported
    rw [h.param]
  have hexpired : it.isExpired x.toDaoRules x.pindexNew t.view =
      it.isExpired x.toDaoRules x.pindexNew s.view := by
    unfold CConsultation.isExpired CConsultation.exceededMaxVotingCycles
    rw [h.param]
  have hsupported : it.isSupported t.view = it.isSupported s.view := by
    unfold CConsultation.isSupported CConsultation.haveEnoughAnswers
      CConsultation.supportedAnswers
    rw [h.param, h.getConsultationAnswer, hanswer]
  have hreflection : it.canMoveInReflection t.view = it.canMoveInReflection s.view := by
    unfold CConsultation.canMoveInReflection
    rw [h.param]
  have hover : it.isReflectionOver x.toDaoRules x.pindexNew t.view =
      it.isReflectionOver x.toDaoRules x.pindexNew s.view := by
    unfold CConsultation.isReflectionOver
    rw [h.param]
  have hchanges : t.mapConsensusToChange = s.mapConsensusToChange := by rw [h]
  unfold consultationVerdict consultationPasses
  rw [hexpired, hsupported, hreflection, hover, hchanges]

theorem consultationDecision_congr (it : CConsultation) :
    consultationDecision x t it = consultationDecision x s it := by
  unfold consultationDecision
  rw [consultationVerdict_congr h]

theorem CConsultation.next_congr (decision : Option DaoFlag) (c : CConsultation) :
    c.next x t.view decision = c.next x s.view decision := by
  unfold next current
  rw [h.param]

end SameButConsultations

/-- What a round does, to the object that is stored and to what is remembered. -/
structure ConsultationStepped (x : VoteStepContext) (s : VoteStepLocals) (it : CConsultation)
    (s' : VoteStepLocals) : Prop where
  stored : s.consultations.stored.find? it.hash = some it → s'.consultations.stored =
    s.consultations.stored.modify it.hash (.next x s.view (consultationDecision x s it))
  others : ∀ k, k ≠ it.hash →
    s'.consultations.stored.find? k = s.consultations.stored.find? k
  frame : s.SameButConsultations s'
  tracks : ∀ m₀ : MirroredMap CConsultation.hash, (∃ c, m₀.copy.find? it.hash = some c) →
    m₀.Tracks Eq s.consultations → m₀.Tracks Eq s'.consultations

theorem closeConsultation_spec (s : VoteStepLocals) (it : CConsultation) :
    MirroredMap.Stepped Eq it.hash (.decided x (consultationVerdict x s it)) s.consultations
        (closeConsultation x s it).consultations ∧
      s.SameButConsultations (closeConsultation x s it) := by
  unfold closeConsultation
  cases consultationVerdict x s it with
  | none => exact ⟨.refl, rfl⟩
  | some state => exact ⟨MirroredMap.stepped_touch (fun _ => rfl) fun _ => rfl, rfl⟩

/-- The round first updates the voting cycle. -/
theorem stepConsultation_cases (hx : x.pindexDelete = none) (s : VoteStepLocals)
    (it : CConsultation) :
    ∃ (u : VoteStepLocals) (g : CConsultation → CConsultation),
      MirroredMap.Stepped Eq it.hash g s.consultations u.consultations ∧
      it.current x s.view = g it ∧ s.SameButConsultations u ∧
      stepConsultation x s it =
        if (x.blockOf it.txblockhash).isSome && x.endsCycle then closeConsultation x u it
        else u := by
  cases hblock : x.blockOf it.txblockhash with
  | none =>
    refine ⟨s, id, .refl, ?_, rfl, ?_⟩
    · simp only [CConsultation.current, hblock, id]
    · simp only [stepConsultation, hblock, Option.isSome_none, Bool.false_and,
        Bool.false_eq_true, if_false]
  | some pblockindex =>
    by_cases hover : it.isFinished x.toDaoRules = true
    · refine ⟨s, id, .refl, ?_, rfl, ?_⟩
      · simp only [CConsultation.current, hblock, if_pos hover, id]
      · simp only [stepConsultation, hblock, hx, if_pos hover, Option.isSome_some, Bool.true_and]
    · let n := x.nVotingCycles pblockindex (s.view.param .consultationMaxVotingCycles + 1)
      refine ⟨s.touchConsultation it.hash (.withCycle n), .withCycle n,
        MirroredMap.stepped_touch (fun _ => rfl) (CConsultation.hash_withCycle n), ?_, rfl, ?_⟩
      · simp only [CConsultation.current, hblock, if_neg hover, n]
      · simp only [stepConsultation, hblock, hx, if_neg hover, Option.isSome_some, Bool.true_and,
          n]

/-- One round. -/
theorem stepConsultation_spec (hx : x.pindexDelete = none) (s : VoteStepLocals)
    (it : CConsultation) : ConsultationStepped x s it (stepConsultation x s it) := by
  obtain ⟨u, g, hg, hcurrent, hframe, hstep⟩ := stepConsultation_cases hx s it
  obtain ⟨hdecided, hframe'⟩ : MirroredMap.Stepped Eq it.hash
      (.decided x (consultationDecision x s it)) u.consultations
        (stepConsultation x s it).consultations ∧
      u.SameButConsultations (stepConsultation x s it) := by
    rw [hstep]
    split
    · next hc =>
      rw [consultationDecision, if_pos hc, ← consultationVerdict_congr hframe]
      exact closeConsultation_spec u it
    · next hc =>
      rw [consultationDecision, if_neg hc]
      exact ⟨.refl, rfl⟩
  have hboth := hg.trans hdecided
  refine ⟨fun hit => hboth.stored_at hit ?_, fun k => hboth.others, hframe.trans hframe',
    hboth.tracks⟩
  rw [CConsultation.next, hcurrent]

/-- **The loop over the consultations**, whose rounds do not see each other. -/
theorem stepConsultations_at (hx : x.pindexDelete = none) {s : VoteStepLocals}
    (hs : s.consultations.Agrees Eq) :
    (∀ l : List CConsultation, s.SameButConsultations (l.foldl (stepConsultation x) s)) ∧
      (∀ k, s.consultations.copy.find? k = none →
        (s.consultations.copy.entries.foldl (stepConsultation x) s).consultations.stored.find? k =
          s.consultations.stored.find? k) ∧
      ∀ k c, s.consultations.copy.find? k = some c →
        (s.consultations.copy.entries.foldl (stepConsultation x) s).consultations.stored.find? k =
          some (c.next x s.view (consultationDecision x s c)) := by
  have hothers := fun (t : VoteStepLocals) it => (stepConsultation_spec hx t it).others
  have hframe : ∀ l : List CConsultation,
      s.SameButConsultations (l.foldl (stepConsultation x) s) := fun l =>
    List.foldlRecOn l _ rfl fun t ht it _ => ht.trans (stepConsultation_spec hx t it).frame
  refine ⟨hframe, fun k => MirroredMap.foldl_copy_of_none hothers, fun k c hc => ?_⟩
  obtain ⟨rfl, pre, hit, hafter⟩ := MirroredMap.foldl_copy_at hothers hs hc
  rw [hafter, (stepConsultation_spec hx _ c).stored hit,
    OrderedMap.find?_modify (CConsultation.hash_next _ _), if_pos rfl, hit,
    consultationDecision_congr (hframe pre)]
  exact congrArg some (CConsultation.next_congr (hframe pre) _ c)

end Forward

end Navcoin
