import Navcoin.Dao.ForwardStep
import Navcoin.Dao.StateMap

/-!
# What becomes of each object in a step forward

An object keeps its terms; its counts and its voting cycle may change, and its state map gets at
most one entry, for the block of the step.

* `ForwardStep.requests_at`, `ForwardStep.proposals_at`, `ForwardStep.consultations_at`,
  `ForwardStep.answers_at`: the objects after the step;
* `ForwardStep.params_at`: the parameters after the step.
-/

namespace Navcoin

variable {p q : CPaymentRequest} {c d : CConsultation} {a b : CConsultationAnswer}

/-! ## What a step may not write -/

def CPaymentRequest.SameTerms (p q : CPaymentRequest) : Prop :=
  q = { p with
    nVotesYes := q.nVotesYes, nVotesNo := q.nVotesNo, nVotesAbs := q.nVotesAbs
    nVotingCycle := q.nVotingCycle, mapState := q.mapState }

def CProposal.SameTerms (p q : CProposal) : Prop :=
  q = { p with
    nVotesYes := q.nVotesYes, nVotesNo := q.nVotesNo, nVotesAbs := q.nVotesAbs
    nVotingCycle := q.nVotingCycle, mapState := q.mapState }

def CConsultation.SameTerms (c d : CConsultation) : Prop :=
  d = { c with
    nSupport := d.nSupport, mapVotes := d.mapVotes
    nVotingCycle := d.nVotingCycle, mapState := d.mapState }

def CConsultationAnswer.SameTerms (a b : CConsultationAnswer) : Prop :=
  b = { a with nSupport := b.nSupport, nVotes := b.nVotes, mapState := b.mapState }

theorem CPaymentRequest.SameTerms.trans {t : CPaymentRequest} (h : p.SameTerms q)
    (h' : q.SameTerms t) : p.SameTerms t := Eq.trans h' (by rw [h])

theorem CProposal.SameTerms.trans {p q t : CProposal} (h : p.SameTerms q)
    (h' : q.SameTerms t) : p.SameTerms t := Eq.trans h' (by rw [h])

theorem CConsultation.SameTerms.trans {e : CConsultation} (h : c.SameTerms d)
    (h' : d.SameTerms e) : c.SameTerms e := Eq.trans h' (by rw [h])

theorem CConsultationAnswer.SameTerms.trans {c : CConsultationAnswer} (h : a.SameTerms b)
    (h' : b.SameTerms c) : a.SameTerms c := Eq.trans h' (by rw [h])

/-! A count changes neither terms nor states, a round at most the state. -/

theorem CPaymentRequest.Recounted.sameTerms (h : p.Recounted q) :
    p.SameTerms q := by
  rw [h]
  rfl

theorem CProposal.Recounted.sameTerms {p q : CProposal} (h : p.Recounted q) : p.SameTerms q := by
  rw [h]
  rfl

theorem CConsultation.Recounted.sameTerms (h : c.Recounted d) :
    c.SameTerms d := by
  rw [h]
  rfl

theorem CConsultationAnswer.Recounted.sameTerms (h : a.Recounted b) :
    a.SameTerms b := by
  rw [h]
  rfl

theorem CPaymentRequest.Recounted.mapState_eq (h : p.Recounted q) :
    q.mapState = p.mapState := (congrArg CPaymentRequest.mapState h : _)

theorem CProposal.Recounted.mapState_eq {p q : CProposal} (h : p.Recounted q) :
    q.mapState = p.mapState := (congrArg CProposal.mapState h : _)

theorem CConsultation.Recounted.mapState_eq (h : c.Recounted d) :
    d.mapState = c.mapState := (congrArg CConsultation.mapState h : _)

theorem CConsultationAnswer.Recounted.mapState_eq (h : a.Recounted b) :
    b.mapState = a.mapState := (congrArg CConsultationAnswer.mapState h : _)

theorem CPaymentRequest.next_terms (x : VoteStepContext) (decision : Option DaoFlag)
    (p : CPaymentRequest) :
    p.SameTerms (p.next x decision) ∧
      (p.next x decision).mapState = p.mapState.decided x.pindexNew decision := by
  obtain ⟨n, hcurrent⟩ : ∃ n, p.current x = p.withCycle n := by
    unfold current
    split
    · exact ⟨_, rfl⟩
    · split
      · exact ⟨_, rfl⟩
      · exact ⟨_, rfl⟩
  unfold next
  rw [hcurrent]
  cases decision <;> exact ⟨rfl, rfl⟩

theorem CProposal.next_terms (x : VoteStepContext) (view : DaoView) (decision : Option DaoFlag)
    (p : CProposal) :
    p.SameTerms (p.next x view decision) ∧
      (p.next x view decision).mapState = p.mapState.decided x.pindexNew decision := by
  obtain ⟨n, hcurrent⟩ : ∃ n, p.current x view = p.withCycle n := by
    unfold current
    split
    · exact ⟨_, rfl⟩
    · split
      · exact ⟨_, rfl⟩
      · exact ⟨_, rfl⟩
  unfold next
  rw [hcurrent]
  cases decision <;> exact ⟨rfl, rfl⟩

theorem CConsultation.next_terms (x : VoteStepContext) (view : DaoView)
    (decision : Option DaoFlag) (c : CConsultation) :
    c.SameTerms (c.next x view decision) ∧
      (c.next x view decision).mapState = c.mapState.decided x.pindexNew decision := by
  obtain ⟨n, hcurrent⟩ : ∃ n, c.current x view = c.withCycle n := by
    unfold current
    split
    · exact ⟨_, rfl⟩
    · split
      · exact ⟨_, rfl⟩
      · exact ⟨_, rfl⟩
  unfold next
  rw [hcurrent]
  cases decision <;> exact ⟨rfl, rfl⟩

theorem CConsultationAnswer.decided_terms (x : VoteStepContext) (decision : Option DaoFlag)
    (a : CConsultationAnswer) :
    a.SameTerms (a.decided x decision) ∧
      (a.decided x decision).mapState = a.mapState.decided x.pindexNew decision := by
  cases decision <;> exact ⟨rfl, rfl⟩

namespace ForwardStep

variable {f : ForwardStep} {r : VoteStepResult}
variable {objects : VoteStepLocals}

/-! ## Copies at the start -/

/-- One object through the step: after the count the copy has the objects that are not null, as
they are stored; the others are left alone. -/
theorem rel_stepped {α : Type} {key : α → Uint256} {m : OrderedMap key} (on : Bool) {p : α → Bool}
    {s : MirroredMap key} {C R : α → α → Prop} {k : Uint256} {after : Option α}
    (hcounted : Option.Rel C (m.find? k) (s.stored.find? k)) (hs : s.Agrees Eq)
    (hcopy : s.copy.find? k = none ↔ (if on then m.filter p else ∅).find? k = none)
    (hmissing : s.copy.find? k = none → after = s.stored.find? k)
    (hskipped : ∀ a b, m.find? k = some a → s.stored.find? k = some b → C a b →
      (on && p a) = false → R a b)
    (hstepped : ∀ a b, m.find? k = some a → s.stored.find? k = some b → C a b →
      (on && p a) = true → s.copy.find? k = some b → ∃ b', after = some b' ∧ R a b') :
    Option.Rel R (m.find? k) after := by
  have hkeys : s.copy.find? k = none ↔ (m.find? k).filter (fun a => on && p a) = none := by
    rw [hcopy]
    cases on with
    | false => simp
    | true => simp [OrderedMap.find?_filter]
  generalize m.find? k = u at *
  cases hb : s.stored.find? k with
  | none =>
    rw [hb] at hcounted
    cases hcounted with
    | none =>
      rw [hmissing (hkeys.mpr rfl), hb]
      exact .none
  | some b =>
    rw [hb] at hcounted
    cases hcounted with
    | @some a _ hab =>
      cases hp : on && p a with
      | false =>
        rw [hmissing (hkeys.mpr (by rw [Option.filter_some, hp]; rfl)), hb]
        exact .some (hskipped a b rfl hb hab hp)
      | true =>
        have hne : s.copy.find? k ≠ none := by
          rw [ne_eq, hkeys, Option.filter_some, hp]
          exact Option.some_ne_none a
        obtain ⟨c, hc⟩ := Option.ne_none_iff_exists'.mp hne
        obtain ⟨d, hd, rfl⟩ := hs k c hc
        rw [hb] at hd
        cases hd
        obtain ⟨b', rfl, hR⟩ := hstepped a b rfl hb hab hp hc
        exact .some hR

/-! ## Requests -/

/-- The state that the step gives to a request. -/
def RequestDecided (f : ForwardStep) (p : CPaymentRequest) (decision : Option DaoFlag) : Prop :=
  if f.deployed.communityFund && !p.isNull then
    ∃ t, f.counted.SameButRequests t ∧ decision =
      requestDecision f.context t (countedRequest f.context f.scanned f.start p)
  else decision = none

/-- A request before and after the step. -/
structure RequestOutcome (f : ForwardStep) (p q : CPaymentRequest) : Prop where
  terms : p.SameTerms q
  states : ∃ decision, f.RequestDecided p decision ∧
    q.mapState = p.mapState.decided f.pindexNew decision

theorem RequestOutcome.recounted {p q q' : CPaymentRequest} (h : f.RequestOutcome p q)
    (hq : q.Recounted q') : f.RequestOutcome p q' := by
  obtain ⟨decision, hdecided, hstates⟩ := h.states
  exact ⟨h.terms.trans hq.sameTerms, decision, hdecided, hq.mapState_eq.trans hstates⟩

/-- A request that the step does not look at. -/
theorem RequestOutcome.skipped {p q : CPaymentRequest}
    (h : (f.deployed.communityFund && !p.isNull) = false) (hq : p.Recounted q) :
    f.RequestOutcome p q := by
  refine ⟨hq.sameTerms, none, ?_, hq.mapState_eq⟩
  rw [RequestDecided, h]
  rfl

theorem funded_requests (k : Uint256) :
    Option.Rel f.RequestOutcome (f.view.paymentRequests.find? k)
      (f.funded.requests.stored.find? k) := by
  refine rel_stepped f.deployed.communityFund (OrderedMap.rel_map (f.counted_ok.requests k))
    f.counted_ok.synced.requests (f.counted_ok.keysRequests k) ?_ ?_ ?_
  · intro hcopy
    cases hfund : f.deployed.communityFund with
    | false => rw [funded, hfund, if_neg Bool.false_ne_true]
    | true =>
      obtain ⟨hrequests, hproposals⟩ := f.requests_ok hfund
      rw [hproposals.frame]
      exact hrequests.missing k hcopy
  · rintro p _ _ _ rfl hskip
    refine .skipped hskip ?_
    split
    · exact countedRequest_recounted f.scanned f.start p
    · exact .refl p
  · rintro p _ _ _ rfl hlive hcopy
    obtain ⟨hfund : f.context.fCFund = true, _⟩ := Bool.and_eq_true _ _ ▸ hlive
    obtain ⟨hrequests, hproposals⟩ := f.requests_ok hfund
    rw [if_pos hfund] at hcopy
    obtain ⟨t, ht, hstepped⟩ := hrequests.stepped k _ hcopy
    have hcount := countedRequest_recounted (x := f.context) f.scanned f.start p
    obtain ⟨hterms, hstates⟩ := CPaymentRequest.next_terms f.context
      (requestDecision f.context t (countedRequest f.context f.scanned f.start p))
      (countedRequest f.context f.scanned f.start p)
    rw [hcount.mapState_eq] at hstates
    rw [hproposals.frame]
    refine ⟨_, hstepped, hcount.sameTerms.trans hterms, _, ?_, hstates⟩
    rw [RequestDecided, if_pos hlive]
    exact ⟨t, ht, rfl⟩

/-- **The requests after the step.** -/
theorem requests_at (h : f.run = .ok r) (k : Uint256) :
    Option.Rel f.RequestOutcome (f.view.paymentRequests.find? k)
      (r.view.paymentRequests.find? k) := by
  obtain ⟨_, ⟨hfund, _, rfl⟩ | ⟨objects, o⟩⟩ := run_ok h
  · exact OrderedMap.Kept.refl (fun p => .skipped (by simp [hfund]) (.refl p)) _ k
  · have hobjects : objects.requests = f.funded.requests := by
      rw [(consultations_ok o.consultations).1]
    have hreset := (resetVotes_ok (x := f.context) objects).requests k
    rw [hobjects] at hreset
    have hview : r.view.paymentRequests = (resetVotes f.context objects).requests.stored := by
      rw [o.view]
      rfl
    rw [hview]
    exact OrderedMap.rel_trans (fun _ _ _ h hq => h.recounted hq) (funded_requests k) hreset

/-! ## Proposals -/

/-- The state that the step gives to a proposal. -/
def ProposalDecided (f : ForwardStep) (p : CProposal) (decision : Option DaoFlag) : Prop :=
  if f.deployed.communityFund && !p.isNull then
    ∃ t, (stepRequests f.context f.counted).SameButProposals t ∧ decision =
      proposalDecision f.context t (countedProposal f.context f.scanned f.start p)
  else decision = none

/-- A proposal before and after the step. -/
structure ProposalOutcome (f : ForwardStep) (p q : CProposal) : Prop where
  terms : p.SameTerms q
  states : ∃ decision, f.ProposalDecided p decision ∧
    q.mapState = p.mapState.decided f.pindexNew decision

theorem ProposalOutcome.recounted {p q q' : CProposal} (h : f.ProposalOutcome p q)
    (hq : q.Recounted q') : f.ProposalOutcome p q' := by
  obtain ⟨decision, hdecided, hstates⟩ := h.states
  exact ⟨h.terms.trans hq.sameTerms, decision, hdecided, hq.mapState_eq.trans hstates⟩

/-- A proposal that the step does not look at. -/
theorem ProposalOutcome.skipped {p q : CProposal}
    (h : (f.deployed.communityFund && !p.isNull) = false) (hq : p.Recounted q) :
    f.ProposalOutcome p q := by
  refine ⟨hq.sameTerms, none, ?_, hq.mapState_eq⟩
  rw [ProposalDecided, h]
  rfl

theorem funded_proposals (k : Uint256) :
    Option.Rel f.ProposalOutcome (f.view.proposals.find? k)
      (f.funded.proposals.stored.find? k) := by
  have hsame (hfund : f.deployed.communityFund = true) :
      (stepRequests f.context f.counted).proposals = f.counted.proposals := by
    rw [(f.requests_ok hfund).1.frame]
  refine rel_stepped f.deployed.communityFund (OrderedMap.rel_map (f.counted_ok.proposals k))
    f.counted_ok.synced.proposals (f.counted_ok.keys k) ?_ ?_ ?_
  · intro hcopy
    cases hfund : f.deployed.communityFund with
    | false => rw [funded, hfund, if_neg Bool.false_ne_true]
    | true => exact hsame hfund ▸ (f.requests_ok hfund).2.missing k (hsame hfund ▸ hcopy)
  · rintro p _ _ _ rfl hskip
    refine .skipped hskip ?_
    split
    · exact countedProposal_recounted f.scanned f.start p
    · exact .refl p
  · rintro p _ _ _ rfl hlive hcopy
    obtain ⟨hfund : f.context.fCFund = true, _⟩ := Bool.and_eq_true _ _ ▸ hlive
    rw [if_pos hfund] at hcopy
    obtain ⟨t, ht, hstepped⟩ := (f.requests_ok hfund).2.stepped k _ (hsame hfund ▸ hcopy)
    have hcount := countedProposal_recounted (x := f.context) f.scanned f.start p
    obtain ⟨hterms, hstates⟩ := CProposal.next_terms f.context t.view
      (proposalDecision f.context t (countedProposal f.context f.scanned f.start p))
      (countedProposal f.context f.scanned f.start p)
    rw [hcount.mapState_eq] at hstates
    refine ⟨_, hstepped, hcount.sameTerms.trans hterms, _, ?_, hstates⟩
    rw [ProposalDecided, if_pos hlive]
    exact ⟨t, ht, rfl⟩

/-- **The proposals after the step.** -/
theorem proposals_at (h : f.run = .ok r) (k : Uint256) :
    Option.Rel f.ProposalOutcome (f.view.proposals.find? k) (r.view.proposals.find? k) := by
  obtain ⟨_, ⟨hfund, _, rfl⟩ | ⟨objects, o⟩⟩ := run_ok h
  · exact OrderedMap.Kept.refl (fun p => .skipped (by simp [hfund]) (.refl p)) _ k
  · have hobjects : objects.proposals = f.funded.proposals := by
      rw [(consultations_ok o.consultations).1]
    have hreset := (resetVotes_ok (x := f.context) objects).proposals k
    rw [hobjects] at hreset
    have hview : r.view.proposals = (resetVotes f.context objects).proposals.stored := by
      rw [o.view]
      rfl
    rw [hview]
    exact OrderedMap.rel_trans (fun _ _ _ h hq => h.recounted hq) (funded_proposals k) hreset

/-! ## The parameters -/

/-- What the answers with enough votes ask for in this step. -/
def fired (f : ForwardStep) : List (Nat × Bytes) := firedPairs f.context f.counted

theorem firedPairs_funded : firedPairs f.context f.funded = f.fired := by
  have hscale : f.counted.view.SameScale f.funded.view :=
    VoteStepLocals.sameScale (by rw [f.funded_frame])
  have hcons : f.funded.consultations = f.counted.consultations := by rw [f.funded_frame]
  have hanswers : f.funded.answers = f.counted.answers := by rw [f.funded_frame]
  have hfires : answerFires f.context f.funded = answerFires f.context f.counted := by
    unfold answerFires CConsultationAnswer.isConsensusAccepted
    rw [hscale.param, hscale.nExcludeVotes, hcons]
  have hpairs : answerPairs f.funded = answerPairs f.counted := by
    unfold answerPairs
    rw [hcons]
  unfold fired firedPairs
  rw [hfires, hpairs, hanswers]

theorem fired_of_idle (hdao : f.deployed.dao = false) : f.fired = [] := by
  have hcopy : f.counted.answers.copy = ∅ := by
    apply OrderedMap.ext_find?
    intro k
    rw [OrderedMap.find?_empty, f.counted_ok.keysAnswers]
    show (if f.deployed.dao then f.view.getAllConsultationAnswers else ∅).find? k = none
    rw [hdao]
    rfl
  unfold fired firedPairs
  rw [hcopy]
  rfl

/-- The changes that were collected. -/
theorem find?_changes
    (h : (if f.deployed.dao then stepConsultations f.context f.funded else .ok f.funded) =
      .ok objects) (n : Nat) :
    objects.mapConsensusToChange.find? n =
      (f.fired.find? fun e => e.1 = n).map fun e => (e.1, changeValue e) := by
  have hstart : f.funded.mapConsensusToChange = ∅ := by
    rw [f.funded_frame]
    exact f.counted_ok.changes
  obtain ⟨_, hloop, hidle⟩ := consultations_ok h
  cases hdao : f.deployed.dao with
  | false =>
    rw [hidle hdao, hstart, fired_of_idle hdao]
    rfl
  | true =>
    have hchanges := (hloop hdao).changes
    rw [firedPairs_funded, hstart] at hchanges
    rw [find?_insertChanges hchanges, OrderedMap.find?_empty, Option.none_or]

/-- **The parameters after the step.**  A parameter gets the first value that is asked for. -/
theorem params_at (h : f.run = .ok r) (hpos : 0 ≤ f.pindexNew.nHeight)
    (hbelow : f.view.ParamsBelow f.pindexNew.nHeight) (p : ConsensusParam) :
    r.view.param p =
      ((f.fired.find? fun e => e.1 = p.toNat).map changeValue).getD (f.view.param p) := by
  obtain ⟨_, ⟨_, hdao, rfl⟩ | ⟨objects, o⟩⟩ := run_ok h
  · rw [fired_of_idle hdao]
    rfl
  · have hrest := f.counted_ok.rest
    have hbelow' : f.counted.rest.ParamsBelow f.context.pindexNew.nHeight := by
      rw [hrest]
      exact hbelow
    have hold : f.counted.rest.param p = f.view.param p := by
      rw [hrest]
      rfl
    have hview : r.view.param p =
        (changeParameters f.context objects.mapConsensusToChange f.counted.rest).param p := by
      rw [o.view]
      rfl
    rw [hview, param_changeParameters hpos hbelow', find?_changes o.consultations, hold,
      Option.map_map]
    rfl

/-! ## Consultations -/

/-- The state that the step gives to a consultation, which `c₁` is after the count. -/
def ConsultationDecided (f : ForwardStep) (c c₁ : CConsultation) (decision : Option DaoFlag) :
    Prop :=
  if f.deployed.dao && !c.isNull then
    ∃ t, t.rest = f.counted.rest ∧
      (∀ n, t.mapConsensusToChange.contains n = f.fired.any fun e => e.1 = n) ∧
      decision = consultationDecision f.context t c₁
  else decision = none

/-- A consultation before and after the step. -/
structure ConsultationOutcome (f : ForwardStep) (c d : CConsultation) : Prop where
  terms : c.SameTerms d
  states : ∃ c₁ decision, c.Recounted c₁ ∧ f.ConsultationDecided c c₁ decision ∧
    f.counted.consultations.stored.find? c.hash = some c₁ ∧
    d.mapState = c.mapState.decided f.pindexNew decision

theorem ConsultationOutcome.recounted {c d d' : CConsultation} (h : f.ConsultationOutcome c d)
    (hd : d.Recounted d') : f.ConsultationOutcome c d' := by
  obtain ⟨c₁, decision, hcount, hdecided, hstored, hstates⟩ := h.states
  exact ⟨h.terms.trans hd.sameTerms, c₁, decision, hcount, hdecided, hstored,
    hd.mapState_eq.trans hstates⟩

/-- A consultation that the step does not look at. -/
theorem ConsultationOutcome.skipped {c c₁ d : CConsultation}
    (h : (f.deployed.dao && !c.isNull) = false) (hcount : c.Recounted c₁)
    (hstored : f.counted.consultations.stored.find? c.hash = some c₁) (hd : c.Recounted d) :
    f.ConsultationOutcome c d := by
  refine ⟨hd.sameTerms, c₁, none, hcount, ?_, hstored, hd.mapState_eq⟩
  rw [ConsultationDecided, h]
  rfl

theorem objects_consultations
    (h : (if f.deployed.dao then stepConsultations f.context f.funded else .ok f.funded) =
      .ok objects) (k : Uint256) :
    Option.Rel f.ConsultationOutcome (f.view.consultations.find? k)
      (objects.consultations.stored.find? k) := by
  have hsame : f.funded.consultations = f.counted.consultations := by rw [f.funded_frame]
  obtain ⟨_, hloop, hidle⟩ := consultations_ok h
  refine rel_stepped f.deployed.dao (f.counted_ok.consultations k) f.counted_ok.synced.consultations
    (f.counted_ok.keysConsultations k) ?_ ?_ ?_
  · intro hcopy
    cases hdao : f.deployed.dao with
    | false => rw [hidle hdao, hsame]
    | true => rw [(hloop hdao).missing k (hsame ▸ hcopy), hsame]
  · intro c c₁ hc hc₁ hcount hskip
    rw [← (OrderedMap.key_of_find? hc : c.hash = k)] at hc₁
    exact .skipped hskip hcount hc₁ hcount
  · intro c c₁ hc hc₁ hcount hlive hcopy
    rw [← (OrderedMap.key_of_find? hc : c.hash = k)] at hc₁
    obtain ⟨t, ht, hchanges, _, hstepped⟩ :=
      (hloop (Bool.and_eq_true _ _ ▸ hlive).1).stepped k c₁ (hsame ▸ hcopy)
    obtain ⟨hterms, hstates⟩ := CConsultation.next_terms f.context t.view
      (consultationDecision f.context t c₁) c₁
    rw [hcount.mapState_eq] at hstates
    refine ⟨_, hstepped, hcount.sameTerms.trans hterms, c₁, _, hcount, ?_, hc₁, hstates⟩
    rw [ConsultationDecided, if_pos hlive]
    refine ⟨t, ?_, ?_, rfl⟩
    · rw [ht]
      rw [f.funded_frame]
    · intro n
      rw [hchanges, OrderedMap.contains, find?_changes h, Option.isSome_map,
        Bool.eq_iff_iff, List.find?_isSome, List.any_eq_true]

/-- **The consultations after the step.** -/
theorem consultations_at (h : f.run = .ok r) (k : Uint256) :
    Option.Rel f.ConsultationOutcome (f.view.consultations.find? k)
      (r.view.consultations.find? k) := by
  obtain ⟨_, ⟨_, hdao, rfl⟩ | ⟨objects, o⟩⟩ := run_ok h
  · cases hc : f.view.consultations.find? k with
    | none => exact .none
    | some c =>
      obtain ⟨c₁, hc₁, hcount⟩ := f.counted_ok.consultations.exists_right hc
      rw [← (OrderedMap.key_of_find? hc : c.hash = k)] at hc₁
      exact .some (.skipped (by simp [hdao]) hcount hc₁ (.refl c))
  · have hreset := (resetVotes_ok (x := f.context) objects).consultations k
    have hview : r.view.consultations = (resetVotes f.context objects).consultations.stored := by
      rw [o.view]
      rfl
    rw [hview]
    exact OrderedMap.rel_trans (fun _ _ _ h hq => h.recounted hq)
      (objects_consultations o.consultations k) hreset

/-! ## Answers -/

/-- An answer before and after the step: it has the same terms and at most one state more. -/
structure AnswerOutcome (f : ForwardStep) (a b : CConsultationAnswer) : Prop where
  terms : a.SameTerms b
  states : ∃ decision, b.mapState = a.mapState.decided f.pindexNew decision

theorem AnswerOutcome.recounted {a b b' : CConsultationAnswer} (h : f.AnswerOutcome a b)
    (hb : b.Recounted b') : f.AnswerOutcome a b' := by
  obtain ⟨decision, hstates⟩ := h.states
  exact ⟨h.terms.trans hb.sameTerms, decision, hb.mapState_eq.trans hstates⟩

theorem AnswerOutcome.of_recounted {a b : CConsultationAnswer} (h : a.Recounted b) :
    f.AnswerOutcome a b :=
  ⟨h.sameTerms, none, h.mapState_eq⟩

theorem objects_answers
    (h : (if f.deployed.dao then stepConsultations f.context f.funded else .ok f.funded) =
      .ok objects) (k : Uint256) :
    Option.Rel f.AnswerOutcome (f.view.answers.find? k) (objects.answers.stored.find? k) := by
  have hsame : f.funded.answers = f.counted.answers := by rw [f.funded_frame]
  obtain ⟨_, hloop, hidle⟩ := consultations_ok h
  refine rel_stepped f.deployed.dao (f.counted_ok.answers k) f.counted_ok.synced.answers
    (f.counted_ok.keysAnswers k) ?_ (fun a b _ _ hcount _ => .of_recounted hcount) ?_
  · intro hcopy
    cases hdao : f.deployed.dao with
    | false => rw [hidle hdao, hsame]
    | true => rw [(hloop hdao).missingAnswers k (hsame ▸ hcopy), hsame]
  · intro a a₁ _ _ hcount hlive hcopy
    obtain ⟨hdao, _⟩ := Bool.and_eq_true _ _ ▸ hlive
    obtain ⟨hterms, hstates⟩ := CConsultationAnswer.decided_terms f.context
      (answerDecision f.context f.funded a₁) a₁
    rw [hcount.mapState_eq] at hstates
    exact ⟨_, (hloop hdao).steppedAnswers k a₁ (hsame ▸ hcopy), hcount.sameTerms.trans hterms, _,
      hstates⟩

/-- **The answers after the step.** -/
theorem answers_at (h : f.run = .ok r) (k : Uint256) :
    Option.Rel f.AnswerOutcome (f.view.answers.find? k) (r.view.answers.find? k) := by
  obtain ⟨_, ⟨_, _, rfl⟩ | ⟨objects, o⟩⟩ := run_ok h
  · exact OrderedMap.Kept.refl (fun a => .of_recounted (.refl a)) _ k
  · have hreset := (resetVotes_ok (x := f.context) objects).answers k
    have hview : r.view.answers = (resetVotes f.context objects).answers.stored := by
      rw [o.view]
      rfl
    rw [hview]
    exact OrderedMap.rel_trans (fun _ _ _ h hb => h.recounted hb)
      (objects_answers o.consultations k) hreset

end ForwardStep

end Navcoin
