import Navcoin.Dao.ParameterChanges

/-!
# A step forward

The parts of `VoteStep` put together: what a step after a connected block makes of the view.

* `resetVotes_ok`: the counts that are reset;
* `stepFund_ok`, `stepConsultations_ok`: the loops over the objects;
* `ForwardStep`: the input of a step, and `ForwardStep.run_ok`: its outcome.
-/

namespace Navcoin

section Forward

variable {x : VoteStepContext}

/-! ## Requests and proposals -/

/-- The first half of `stepFund`. -/
def stepRequests (x : VoteStepContext) (s : VoteStepLocals) : VoteStepLocals :=
  let s := s.requests.copy.entries.foldl (stepPaymentRequest x) s
  { s with requests := s.requests.flush }

/-- The second half. -/
def stepProposals (x : VoteStepContext) (s : VoteStepLocals) : VoteStepLocals :=
  let s := s.proposals.copy.entries.foldl (stepProposal x) s
  { s with proposals := s.proposals.flush }

theorem stepFund_eq (s : VoteStepLocals) : stepFund x s = stepProposals x (stepRequests x s) := rfl

/-- What the loop over the requests leaves. -/
structure RequestsLoop (x : VoteStepContext) (s s' : VoteStepLocals) : Prop where
  frame : s.SameButRequests s'
  missing : ∀ k, s.requests.copy.find? k = none →
    s'.requests.stored.find? k = s.requests.stored.find? k
  stepped : ∀ k p, s.requests.copy.find? k = some p → ∃ t, s.SameButRequests t ∧
    s'.requests.stored.find? k = some (p.next x (requestDecision x t p))
  agrees : s'.requests.Agrees CPaymentRequest.Recycled
  keys : ∀ k, s'.requests.copy.find? k = none ↔ s.requests.copy.find? k = none

theorem stepRequests_ok (hx : x.pindexDelete = none) {s : VoteStepLocals}
    (hs : s.requests.Agrees Eq) (hempty : s.requests.updates = ∅) :
    RequestsLoop x s (stepRequests x s) := by
  have hothers : ∀ (t : VoteStepLocals) (it : CPaymentRequest) (k : Uint256), k ≠ it.hash →
      (stepPaymentRequest x t it).requests.stored.find? k = t.requests.stored.find? k :=
    fun t it => (stepPaymentRequest_frame hx t it).1
  have hframe : ∀ l : List CPaymentRequest,
      s.SameButRequests (l.foldl (stepPaymentRequest x) s) := fun l =>
    List.foldlRecOn l _ rfl fun t ht it _ => ht.trans (stepPaymentRequest_frame hx t it).2.1
  have htracks := MirroredMap.tracks_foldl_copy
    (.refl CPaymentRequest.Recycled.refl hempty)
    fun t it => (stepPaymentRequest_frame hx t it).2.2 _
  refine ⟨(hframe _).trans rfl, fun k => MirroredMap.foldl_copy_of_none hothers, ?_,
    MirroredMap.agrees_flush hs htracks, MirroredMap.find?_copy_flush_eq_none_iff htracks⟩
  intro k p hp
  obtain ⟨rfl, pre, hit, hafter⟩ := MirroredMap.foldl_copy_at hothers hs hp
  refine ⟨_, hframe pre, hafter.trans ?_⟩
  rw [(stepPaymentRequest_spec hx hit).stored,
    OrderedMap.find?_modify (CPaymentRequest.hash_next _), if_pos rfl, hit]
  rfl

/-- What the loop over the proposals leaves. -/
structure ProposalsLoop (x : VoteStepContext) (s s' : VoteStepLocals) : Prop where
  frame : s.SameButProposals s'
  missing : ∀ k, s.proposals.copy.find? k = none →
    s'.proposals.stored.find? k = s.proposals.stored.find? k
  stepped : ∀ k p, s.proposals.copy.find? k = some p → ∃ t, s.SameButProposals t ∧
    s'.proposals.stored.find? k = some (p.next x t.view (proposalDecision x t p))
  agrees : s'.proposals.Agrees Eq
  keys : ∀ k, s'.proposals.copy.find? k = none ↔ s.proposals.copy.find? k = none

theorem stepProposals_ok (hx : x.pindexDelete = none) {s : VoteStepLocals}
    (hs : s.proposals.Agrees Eq) (hempty : s.proposals.updates = ∅) :
    ProposalsLoop x s (stepProposals x s) := by
  have hothers : ∀ (t : VoteStepLocals) (it : CProposal) (k : Uint256), k ≠ it.hash →
      (stepProposal x t it).proposals.stored.find? k = t.proposals.stored.find? k :=
    fun t it => (stepProposal_spec hx t it).others
  have hframe : ∀ l : List CProposal, s.SameButProposals (l.foldl (stepProposal x) s) := fun l =>
    List.foldlRecOn l _ rfl fun t ht it _ => ht.trans (stepProposal_spec hx t it).frame
  have htracks := MirroredMap.tracks_foldl_copy
    (.refl (fun _ => rfl) hempty) fun t it => (stepProposal_spec hx t it).tracks _
  refine ⟨(hframe _).trans rfl, fun k => MirroredMap.foldl_copy_of_none hothers, ?_,
    MirroredMap.agrees_flush hs htracks, MirroredMap.find?_copy_flush_eq_none_iff htracks⟩
  intro k p hp
  obtain ⟨rfl, pre, hit, hafter⟩ := MirroredMap.foldl_copy_at hothers hs hp
  refine ⟨_, hframe pre, hafter.trans ?_⟩
  rw [(stepProposal_spec hx _ p).stored hit, OrderedMap.find?_modify (CProposal.hash_next _ _),
    if_pos rfl, hit]
  rfl

/-! ## Answers and consultations -/

/-- What the loops over answers and consultations leave. -/
structure ConsultationsLoop (x : VoteStepContext) (s s' : VoteStepLocals) : Prop where
  frame : s' = { s with
    answers := s'.answers, consultations := s'.consultations
    mapConsensusToChange := s'.mapConsensusToChange }
  changes : (firedPairs x s).foldlM insertChange s.mapConsensusToChange =
    .ok s'.mapConsensusToChange
  missingAnswers : ∀ k, s.answers.copy.find? k = none →
    s'.answers.stored.find? k = s.answers.stored.find? k
  steppedAnswers : ∀ k a, s.answers.copy.find? k = some a →
    s'.answers.stored.find? k = some (a.decided x (answerDecision x s a))
  missing : ∀ k, s.consultations.copy.find? k = none →
    s'.consultations.stored.find? k = s.consultations.stored.find? k
  stepped : ∀ k c, s.consultations.copy.find? k = some c → ∃ t, s.SameButAnswers t ∧
    t.mapConsensusToChange = s'.mapConsensusToChange ∧ t.answers = s'.answers ∧
    s'.consultations.stored.find? k = some (c.next x t.view (consultationDecision x t c))

theorem stepConsultations_ok (hx : x.pindexDelete = none) {s s' : VoteStepLocals}
    (hs : s.consultations.Agrees Eq) (hanswers : s.answers.Agrees Eq)
    (h : stepConsultations x s = .ok s') : ConsultationsLoop x s s' := by
  unfold stepConsultations at h
  rw [Except.bind_eq_ok_iff] at h
  obtain ⟨t, hrun, h⟩ := h
  rw [← Except.ok.inj h]
  obtain ⟨hchanges, hmissing, hstepped⟩ := stepAnswers_ok hx hanswers hrun
  have hframe := (foldlM_stepConsultationAnswer hx _ hrun).1
  have hcons : t.consultations = s.consultations := by rw [hframe]
  have hflush : s.SameButAnswers { t with answers := t.answers.flush } := hframe.trans rfl
  obtain ⟨hframe', hmissing', hstepped'⟩ := stepConsultations_at hx
    (s := { t with answers := t.answers.flush }) (hcons ▸ hs)
  have hlast := hframe' t.consultations.copy.entries
  generalize t.consultations.copy.entries.foldl (stepConsultation x)
    { t with answers := t.answers.flush } = u at hlast hmissing' hstepped'
  have hanswers' : u.answers = t.answers.flush := by rw [hlast]
  have hchanges' : u.mapConsensusToChange = t.mapConsensusToChange := by rw [hlast]
  refine ⟨?_, ?_, ?_, ?_, ?_, ?_⟩
  · conv => lhs; rw [hlast, hframe]
    rw [hanswers', hchanges']
  · exact hchanges.trans (congrArg Except.ok hchanges'.symm)
  · intro k hk
    rw [hanswers']
    exact hmissing k hk
  · intro k a ha
    rw [hanswers']
    exact hstepped k a ha
  · intro k hk
    rw [← hcons] at hk ⊢
    exact hmissing' k hk
  · intro k c hc
    rw [← hcons] at hc
    exact ⟨_, hflush, hchanges'.symm, hanswers'.symm, hstepped' k c hc⟩

/-! ## Resets -/

/-- What the resets change: counts. -/
structure CountsReset (s s' : VoteStepLocals) : Prop where
  rest : s'.rest = s.rest
  nCFSupply : s'.nCFSupply = s.nCFSupply
  nCFLocked : s'.nCFLocked = s.nCFLocked
  changes : s'.mapConsensusToChange = s.mapConsensusToChange
  proposals : s.proposals.stored.Kept CProposal.Recounted s'.proposals.stored
  requests : s.requests.stored.Kept CPaymentRequest.Recounted s'.requests.stored
  consultations : s.consultations.stored.Kept CConsultation.Recounted s'.consultations.stored
  answers : s.answers.stored.Kept CConsultationAnswer.Recounted s'.answers.stored

namespace CountsReset

variable {s t u : VoteStepLocals}

theorem refl (s : VoteStepLocals) : CountsReset s s :=
  ⟨rfl, rfl, rfl, rfl, .refl CProposal.Recounted.refl _, .refl CPaymentRequest.Recounted.refl _,
    .refl CConsultation.Recounted.refl _, .refl CConsultationAnswer.Recounted.refl _⟩

theorem trans (h : CountsReset s t) (h' : CountsReset t u) : CountsReset s u :=
  ⟨h'.rest.trans h.rest, h'.nCFSupply.trans h.nCFSupply, h'.nCFLocked.trans h.nCFLocked,
    h'.changes.trans h.changes, h.proposals.trans h'.proposals fun _ _ _ => .trans,
    h.requests.trans h'.requests fun _ _ _ => .trans,
    h.consultations.trans h'.consultations fun _ _ _ => .trans,
    h.answers.trans h'.answers fun _ _ _ => .trans⟩

theorem foldl {ι : Type} {step : VoteStepLocals → ι → VoteStepLocals}
    (hstep : ∀ s i, CountsReset s (step s i)) (l : List ι) (s : VoteStepLocals) :
    CountsReset s (l.foldl step s) := by
  induction l generalizing s with
  | nil => exact refl s
  | cons i l ih => exact (hstep s i).trans (ih (step s i))

/-- A change that is made under a condition. -/
theorem ite (c : Bool) (h : CountsReset s t) : CountsReset s (if c then t else s) := by
  split
  · exact h
  · exact refl s

theorem modifyRequest (s : VoteStepLocals) (k : Uint256) {f : CPaymentRequest → CPaymentRequest}
    (hf : ∀ p : CPaymentRequest, p.Recounted (f p)) :
    CountsReset s { s with requests := s.requests.modify k f } :=
  { refl s with
    requests := OrderedMap.Kept.modify (.refl CPaymentRequest.Recounted.refl _)
      (fun p => (hf p).hash_eq) (fun _ q h => h.trans (hf q)) k }

theorem modifyProposal (s : VoteStepLocals) (k : Uint256) {f : CProposal → CProposal}
    (hf : ∀ p : CProposal, p.Recounted (f p)) :
    CountsReset s { s with proposals := s.proposals.modify k f } :=
  { refl s with
    proposals := OrderedMap.Kept.modify (.refl CProposal.Recounted.refl _)
      (fun p => (hf p).hash_eq) (fun _ q h => h.trans (hf q)) k }

theorem modifyConsultation (s : VoteStepLocals) (k : Uint256) {f : CConsultation → CConsultation}
    (hf : ∀ c : CConsultation, c.Recounted (f c)) :
    CountsReset s { s with consultations := s.consultations.modify k f } :=
  { refl s with
    consultations := OrderedMap.Kept.modify (.refl CConsultation.Recounted.refl _)
      (fun c => (hf c).hash_eq) (fun _ d h => h.trans (hf d)) k }

theorem modifyAnswer (s : VoteStepLocals) (k : Uint256)
    {f : CConsultationAnswer → CConsultationAnswer}
    (hf : ∀ a : CConsultationAnswer, a.Recounted (f a)) :
    CountsReset s { s with answers := s.answers.modify k f } :=
  { refl s with
    answers := OrderedMap.Kept.modify (.refl CConsultationAnswer.Recounted.refl _)
      (fun a => (hf a).hash_eq) (fun _ b h => h.trans (hf b)) k }

end CountsReset

theorem resetPaymentRequest_counts (s : VoteStepLocals) (it : CPaymentRequest) :
    CountsReset s (resetPaymentRequest x s it) :=
  .ite _ (.modifyRequest s _ fun _ => rfl)

theorem resetProposal_counts (s : VoteStepLocals) (it : CProposal) :
    CountsReset s (resetProposal x s it) :=
  .ite _ (.modifyProposal s _ fun _ => rfl)

theorem resetConsultation_counts (s : VoteStepLocals) (it : CConsultation) :
    CountsReset s (resetConsultation x s it) := by
  unfold resetConsultation
  dsimp only
  generalize ht : (if it.canBeSupported x.toDaoRules && !s.mapSeenSupport.contains it.hash then
    { s with consultations := s.consultations.modify it.hash (.withSupport 0) } else s) = t
  have hsupport : CountsReset s t := ht ▸ .ite _ (.modifyConsultation s _ fun _ => rfl)
  split
  · generalize hu : (if it.isRange then t
      else { t with vClearAnswers := it.hash :: t.vClearAnswers }) = u
    have hclear : CountsReset t u := by
      subst hu
      split
      · exact .refl t
      · exact { CountsReset.refl t with }
    exact hsupport.trans (hclear.trans (.ite _ (.modifyConsultation u _ fun _ => rfl)))
  · exact hsupport

theorem resetConsultationAnswer_counts (s : VoteStepLocals) (it : CConsultationAnswer) :
    CountsReset s (resetConsultationAnswer x s it) := by
  unfold resetConsultationAnswer
  split
  · exact .refl s
  · generalize ht : (if it.canBeSupported x.toDaoRules s.view &&
      !s.mapSeenSupport.contains it.hash then
      { s with answers := s.answers.modify it.hash (.withSupport 0) } else s) = t
    have hsupport : CountsReset s t := ht ▸ .ite _ (.modifyAnswer s _ fun _ => rfl)
    exact hsupport.trans (.ite _ (.modifyAnswer t _ fun _ => rfl))

theorem resetVotes_ok (s : VoteStepLocals) : CountsReset s (resetVotes x s) := by
  refine .ite _ (CountsReset.trans (.ite _ ?_) (.ite _ ?_))
  · exact (CountsReset.foldl resetPaymentRequest_counts _ s).trans
      (CountsReset.foldl resetProposal_counts _ _)
  · exact (CountsReset.foldl resetConsultation_counts _ _).trans
      (CountsReset.foldl resetConsultationAnswer_counts _ _)

end Forward

/-! ## The step -/

/-- The input of a step after a block was connected. -/
structure ForwardStep where
  nd : DaoNode
  records : VoteRecords
  caches : VoteCaches
  pindexNew : CBlockIndex
  ancestors : List CBlockIndex
  nCFSupply : Int
  nCFLocked : Int
  view : DaoView

namespace ForwardStep

variable (f : ForwardStep)

def run : Except Failure VoteStepResult :=
  voteStep f.nd f.records f.caches (f.pindexNew :: f.ancestors) none f.nCFSupply f.nCFLocked f.view

def deployed : Deployments := (f.ancestors.head?.map f.nd.deployments).getD {}

def nCycleLength : Nat := f.view.param .votingCycleLength

/-- The number of blocks of the cycle so far. -/
def nBlocks : Nat := toUint64 f.pindexNew.nHeight % f.nCycleLength + 1

def whole : Bool := scansWholeCycle false f.nBlocks f.view f.caches

/-- The counts after the scan. -/
def scanned : VoteCaches :=
  scanBlocks f.deployed.communityFund f.deployed.dao f.view f.records
    { (if f.whole then {} else f.caches) with
      lastConsensusStateHash := some f.view.getConsensusStateHash }
    ((f.pindexNew :: f.ancestors).take (if f.whole then f.nBlocks else 1))

def context : VoteStepContext :=
  { f.nd.toDaoRules with
    pindexNew := f.pindexNew, pindexDelete := none, nCycleLength := f.nCycleLength
    fCFund := f.deployed.communityFund, fDAOConsultations := f.deployed.dao
    fScanningWholeCycle := f.whole }

def start : VoteStepLocals := startStep f.context f.nCFSupply f.nCFLocked f.view

/-- The state with the votes counted. -/
def counted : VoteStepLocals := updateVotes f.context f.scanned f.start

/-- The state with the next states of requests and proposals. -/
def funded : VoteStepLocals :=
  if f.deployed.communityFund then stepFund f.context f.counted else f.counted

theorem start_synced : Synced f.start := by
  have hcopy : ∀ {α : Type} {key : α → Uint256} (m : OrderedMap key) (p : α → Bool) (c : Bool)
      (k : Uint256) (a : α), (if c then m.filter p else ∅).find? k = some a →
      ∃ b, m.find? k = some b ∧ a = b := by
    intro α key m p c k a ha
    cases c with
    | false => cases ha
    | true =>
      rw [if_pos rfl, OrderedMap.find?_filter, Option.filter_eq_some_iff] at ha
      exact ⟨a, ha.1, rfl⟩
  exact ⟨hcopy _ _ _, hcopy _ _ _, hcopy _ _ _, hcopy _ _ _, rfl, rfl, rfl, rfl⟩

theorem counted_ok : VotesUpdated f.context f.scanned f.start f.counted :=
  updateVotes_ok rfl f.scanned f.start_synced

theorem requests_ok (hfund : f.deployed.communityFund = true) :
    RequestsLoop f.context f.counted (stepRequests f.context f.counted) ∧
      ProposalsLoop f.context (stepRequests f.context f.counted) f.funded := by
  have hsynced := f.counted_ok.synced
  have hrequests := stepRequests_ok (x := f.context) rfl hsynced.requests hsynced.noRequests
  have hsame : (stepRequests f.context f.counted).proposals = f.counted.proposals := by
    rw [hrequests.frame]
  refine ⟨hrequests, ?_⟩
  rw [funded, if_pos hfund, stepFund_eq]
  exact stepProposals_ok rfl (hsame ▸ hsynced.proposals) (hsame ▸ hsynced.noProposals)

theorem funded_frame : f.funded = { f.counted with
    proposals := f.funded.proposals, requests := f.funded.requests
    nCFSupply := f.funded.nCFSupply, nCFLocked := f.funded.nCFLocked } := by
  by_cases hfund : f.deployed.communityFund = true
  · obtain ⟨hrequests, hproposals⟩ := f.requests_ok hfund
    have hsame : f.funded.requests = (stepRequests f.context f.counted).requests := by
      rw [hproposals.frame]
    conv => lhs; rw [hproposals.frame, hrequests.frame]
    rw [hsame]
  · rw [funded, if_neg hfund]

variable {f}

/-- The loops over answers and consultations, when they run. -/
theorem consultations_ok {objects : VoteStepLocals}
    (h : (if f.deployed.dao then stepConsultations f.context f.funded else .ok f.funded) =
      .ok objects) :
    objects = { f.funded with
        answers := objects.answers, consultations := objects.consultations
        mapConsensusToChange := objects.mapConsensusToChange } ∧
      (f.deployed.dao = true → ConsultationsLoop f.context f.funded objects) ∧
      (f.deployed.dao = false → objects = f.funded) := by
  have hsynced := f.counted_ok.synced
  have hcons : f.funded.consultations = f.counted.consultations := by rw [f.funded_frame]
  have hanswers : f.funded.answers = f.counted.answers := by rw [f.funded_frame]
  cases hdao : f.deployed.dao with
  | false =>
    rw [hdao] at h
    have hsame := (Except.ok.inj h).symm
    exact ⟨by rw [hsame], by simp, fun _ => hsame⟩
  | true =>
    rw [hdao] at h
    have hloop := stepConsultations_ok rfl (hcons ▸ hsynced.consultations)
      (hanswers ▸ hsynced.answers) h
    exact ⟨hloop.frame, fun _ => hloop, by simp⟩

end ForwardStep

/-- The outcome of a step that looks at objects. -/
structure ForwardStep.Outcome (f : ForwardStep) (objects : VoteStepLocals) (r : VoteStepResult) :
    Prop where
  blocks : ∀ p ∈ f.start.requests.copy.entries, p.txblockhash ≠ 0 →
    (f.nd.mapBlockIndex p.txblockhash).isSome
  consultations : (if f.deployed.dao then stepConsultations f.context f.funded else .ok f.funded) =
    .ok objects
  caches : r.caches = f.scanned
  nCFSupply : r.nCFSupply = f.funded.nCFSupply
  nCFLocked : r.nCFLocked = f.funded.nCFLocked
  view : r.view = VoteStepLocals.view { resetVotes f.context objects with
    rest := changeParameters f.context objects.mapConsensusToChange f.counted.rest }

/-- **What a step returns.** -/
theorem ForwardStep.run_ok {f : ForwardStep} {r : VoteStepResult} (h : f.run = .ok r) :
    f.nCycleLength ≠ 0 ∧
      (f.deployed.communityFund = false ∧ f.deployed.dao = false ∧
          r = ⟨f.view, f.nCFSupply, f.nCFLocked, f.caches⟩ ∨
        ∃ objects, f.Outcome objects r) := by
  unfold run voteStep at h
  simp only [Except.bind_eq_ok_iff, Except.rejectIf_eq_ok_iff] at h
  obtain ⟨_, hlength, h⟩ := h
  refine ⟨hlength, ?_⟩
  split at h
  · next hidle =>
    simp only [Bool.and_eq_true, Bool.not_eq_true'] at hidle
    exact .inl ⟨hidle.1, hidle.2, (Except.ok.inj h).symm⟩
  · right
    rw [Except.bind_eq_ok_iff] at h
    obtain ⟨s, hs, h⟩ := h
    have hs' : stepObjects f.context f.scanned f.nCFSupply f.nCFLocked f.view = .ok s := hs
    unfold stepObjects at hs'
    simp only [Except.bind_eq_ok_iff, Except.rejectIf_eq_ok_iff] at hs'
    obtain ⟨_, hblocks, objects, hobjects, hs'⟩ := hs'
    have hobjects' : (if f.deployed.dao then stepConsultations f.context f.funded
        else .ok f.funded) = .ok objects := hobjects
    obtain ⟨hframe, _, _⟩ := consultations_ok hobjects'
    have hreset := resetVotes_ok (x := f.context) objects
    have hrest : objects.rest = f.counted.rest := by
      rw [hframe]
      rw [f.funded_frame]
    have hsupply : objects.nCFSupply = f.funded.nCFSupply := by rw [hframe]
    have hlocked : objects.nCFLocked = f.funded.nCFLocked := by rw [hframe]
    have hs'' := (Except.ok.inj hs').symm
    have hr := (Except.ok.inj h).symm
    subst hs''
    refine ⟨objects, ?_, hobjects', ?_, ?_, ?_, ?_⟩
    · intro p hp hne
      by_contra hnone
      refine hblocks ?_
      rw [List.any_eq_true]
      refine ⟨p, hp, ?_⟩
      simp only [Bool.and_eq_true, bne_iff_ne, ne_eq]
      exact ⟨hne, Option.isNone_iff_eq_none.mpr (Option.not_isSome_iff_eq_none.mp hnone)⟩
    · rw [hr]
      rfl
    · rw [hr]
      exact hreset.nCFSupply.trans hsupply
    · rw [hr]
      exact hreset.nCFLocked.trans hlocked
    · rw [hr]
      rw [hreset.changes, hreset.rest, hrest]
      rfl

end Navcoin
