import Navcoin.Dao.VoteStep

/-!
# What counting the votes does

The first part of a step forward, up to the next states: the counts go to the objects that can be
voted on, the copies are brought up to date and nothing else changes.

* `countedProposal`, `countedRequest`: a proposal and a payment request after the count;
* `updateVotes_ok`: the state after the count.
-/

namespace Navcoin

/-! ## Objects that differ in their counts -/

def CProposal.Recounted (p q : CProposal) : Prop :=
  q = { p with nVotesYes := q.nVotesYes, nVotesNo := q.nVotesNo, nVotesAbs := q.nVotesAbs }

def CPaymentRequest.Recounted (p q : CPaymentRequest) : Prop :=
  q = { p with nVotesYes := q.nVotesYes, nVotesNo := q.nVotesNo, nVotesAbs := q.nVotesAbs }

def CConsultation.Recounted (c d : CConsultation) : Prop :=
  d = { c with nSupport := d.nSupport, mapVotes := d.mapVotes }

def CConsultationAnswer.Recounted (a b : CConsultationAnswer) : Prop :=
  b = { a with nSupport := b.nSupport, nVotes := b.nVotes }

theorem CProposal.hash_withVotes (t : Tally) (p : CProposal) : (p.withVotes t).hash = p.hash := rfl

theorem CPaymentRequest.hash_withVotes (t : Tally) (p : CPaymentRequest) :
    (p.withVotes t).hash = p.hash := rfl

theorem CProposal.Recounted.refl (p : CProposal) : p.Recounted p := rfl

theorem CProposal.Recounted.hash_eq {p q : CProposal} (h : p.Recounted q) : q.hash = p.hash :=
  (congrArg CProposal.hash h : _)

theorem CProposal.Recounted.trans {p q t : CProposal} (h : p.Recounted q) (h' : q.Recounted t) :
    p.Recounted t := Eq.trans h' (by rw [h])

theorem CPaymentRequest.Recounted.refl (p : CPaymentRequest) : p.Recounted p := rfl

theorem CPaymentRequest.Recounted.hash_eq {p q : CPaymentRequest} (h : p.Recounted q) :
    q.hash = p.hash := (congrArg CPaymentRequest.hash h : _)

theorem CPaymentRequest.Recounted.trans {p q t : CPaymentRequest} (h : p.Recounted q)
    (h' : q.Recounted t) : p.Recounted t := Eq.trans h' (by rw [h])

theorem CConsultation.Recounted.refl (c : CConsultation) : c.Recounted c := rfl

theorem CConsultation.Recounted.hash_eq {c d : CConsultation} (h : c.Recounted d) :
    d.hash = c.hash := (congrArg CConsultation.hash h : _)

theorem CConsultation.Recounted.trans {c d e : CConsultation} (h : c.Recounted d)
    (h' : d.Recounted e) : c.Recounted e := Eq.trans h' (by rw [h])

theorem CConsultationAnswer.Recounted.refl (a : CConsultationAnswer) : a.Recounted a := rfl

theorem CConsultationAnswer.Recounted.hash_eq {a b : CConsultationAnswer} (h : a.Recounted b) :
    b.hash = a.hash := (congrArg CConsultationAnswer.hash h : _)

theorem CConsultationAnswer.Recounted.trans {a b c : CConsultationAnswer} (h : a.Recounted b)
    (h' : b.Recounted c) : a.Recounted c := Eq.trans h' (by rw [h])

theorem CConsultation.recounted_withSupport (nSupport : Int) (c : CConsultation) :
    c.Recounted (c.withSupport nSupport) := rfl

theorem CConsultationAnswer.recounted_withSupport (nSupport : Int) (a : CConsultationAnswer) :
    a.Recounted (a.withSupport nSupport) := rfl

theorem CConsultationAnswer.recounted_withVotes (nVotes : Int) (a : CConsultationAnswer) :
    a.Recounted (a.withVotes nVotes) := rfl

theorem CConsultation.recounted_withVote (fClear : Bool) (vote nVotes : Int) (c : CConsultation) :
    c.Recounted ((if fClear then c.clearVotes else c).withVote vote nVotes) := by
  cases fClear <;> rfl

theorem exists_of_any_eq_true {α : Type} {o : Option α} {f : α → Bool} (h : o.any f = true) :
    ∃ a, o = some a := by
  cases o with
  | none => cases h
  | some a => exact ⟨a, rfl⟩

variable {s : VoteStepLocals} {r : DaoRules}

section Forward

variable {x : VoteStepContext}

/-! ## Proposals -/

/-- The votes on a proposal are counted in this step. -/
def votableProposal (x : VoteStepContext) (proposals : OrderedMap CProposal.hash) (k : Uint256) :
    Bool :=
  (proposals.find? k).any fun p =>
    (x.blockOf p.txblockhash).isSome && p.canVote x.toDaoRules

theorem applyProposalVotes_forward (hx : x.pindexDelete = none) (s : VoteStepLocals)
    (it : Uint256 × Tally) :
    applyProposalVotes x s it =
      if votableProposal x s.proposals.copy it.1 then
        { s with
          proposals := s.proposals.touch it.1 (.withVotes it.2)
          mapSeen := it.1 :: s.mapSeen }
      else s := by
  unfold applyProposalVotes votableProposal
  cases s.proposals.copy.find? it.1 with
  | none => rfl
  | some p =>
    cases hblock : x.blockOf p.txblockhash with
    | none => simp [hblock]
    | some pblockindex =>
      simp only [hx, hblock, Option.any_some, Option.isSome_some, Bool.true_and]
      rfl

/-- The keys of a map of counts that satisfy `c`. -/
def keysWhere {β : Type} (c : Uint256 → Bool) (l : List (Uint256 × β)) : List Uint256 :=
  (l.map Prod.fst).filter c

theorem foldl_applyProposalVotes (hx : x.pindexDelete = none) (l : List (Uint256 × Tally))
    (s : VoteStepLocals) :
    l.foldl (applyProposalVotes x) s =
      { s with
        proposals := s.proposals.touchAll (votableProposal x s.proposals.copy)
          CProposal.withVotes l
        mapSeen := (keysWhere (votableProposal x s.proposals.copy) l).reverse ++ s.mapSeen } := by
  induction l generalizing s with
  | nil => rfl
  | cons it l ih =>
    rw [List.foldl_cons, applyProposalVotes_forward hx]
    by_cases h : votableProposal x s.proposals.copy it.1 = true
    · rw [if_pos h, ih]
      simp [h, keysWhere, MirroredMap.touchAll]
    · rw [if_neg h, ih]
      simp [h, keysWhere, MirroredMap.touchAll]

/-! ## Payment requests -/

/-- The votes on a payment request are counted in this step. -/
def votableRequest (x : VoteStepContext) (requests : OrderedMap CPaymentRequest.hash)
    (view : DaoView) (k : Uint256) : Bool :=
  (requests.find? k).any fun p =>
    (x.blockOf p.txblockhash).isSome && p.canVote x.toDaoRules view

theorem applyPaymentRequestVotes_forward (hx : x.pindexDelete = none) (s : VoteStepLocals)
    (it : Uint256 × Tally) :
    applyPaymentRequestVotes x s it =
      if votableRequest x s.requests.copy s.view it.1 then
        { s with
          requests := s.requests.touch it.1 (.withVotes it.2)
          mapSeen := it.1 :: s.mapSeen }
      else s := by
  unfold applyPaymentRequestVotes votableRequest
  cases s.requests.copy.find? it.1 with
  | none => rfl
  | some p =>
    cases hblock : x.blockOf p.txblockhash with
    | none => simp [hblock]
    | some pblockindex =>
      simp only [hx, hblock, Option.any_some, Option.isSome_some, Bool.true_and]
      rfl

/-- What is left of a proposal does not depend on the counts. -/
theorem getAvailable_congr {view view' : DaoView}
    (h : ∀ hash, (view'.paymentRequests.entries.map (CProposal.chargeOf r hash)).sum =
      (view.paymentRequests.entries.map (CProposal.chargeOf r hash)).sum) (p : CProposal) :
    p.getAvailable r view' = p.getAvailable r view := by
  rw [CProposal.getAvailable_eq, CProposal.getAvailable_eq, h]

theorem CPaymentRequest.canVote_congr {view view' : DaoView}
    (hproposals : view'.proposals = view.proposals)
    (h : ∀ hash, (view'.paymentRequests.entries.map (CProposal.chargeOf r hash)).sum =
      (view.paymentRequests.entries.map (CProposal.chargeOf r hash)).sum) (p : CPaymentRequest) :
    p.canVote r view' = p.canVote r view := by
  have hget : view'.getProposal p.proposalhash = view.getProposal p.proposalhash := by
    rw [DaoView.getProposal, DaoView.getProposal, hproposals]
  unfold canVote
  rw [hget]
  cases view.getProposal p.proposalhash with
  | none => rfl
  | some proposal => simp only [getAvailable_congr h]

/-- No request of a proposal that is still open can be voted on. -/
theorem CPaymentRequest.canVote_of_open {view : DaoView} {p : CPaymentRequest}
    (h : ∀ proposal, view.getProposal p.proposalhash = some proposal →
      proposal.getLastState r.mapBlockIndex = .nil) : p.canVote r view = false := by
  unfold canVote
  cases hget : view.getProposal p.proposalhash with
  | none => rfl
  | some proposal => simp [h proposal hget]

theorem votableRequest_touch (s : VoteStepLocals) (k : Uint256) (t : Tally) :
    votableRequest x (s.requests.touch k (.withVotes t)).copy
        { s with requests := s.requests.touch k (.withVotes t) }.view =
      votableRequest x s.requests.copy s.view := by
  funext k'
  unfold votableRequest
  rw [MirroredMap.copy_touch]
  congr 1
  funext p
  congr 1
  apply CPaymentRequest.canVote_congr
  · rfl
  · intro hash
    show ((s.requests.touch k (.withVotes t)).stored.entries.map _).sum = _
    rw [MirroredMap.stored_touch]
    apply OrderedMap.sum_modify_of_eq
    · intro _
      rfl
    · intro _
      rfl

theorem foldl_applyPaymentRequestVotes (hx : x.pindexDelete = none) (l : List (Uint256 × Tally))
    (s : VoteStepLocals) :
    l.foldl (applyPaymentRequestVotes x) s =
      { s with
        requests := s.requests.touchAll (votableRequest x s.requests.copy s.view)
          CPaymentRequest.withVotes l
        mapSeen := (keysWhere (votableRequest x s.requests.copy s.view) l).reverse ++
          s.mapSeen } := by
  induction l generalizing s with
  | nil => rfl
  | cons it l ih =>
    rw [List.foldl_cons, applyPaymentRequestVotes_forward hx]
    by_cases h : votableRequest x s.requests.copy s.view it.1 = true
    · have hsame := votableRequest_touch (x := x) s it.1 it.2
      have hview : ({ s with
          requests := s.requests.touch it.1 (.withVotes it.2)
          mapSeen := it.1 :: s.mapSeen } : VoteStepLocals).view =
          { s with requests := s.requests.touch it.1 (.withVotes it.2) }.view := rfl
      rw [if_pos h, ih]
      simp only [hview, hsame]
      simp [h, keysWhere, MirroredMap.touchAll]
    · rw [if_neg h, ih]
      simp [h, keysWhere, MirroredMap.touchAll]

/-! ## Consultations and answers -/

/-- A pass that changes nothing but counts of consultations and answers. -/
structure CountsConsultations (s₀ s : VoteStepLocals) : Prop where
  frame : s = { s₀ with
    consultations := s.consultations, answers := s.answers, mapSeen := s.mapSeen
    mapSeenSupport := s.mapSeenSupport, mapAlreadyCleared := s.mapAlreadyCleared }
  tracks : MirroredMap.Tracks Eq s₀.consultations s.consultations
  tracksAnswers : MirroredMap.Tracks Eq s₀.answers s.answers
  kept : s₀.consultations.stored.Kept CConsultation.Recounted s.consultations.stored
  keptAnswers : s₀.answers.stored.Kept CConsultationAnswer.Recounted s.answers.stored
  seen : s₀.mapSeen ⊆ s.mapSeen

namespace CountsConsultations

variable {s₀ s : VoteStepLocals}

theorem refl (h : s₀.consultations.updates = ∅) (h' : s₀.answers.updates = ∅) :
    CountsConsultations s₀ s₀ :=
  ⟨rfl, .refl (fun _ => rfl) h, .refl (fun _ => rfl) h', .refl CConsultation.Recounted.refl _,
    .refl CConsultationAnswer.Recounted.refl _, List.Subset.refl _⟩

theorem touchConsultation (h : CountsConsultations s₀ s) {k : Uint256} {c : CConsultation}
    (hc : s.consultations.copy.find? k = some c) {f : CConsultation → CConsultation}
    (hf : ∀ c : CConsultation, c.Recounted (f c)) {mapSeen : List Uint256}
    (hseen : s.mapSeen ⊆ mapSeen) (mapSeenSupport mapAlreadyCleared : List Uint256) :
    CountsConsultations s₀ { s with
      consultations := s.consultations.touch c.hash f, mapSeen := mapSeen
      mapSeenSupport := mapSeenSupport, mapAlreadyCleared := mapAlreadyCleared } := by
  have hhash : ∀ c, (f c).hash = c.hash := fun c => (hf c).hash_eq
  rw [h.tracks.copy, ← OrderedMap.key_of_find? hc] at hc
  refine ⟨?_, h.tracks.touch (fun _ => rfl) hhash ⟨c, hc⟩, h.tracksAnswers, ?_, h.keptAnswers,
    List.Subset.trans h.seen hseen⟩
  · conv => lhs; rw [h.frame]
  · rw [MirroredMap.stored_touch]
    exact h.kept.modify hhash (fun c d hcd => hcd.trans (hf d)) c.hash

theorem touchConsultationAnswer (h : CountsConsultations s₀ s) {k : Uint256}
    {a : CConsultationAnswer} (ha : s.answers.copy.find? k = some a)
    {f : CConsultationAnswer → CConsultationAnswer}
    (hf : ∀ a : CConsultationAnswer, a.Recounted (f a)) {mapSeen : List Uint256}
    (hseen : s.mapSeen ⊆ mapSeen) (mapSeenSupport : List Uint256) :
    CountsConsultations s₀ { s with
      answers := s.answers.touch a.hash f, mapSeen := mapSeen
      mapSeenSupport := mapSeenSupport } := by
  have hhash : ∀ a, (f a).hash = a.hash := fun a => (hf a).hash_eq
  rw [h.tracksAnswers.copy, ← OrderedMap.key_of_find? ha] at ha
  refine ⟨?_, h.tracks, h.tracksAnswers.touch (fun _ => rfl) hhash ⟨a, ha⟩, h.kept, ?_,
    List.Subset.trans h.seen hseen⟩
  · conv => lhs; rw [h.frame]
  · rw [MirroredMap.stored_touch]
    exact h.keptAnswers.modify hhash (fun a b hab => hab.trans (hf b)) a.hash

theorem applySupport (hx : x.pindexDelete = none) (h : CountsConsultations s₀ s)
    (it : Uint256 × Int) : CountsConsultations s₀ (applySupport x s it) := by
  unfold Navcoin.applySupport
  split
  · next c hc =>
    unfold supportConsultation
    split
    · exact h
    · simp only [hx]
      split
      · exact h.touchConsultation hc (CConsultation.recounted_withSupport _)
          (List.Subset.refl _) _ _
      · exact h
  · split
    · next a ha =>
      unfold supportConsultationAnswer
      split
      · exact h
      · simp only [hx]
        split
        · exact h.touchConsultationAnswer ha (CConsultationAnswer.recounted_withSupport _)
            (List.Subset.refl _) _
        · exact h
    · exact h

theorem applyConsultationVotes (hx : x.pindexDelete = none) (h : CountsConsultations s₀ s)
    (it : ConsultationVote × Int) : CountsConsultations s₀ (applyConsultationVotes x s it) := by
  unfold Navcoin.applyConsultationVotes
  split
  · next c hc =>
    unfold voteConsultation
    split
    · exact h
    · simp only [hx]
      split
      · exact h.touchConsultation hc (CConsultation.recounted_withVote _ _ _)
          (List.subset_cons_self _ _) _ _
      · exact h
  · split
    · next a ha =>
      unfold voteConsultationAnswer
      split
      · exact h
      · simp only [hx]
        split
        · exact h.touchConsultationAnswer ha (CConsultationAnswer.recounted_withVotes _)
            (List.subset_cons_self _ _) _
        · exact h
    · exact h

end CountsConsultations

/-- The copies are those of the objects in the view, and nothing waits to be copied. -/
structure Synced (s : VoteStepLocals) : Prop where
  proposals : s.proposals.Agrees Eq
  requests : s.requests.Agrees Eq
  consultations : s.consultations.Agrees Eq
  answers : s.answers.Agrees Eq
  noProposals : s.proposals.updates = ∅
  noRequests : s.requests.updates = ∅
  noConsultations : s.consultations.updates = ∅
  noAnswers : s.answers.updates = ∅

/-- What the votes on consultations change. -/
structure ConsultationVotesUpdated (s s' : VoteStepLocals) : Prop where
  frame : s' = { s with
    consultations := s'.consultations, answers := s'.answers, mapSeen := s'.mapSeen
    mapSeenSupport := s'.mapSeenSupport, mapAlreadyCleared := s'.mapAlreadyCleared }
  synced : Synced s'
  kept : s.consultations.stored.Kept CConsultation.Recounted s'.consultations.stored
  keptAnswers : s.answers.stored.Kept CConsultationAnswer.Recounted s'.answers.stored
  keys : ∀ k, s'.consultations.copy.find? k = none ↔ s.consultations.copy.find? k = none
  keysAnswers : ∀ k, s'.answers.copy.find? k = none ↔ s.answers.copy.find? k = none
  seen : s.mapSeen ⊆ s'.mapSeen

/-- One pass with the update of the copies at its end. -/
theorem CountsConsultations.flushed {s₀ : VoteStepLocals} (h : CountsConsultations s₀ s)
    (h₀ : Synced s₀) : ConsultationVotesUpdated s₀ s.flushConsultations := by
  refine ⟨?_, ?_, h.kept, h.keptAnswers, MirroredMap.find?_copy_flush_eq_none_iff h.tracks,
    MirroredMap.find?_copy_flush_eq_none_iff h.tracksAnswers, h.seen⟩
  · unfold VoteStepLocals.flushConsultations
    conv => lhs; rw [h.frame]
  · have hproposals : s.proposals = s₀.proposals := by rw [h.frame]
    have hrequests : s.requests = s₀.requests := by rw [h.frame]
    refine ⟨?_, ?_, MirroredMap.agrees_flush h₀.consultations h.tracks,
      MirroredMap.agrees_flush h₀.answers h.tracksAnswers, ?_, ?_, rfl, rfl⟩
    · exact hproposals ▸ h₀.proposals
    · exact hrequests ▸ h₀.requests
    · exact hproposals ▸ h₀.noProposals
    · exact hrequests ▸ h₀.noRequests

theorem ConsultationVotesUpdated.trans {s₁ s₂ s₃ : VoteStepLocals}
    (h : ConsultationVotesUpdated s₁ s₂) (h' : ConsultationVotesUpdated s₂ s₃) :
    ConsultationVotesUpdated s₁ s₃ := by
  refine ⟨?_, h'.synced, h.kept.trans h'.kept fun _ _ _ => .trans,
    h.keptAnswers.trans h'.keptAnswers fun _ _ _ => .trans,
    fun k => (h'.keys k).trans (h.keys k), fun k => (h'.keysAnswers k).trans (h.keysAnswers k),
    List.Subset.trans h.seen h'.seen⟩
  rw [h'.frame]
  conv => lhs; rw [h.frame]

theorem ConsultationVotesUpdated.refl (h : Synced s) :
    ConsultationVotesUpdated s s :=
  ⟨rfl, h, .refl CConsultation.Recounted.refl _, .refl CConsultationAnswer.Recounted.refl _,
    fun _ => Iff.rfl, fun _ => Iff.rfl, List.Subset.refl _⟩

theorem updateConsultationVotes_ok (hx : x.pindexDelete = none) (caches : VoteCaches)
    (h : Synced s) :
    ConsultationVotesUpdated s (updateConsultationVotes x caches s) := by
  have hsupport : CountsConsultations s
      (caches.mapCacheSupportToUpdate.entries.foldl (applySupport x) s) := by
    apply List.foldlRecOn
    · exact .refl h.noConsultations h.noAnswers
    · intro t ht it _
      exact ht.applySupport hx it
  have hfirst := hsupport.flushed h
  refine hfirst.trans (CountsConsultations.flushed ?_ hfirst.synced)
  apply List.foldlRecOn
  · exact .refl rfl rfl
  · intro t ht it _
    exact ht.applyConsultationVotes hx it

/-! ## The fund -/

/-- A proposal after the count. -/
def countedProposal (x : VoteStepContext) (caches : VoteCaches) (s : VoteStepLocals)
    (p : CProposal) : CProposal :=
  match caches.mapCacheProposalsToUpdate.find? p.hash with
  | some it => if votableProposal x s.proposals.copy p.hash then p.withVotes it.2 else p
  | none => p

/-- A payment request after the count. -/
def countedRequest (x : VoteStepContext) (caches : VoteCaches) (s : VoteStepLocals)
    (p : CPaymentRequest) : CPaymentRequest :=
  match caches.mapCachePaymentRequestToUpdate.find? p.hash with
  | some it => if votableRequest x s.requests.copy s.view p.hash then p.withVotes it.2 else p
  | none => p

section Counted

variable (caches : VoteCaches) (s : VoteStepLocals)

theorem countedProposal_recounted (p : CProposal) : p.Recounted (countedProposal x caches s p) := by
  unfold countedProposal
  split
  · split <;> rfl
  · rfl

theorem countedRequest_recounted (p : CPaymentRequest) :
    p.Recounted (countedRequest x caches s p) := by
  unfold countedRequest
  split
  · split <;> rfl
  · rfl

theorem find?_touchAll_proposals (k : Uint256) :
    (s.proposals.touchAll (votableProposal x s.proposals.copy) CProposal.withVotes
      caches.mapCacheProposalsToUpdate.entries).stored.find? k =
      (s.proposals.stored.find? k).map (countedProposal x caches s) :=
  MirroredMap.find?_stored_touchAll CProposal.hash_withVotes _ _
    (fun p hp => by rw [countedProposal, hp]) (fun p it hp => by rw [countedProposal, hp]) k

theorem find?_touchAll_requests (k : Uint256) :
    (s.requests.touchAll (votableRequest x s.requests.copy s.view) CPaymentRequest.withVotes
      caches.mapCachePaymentRequestToUpdate.entries).stored.find? k =
      (s.requests.stored.find? k).map (countedRequest x caches s) :=
  MirroredMap.find?_stored_touchAll CPaymentRequest.hash_withVotes _ _
    (fun p hp => by rw [countedRequest, hp]) (fun p it hp => by rw [countedRequest, hp]) k

end Counted

/-- Whether a request can be voted on does not depend on the votes on proposals: those that are
counted are on proposals that are still open. -/
theorem canVote_countedProposals {caches : VoteCaches}
    (h : s.proposals.Agrees Eq) {proposals : OrderedMap CProposal.hash}
    (hp : ∀ k, proposals.find? k = (s.proposals.stored.find? k).map (countedProposal x caches s))
    (p : CPaymentRequest) :
    p.canVote x.toDaoRules { s.view with proposals := proposals } =
      p.canVote x.toDaoRules s.view := by
  have havailable : ∀ q : CProposal,
      q.getAvailable x.toDaoRules { s.view with proposals := proposals } =
        q.getAvailable x.toDaoRules s.view := getAvailable_congr fun _ => rfl
  have hget : DaoView.getProposal { s.view with proposals := proposals } p.proposalhash =
      ((s.proposals.stored.find? p.proposalhash).map (countedProposal x caches s)).filter
        fun p => !p.isNull := congrArg _ (hp _)
  have hget' : s.view.getProposal p.proposalhash =
      (s.proposals.stored.find? p.proposalhash).filter fun p => !p.isNull := rfl
  cases hq : s.proposals.stored.find? p.proposalhash with
  | none =>
    unfold CPaymentRequest.canVote
    rw [hget, hget', hq]
    rfl
  | some q =>
    by_cases hopen : q.getLastState x.mapBlockIndex = .nil
    · have hopen' : (countedProposal x caches s q).getLastState x.mapBlockIndex = .nil := by
        rw [countedProposal_recounted caches s q]
        exact hopen
      rw [CPaymentRequest.canVote_of_open, CPaymentRequest.canVote_of_open]
      · intro t ht
        rw [hget', hq] at ht
        rw [← (Option.some.inj (Option.filter_eq_some_iff.mp ht).1)]
        exact hopen
      · intro t ht
        rw [hget, hq] at ht
        rw [← (Option.some.inj (Option.filter_eq_some_iff.mp ht).1)]
        exact hopen'
    · have hsame : countedProposal x caches s q = q := by
        unfold countedProposal
        split
        · split
          · next hvotable =>
            -- what is counted is open in the copy, which is what is stored
            unfold votableProposal at hvotable
            cases hc : s.proposals.copy.find? q.hash with
            | none => simp [hc] at hvotable
            | some c =>
              obtain ⟨b, hb, rfl⟩ := h _ _ hc
              rw [OrderedMap.key_of_find? hq, hq] at hb
              cases hb
              simp [hc, CProposal.canVote, hopen] at hvotable
          · rfl
        · rfl
      unfold CPaymentRequest.canVote
      rw [hget, hget', hq, Option.map_some, hsame]
      simp only [havailable]

/-- What the votes on proposals and requests change. -/
structure FundVotesUpdated (x : VoteStepContext) (caches : VoteCaches) (s s' : VoteStepLocals) :
    Prop where
  frame : s' = { s with
    proposals := s'.proposals, requests := s'.requests, mapSeen := s'.mapSeen }
  synced : Synced s'
  proposals : ∀ k, s'.proposals.stored.find? k = (s.proposals.stored.find? k).map
    fun p => if x.fCFund then countedProposal x caches s p else p
  requests : ∀ k, s'.requests.stored.find? k = (s.requests.stored.find? k).map
    fun p => if x.fCFund then countedRequest x caches s p else p
  keys : ∀ k, s'.proposals.copy.find? k = none ↔ s.proposals.copy.find? k = none
  keysRequests : ∀ k, s'.requests.copy.find? k = none ↔ s.requests.copy.find? k = none
  seenProposals : x.fCFund = true → keysWhere (votableProposal x s.proposals.copy)
    caches.mapCacheProposalsToUpdate.entries ⊆ s'.mapSeen
  seenRequests : x.fCFund = true → keysWhere (votableRequest x s.requests.copy s.view)
    caches.mapCachePaymentRequestToUpdate.entries ⊆ s'.mapSeen

theorem updateFundVotes_ok (hx : x.pindexDelete = none) (hfund : x.fCFund = true)
    (caches : VoteCaches) (h : Synced s) :
    FundVotesUpdated x caches s (updateFundVotes x caches s) := by
  let proposals := s.proposals.touchAll (votableProposal x s.proposals.copy) CProposal.withVotes
    caches.mapCacheProposalsToUpdate.entries
  let requests := s.requests.touchAll (votableRequest x s.requests.copy s.view)
    CPaymentRequest.withVotes caches.mapCachePaymentRequestToUpdate.entries
  have htracks : MirroredMap.Tracks Eq s.proposals proposals :=
    MirroredMap.tracks_touchAll (fun _ => rfl) CProposal.hash_withVotes
      (fun _ => exists_of_any_eq_true) _ (.refl (fun _ => rfl) h.noProposals)
  have htracksRequests : MirroredMap.Tracks Eq s.requests requests :=
    MirroredMap.tracks_touchAll (fun _ => rfl) CPaymentRequest.hash_withVotes
      (fun _ => exists_of_any_eq_true) _ (.refl (fun _ => rfl) h.noRequests)
  -- the votes on proposals do not show in what can be voted on afterwards
  have hvotable : votableRequest x s.requests.copy { s.view with proposals := proposals.stored } =
      votableRequest x s.requests.copy s.view := by
    unfold votableRequest
    simp only [proposals, canVote_countedProposals h.proposals (find?_touchAll_proposals caches s)]
  have hrun : updateFundVotes x caches s = { s with
      proposals := proposals.flush
      requests := requests.flush
      mapSeen := (keysWhere (votableRequest x s.requests.copy s.view)
          caches.mapCachePaymentRequestToUpdate.entries).reverse ++
        ((keysWhere (votableProposal x s.proposals.copy)
          caches.mapCacheProposalsToUpdate.entries).reverse ++ s.mapSeen) } := by
    unfold updateFundVotes
    rw [foldl_applyProposalVotes hx]
    dsimp only
    rw [foldl_applyPaymentRequestVotes hx]
    change votableRequest x s.requests.copy (VoteStepLocals.view { s with
      proposals := proposals.flush
      mapSeen := (keysWhere (votableProposal x s.proposals.copy)
        caches.mapCacheProposalsToUpdate.entries).reverse ++ s.mapSeen }) = _ at hvotable
    rw [hvotable]
  rw [hrun]
  refine ⟨rfl, ⟨MirroredMap.agrees_flush h.proposals htracks,
    MirroredMap.agrees_flush h.requests htracksRequests, h.consultations, h.answers, rfl, rfl,
    h.noConsultations, h.noAnswers⟩, ?_, ?_, MirroredMap.find?_copy_flush_eq_none_iff htracks,
    MirroredMap.find?_copy_flush_eq_none_iff htracksRequests, fun _ k hk => ?_, fun _ k hk => ?_⟩
  · simp only [hfund, if_true]
    exact find?_touchAll_proposals caches s
  · simp only [hfund, if_true]
    exact find?_touchAll_requests caches s
  · exact List.mem_append_right _ (List.mem_append_left _ (List.mem_reverse.mpr hk))
  · exact List.mem_append_left _ (List.mem_reverse.mpr hk)

theorem FundVotesUpdated.refl (hfund : x.fCFund = false)
    (caches : VoteCaches) (h : Synced s) : FundVotesUpdated x caches s s := by
  refine ⟨rfl, h, ?_, ?_, fun _ => Iff.rfl, fun _ => Iff.rfl, ?_, ?_⟩
  · simp [hfund]
  · simp [hfund]
  · simp [hfund]
  · simp [hfund]

/-! ## All votes -/

/-- What the count changes. -/
structure VotesUpdated (x : VoteStepContext) (caches : VoteCaches) (s s' : VoteStepLocals) :
    Prop where
  rest : s'.rest = { s.rest with nExcludeVotes := caches.nCacheExclude }
  nCFSupply : s'.nCFSupply = s.nCFSupply
  nCFLocked : s'.nCFLocked = s.nCFLocked
  vClearAnswers : s'.vClearAnswers = s.vClearAnswers
  changes : s'.mapConsensusToChange = s.mapConsensusToChange
  synced : Synced s'
  proposals : ∀ k, s'.proposals.stored.find? k = (s.proposals.stored.find? k).map
    fun p => if x.fCFund then countedProposal x caches s p else p
  requests : ∀ k, s'.requests.stored.find? k = (s.requests.stored.find? k).map
    fun p => if x.fCFund then countedRequest x caches s p else p
  consultations : s.consultations.stored.Kept CConsultation.Recounted s'.consultations.stored
  answers : s.answers.stored.Kept CConsultationAnswer.Recounted s'.answers.stored
  keys : ∀ k, s'.proposals.copy.find? k = none ↔ s.proposals.copy.find? k = none
  keysRequests : ∀ k, s'.requests.copy.find? k = none ↔ s.requests.copy.find? k = none
  keysConsultations : ∀ k,
    s'.consultations.copy.find? k = none ↔ s.consultations.copy.find? k = none
  keysAnswers : ∀ k, s'.answers.copy.find? k = none ↔ s.answers.copy.find? k = none
  seenProposals : x.fCFund = true → keysWhere (votableProposal x s.proposals.copy)
    caches.mapCacheProposalsToUpdate.entries ⊆ s'.mapSeen
  seenRequests : x.fCFund = true → keysWhere (votableRequest x s.requests.copy s.view)
    caches.mapCachePaymentRequestToUpdate.entries ⊆ s'.mapSeen

/-- **The count of the votes**, in a step forward. -/
theorem updateVotes_ok (hx : x.pindexDelete = none) (caches : VoteCaches)
    (h : Synced s) : VotesUpdated x caches s (updateVotes x caches s) := by
  have hfund : FundVotesUpdated x caches s
      (if x.fCFund then updateFundVotes x caches s else s) := by
    split
    · next hc => exact updateFundVotes_ok hx hc caches h
    · next hc => exact .refl (by simpa using hc) caches h
  unfold updateVotes
  generalize (if x.fCFund then updateFundVotes x caches s else s) = t at hfund
  have hcons : ConsultationVotesUpdated t
      (if x.fDAOConsultations then updateConsultationVotes x caches t else t) := by
    split
    · exact updateConsultationVotes_ok hx caches hfund.synced
    · exact .refl hfund.synced
  dsimp only
  generalize (if x.fDAOConsultations then updateConsultationVotes x caches t else t) = u at hcons
  have ht := hfund.frame
  have hu := hcons.frame
  have hproposals : u.proposals = t.proposals := by rw [hu]
  have hrequests : u.requests = t.requests := by rw [hu]
  have hconsultations : t.consultations = s.consultations := by rw [ht]
  have hanswers : t.answers = s.answers := by rw [ht]
  have hrest : u.rest = s.rest := by rw [hu, ht]
  exact
    { rest := congrArg (fun v : DaoView => { v with nExcludeVotes := caches.nCacheExclude }) hrest
      nCFSupply := by rw [hu, ht]
      nCFLocked := by rw [hu, ht]
      vClearAnswers := by rw [hu, ht]
      changes := by rw [hu, ht]
      synced := { hcons.synced with }
      proposals := hproposals ▸ hfund.proposals
      requests := hrequests ▸ hfund.requests
      consultations := hconsultations ▸ hcons.kept
      answers := hanswers ▸ hcons.keptAnswers
      keys := hproposals ▸ hfund.keys
      keysRequests := hrequests ▸ hfund.keysRequests
      keysConsultations := hconsultations ▸ hcons.keys
      keysAnswers := hanswers ▸ hcons.keysAnswers
      seenProposals := fun hc => List.Subset.trans (hfund.seenProposals hc) hcons.seen
      seenRequests := fun hc => List.Subset.trans (hfund.seenRequests hc) hcons.seen }

end Forward

end Navcoin
