import Navcoin.Validation.ProgramKeys

/-!
# The DAO objects of a connected block

Connecting a block adds objects without a state, adds answers to consultations, and moves the
requests that the coinbase pays to `PAID`.  Every other object stays as it is.

* `DaoGrown`: what the transactions of a block may do to the objects;
* `payOutputs_requests`: the requests after the payments;
* `connectBlock_objects`: the objects after a block.
-/

namespace Navcoin

variable {c : CConsultation} {view : DaoView} {a : CConsultationAnswer}

/-! ## New objects -/

def CProposal.IsNew (p : CProposal) : Prop := p.mapState = [] ∧ 0 ≤ p.nAmount

def CPaymentRequest.IsNew (p : CPaymentRequest) : Prop := p.mapState = []

def CConsultation.IsNew (c : CConsultation) : Prop := c.mapState = []

def CConsultationAnswer.IsNew (a : CConsultationAnswer) : Prop := a.mapState = []

/-- A consultation that got answers. -/
def CConsultation.Answered (c d : CConsultation) : Prop := d = { c with vAnswers := d.vAnswers }

theorem CConsultation.Answered.refl (c : CConsultation) : c.Answered c := rfl

theorem CConsultation.Answered.trans {d e : CConsultation} (h : c.Answered d) (h' : d.Answered e) :
    c.Answered e := Eq.trans h' (by rw [h])

theorem CConsultation.Answered.isNew_iff {d : CConsultation} (h : c.Answered d) :
    c.IsNew ↔ d.IsNew := by
  have hstates : d.mapState = c.mapState := (congrArg CConsultation.mapState h : _)
  rw [IsNew, IsNew, hstates]

variable {id : Uint256}

/-- Null objects count as missing, and are as good as new. -/
theorem DaoView.isNew_of_getProposal (h : view.getProposal id = none) {p : CProposal}
    (hp : view.proposals.find? id = some p) : p.IsNew := by
  have hnull := Option.filter_eq_none_iff.mp h p hp
  simp only [CProposal.isNull, Bool.not_not_eq, Bool.and_eq_true, beq_iff_eq,
    List.isEmpty_iff] at hnull
  exact ⟨hnull.2, by omega⟩

theorem DaoView.isNew_of_getPaymentRequest (h : view.getPaymentRequest id = none)
    {p : CPaymentRequest} (hp : view.paymentRequests.find? id = some p) : p.IsNew := by
  have hnull := Option.filter_eq_none_iff.mp h p hp
  simp only [CPaymentRequest.isNull, Bool.not_not_eq, Bool.and_eq_true, List.isEmpty_iff] at hnull
  exact hnull.2

theorem DaoView.isNew_of_getConsultation (h : view.getConsultation id = none)
    (hc : view.consultations.find? id = some c) : c.IsNew := by
  have hnull := Option.filter_eq_none_iff.mp h c hc
  simp only [CConsultation.isNull, Bool.not_not_eq, Bool.and_eq_true, List.isEmpty_iff] at hnull
  tauto

theorem DaoView.isNew_of_getConsultationAnswer
    (h : view.getConsultationAnswer id = none) (ha : view.answers.find? id = some a) : a.IsNew := by
  have hnull := Option.filter_eq_none_iff.mp h a ha
  simp only [CConsultationAnswer.isNull, Bool.not_not_eq, beq_iff_eq] at hnull
  rw [hnull]
  rfl

/-! ## The transactions -/

/-- What the transactions of a block may do to the objects of a view. -/
structure DaoGrown (view view' : DaoView) : Prop where
  params : view.SameParams view'
  nExcludeVotes : view'.nExcludeVotes = view.nExcludeVotes
  proposals : view.proposals.Grown CProposal.IsNew Eq view'.proposals
  requests : view.paymentRequests.Grown CPaymentRequest.IsNew Eq view'.paymentRequests
  consultations :
    view.consultations.Grown CConsultation.IsNew CConsultation.Answered view'.consultations
  answers : view.answers.Grown CConsultationAnswer.IsNew Eq view'.answers

namespace DaoGrown

variable (view : DaoView)

theorem refl : DaoGrown view view :=
  ⟨.refl view, rfl, .refl (fun _ => rfl) _, .refl (fun _ => rfl) _,
    .refl CConsultation.Answered.refl _, .refl (fun _ => rfl) _⟩

theorem trans {v₁ v₂ v₃ : DaoView} (h : DaoGrown v₁ v₂) (h' : DaoGrown v₂ v₃) :
    DaoGrown v₁ v₃ := by
  refine ⟨h.params.trans h'.params, h'.nExcludeVotes.trans h.nExcludeVotes, ?_, ?_, ?_, ?_⟩
  · exact h.proposals.trans h'.proposals (fun _ _ _ => Eq.trans) (fun _ _ h => h ▸ Iff.rfl)
  · exact h.requests.trans h'.requests (fun _ _ _ => Eq.trans) (fun _ _ h => h ▸ Iff.rfl)
  · exact h.consultations.trans h'.consultations (fun _ _ _ => .trans) (fun _ _ h => h.isNew_iff)
  · exact h.answers.trans h'.answers (fun _ _ _ => Eq.trans) (fun _ _ h => h ▸ Iff.rfl)

theorem of_onlyVotes {view view' : DaoView} (h : OnlyVotes view view') : DaoGrown view view' := by
  rw [h]
  exact { refl view with params := ⟨rfl, rfl⟩ }

theorem setProposal {p : CProposal} (hp : p.IsNew) (hnone : view.getProposal p.hash = none) :
    DaoGrown view (view.setProposal p) :=
  { refl view with
    params := ⟨rfl, rfl⟩
    proposals := .assign (fun _ => rfl) _ hp fun _ h => DaoView.isNew_of_getProposal hnone h }

theorem setPaymentRequest {p : CPaymentRequest} (hp : p.IsNew)
    (hnone : view.getPaymentRequest p.hash = none) : DaoGrown view (view.setPaymentRequest p) :=
  { refl view with
    params := ⟨rfl, rfl⟩
    requests := .assign (fun _ => rfl) _ hp fun _ h => DaoView.isNew_of_getPaymentRequest hnone h }

theorem setConsultation {c : CConsultation} (hc : c.IsNew)
    (hnone : view.getConsultation c.hash = none) : DaoGrown view (view.setConsultation c) :=
  { refl view with
    params := ⟨rfl, rfl⟩
    consultations := .assign CConsultation.Answered.refl _ hc fun _ h =>
      DaoView.isNew_of_getConsultation hnone h }

theorem modifyConsultation (id : Uint256) (f : CConsultation → CConsultation)
    (hf : ∀ c : CConsultation, c.Answered (f c)) :
    DaoGrown view (view.modifyConsultation id f) := by
  have heq : view.modifyConsultation id f =
      { view with consultations := view.consultations.modify id f } := by
    unfold DaoView.modifyConsultation OrderedMap.modify
    cases view.consultations.find? id <;> rfl
  rw [heq]
  refine { refl view with params := ⟨rfl, rfl⟩, consultations := .of_kept ?_ }
  apply OrderedMap.Kept.modify (.refl CConsultation.Answered.refl _)
  · intro c
    exact (congrArg CConsultation.hash (hf c) : _)
  · intro _ d h
    exact h.trans (hf d)

theorem addConsultationAnswer (ha : a.IsNew) : DaoGrown view (view.addConsultationAnswer a) := by
  unfold DaoView.addConsultationAnswer
  split
  · exact refl view
  · next hnone =>
    have hget : view.getConsultationAnswer a.hash = none := by simpa using hnone
    have hparent := modifyConsultation view a.parent
      (fun c => { c with vAnswers := c.vAnswers ++ [a.hash] }) fun _ => rfl
    have hsame : (view.modifyConsultation a.parent fun c =>
        { c with vAnswers := c.vAnswers ++ [a.hash] }).answers = view.answers := by
      unfold DaoView.modifyConsultation
      split <;> rfl
    generalize (view.modifyConsultation a.parent fun c =>
      { c with vAnswers := c.vAnswers ++ [a.hash] }) = t at hparent hsame
    refine hparent.trans { refl t with params := ⟨rfl, rfl⟩, answers := ?_ }
    apply OrderedMap.Grown.assign (fun _ => rfl) _ ha
    intro b hb
    rw [hsame] at hb
    exact DaoView.isNew_of_getConsultationAnswer hget hb

theorem addConsultationAnswers (l : List CConsultationAnswer) (hl : ∀ a ∈ l, a.IsNew) :
    DaoGrown view (l.foldl DaoView.addConsultationAnswer view) := by
  induction l generalizing view with
  | nil => exact refl view
  | cons a l ih =>
    exact (addConsultationAnswer view (hl a List.mem_cons_self)).trans
      (ih _ fun b hb => hl b (List.mem_cons_of_mem _ hb))

end DaoGrown

variable {G : Type}

/-! ## The payments -/

/-- The requests that the events pay. -/
def paidRequests (tr : List (Event G)) : List Uint256 := (payments tr).map Prod.fst

/-- A map of requests with some of them paid. -/
structure RequestsPaid (pindex : CBlockIndex) (paid : List Uint256)
    (m m' : OrderedMap CPaymentRequest.hash) : Prop where
  find? : ∀ k, m'.find? k = if k ∈ paid then (m.find? k).map (·.paid pindex) else m.find? k
  exist : ∀ k ∈ paid, ∃ p, m.find? k = some p ∧ p.isNull = false

theorem RequestsPaid.cons {pindex : CBlockIndex} {paid : List Uint256}
    {m m' : OrderedMap CPaymentRequest.hash} (h : RequestsPaid pindex paid m m') {k : Uint256}
    {p : CPaymentRequest} (hp : m'.find? k = some p) (hnull : p.isNull = false) :
    RequestsPaid pindex (paid ++ [k]) m (m'.assign (p.paid pindex)) := by
  have hkey : (p.paid pindex).hash = k := (p.hash_paid _).trans (OrderedMap.key_of_find? hp)
  have hold : ∃ q, m.find? k = some q ∧ q.isNull = false ∧ q.paid pindex = p.paid pindex := by
    rw [h.find?] at hp
    split at hp
    · next hmem =>
      obtain ⟨q, hq, hqnull⟩ := h.exist k hmem
      rw [hq] at hp
      exact ⟨q, hq, hqnull, by rw [← Option.some.inj hp, q.paid_paid]⟩
    · exact ⟨p, hp, hnull, rfl⟩
  obtain ⟨q, hq, hqnull, hpaid⟩ := hold
  constructor
  · intro k'
    rw [OrderedMap.find?_assign, hkey, h.find?]
    by_cases heq : k' = k
    · subst heq
      rw [if_pos rfl, if_pos (List.mem_append_right _ List.mem_cons_self), hq, ← hpaid]
      rfl
    · rw [if_neg heq]
      simp only [List.mem_append, List.mem_singleton, heq, or_false]
  · refine List.forall_mem_append.mpr ⟨h.exist, ?_⟩
    exact List.forall_mem_singleton.mpr ⟨q, hq, hqnull⟩

/-- **The requests after the payments.** -/
theorem payOutputs_requests {r : PaymentRules} {x : PaymentContext} {vout : List (CTxOut G)}
    {s : PaymentLocals} (h : (payOutputs r x view vout).result = .ok s) :
    RequestsPaid x.pindex (paidRequests (payOutputs r x view vout).trace) view.paymentRequests
      s.view.paymentRequests := by
  have hrun := Traced.foldlM_trace_invariant
    (fun _ (t : PaymentLocals) tr => RequestsPaid x.pindex (paidRequests tr) view.paymentRequests
      t.view.paymentRequests) (payOutput r x) ?_ vout [] { view := view } [] s ?_ h
  · simpa [payOutputs] using hrun
  · intro _ t tr o t' ht hstep
    obtain ⟨_, ⟨_, hview, htrace⟩ | ⟨_, prid, p, hp, hview, htrace⟩⟩ := payOutput_ok hstep
    · rw [hview, htrace, List.append_nil]
      exact ht
    · have hkeys : paidRequests (tr ++ [Event.pay prid o]) = paidRequests tr ++ [prid] := by
        simp [paidRequests]
      rw [hview, htrace, hkeys]
      obtain ⟨hfind, hnull⟩ := Option.filter_eq_some_iff.mp hp.request
      exact ht.cons hfind (by simpa using hnull)
  · exact ⟨fun k => by simp [paidRequests], by simp [paidRequests]⟩

/-! ## Objects as they are read -/

section Read

variable {nd : DaoNode} {cr : Crypto G} {strDZeel : Bytes} {hash blockhash : Uint256}

theorem txToProposal_isNew {nProposalFee : Int} {p : CProposal}
    (h : txToProposal nd strDZeel hash blockhash nProposalFee = .ok p) : p.IsNew := by
  refine ⟨(txToProposal_ok h).2.1, ?_⟩
  unfold txToProposal at h
  split at h
  · cases h
  · simp only [Except.bind_eq_ok_iff, Except.rejectIf_eq_ok_iff, Except.pure_eq_ok_iff] at h
    obtain ⟨_, _, _, _, _, _, _, _, _, _, _, hpos, rfl⟩ := h
    exact not_lt.mp hpos

theorem CConsultationAnswer.isNull_of_version (h : a.nVersion ≠ 0) : a.isNull = false := by
  rw [CConsultationAnswer.isNull, beq_eq_false_iff_ne]
  rintro rfl
  exact h rfl

/-- The answers of a consultation transaction. -/
theorem mem_consultationAnswers {fExclude fSuper : Bool} {l : List JsonValue}
    (h : a ∈ consultationAnswers cr fExclude fSuper hash blockhash l) :
    a.IsNew ∧ a.isNull = false ∧ a.parent = hash ∧
      (fSuper = true → a.getAnswers = (JsonValue.strings l).insertionSort (· ≤ ·)) ∧
      (fSuper = false → ∃ s ∈ JsonValue.strings l, a.getAnswers = [s]) := by
  unfold consultationAnswers at h
  cases fSuper with
  | true =>
    rw [if_pos rfl, List.mem_singleton] at h
    subst h
    refine ⟨rfl, CConsultationAnswer.isNull_of_version ?_, rfl, fun _ => if_pos ?_, by simp⟩
    all_goals
      dsimp only
      cases fExclude <;> decide
  | false =>
    rw [if_neg Bool.false_ne_true, List.mem_map] at h
    obtain ⟨s, hs, rfl⟩ := h
    refine ⟨rfl, CConsultationAnswer.isNull_of_version ?_, rfl, by simp,
      fun _ => ⟨s, by simpa using hs, if_neg ?_⟩⟩
    all_goals
      dsimp only
      cases fExclude <;> decide

/-- A consultation comes without answers, and its answers are for it. -/
theorem txToConsultation_isNew {pindexPrev : CBlockIndex}
    {r : CConsultation × List CConsultationAnswer}
    (h : txToConsultation nd cr strDZeel hash blockhash pindexPrev = .ok r) :
    r.1.IsNew ∧ r.1.vAnswers = [] ∧
      ∀ a ∈ r.2, a.IsNew ∧ a.isNull = false ∧ a.parent = r.1.hash := by
  unfold txToConsultation at h
  split at h
  · cases h
  · simp only [Except.bind_eq_ok_iff, Except.pure_eq_ok_iff] at h
    obtain ⟨_, _, _, _, _, _, _, _, _, _, rfl⟩ := h
    refine ⟨rfl, rfl, fun a ha => ?_⟩
    split at ha
    · split at ha
      · cases ha
      · obtain ⟨hnew, hnull, hparent, _⟩ := mem_consultationAnswers ha
        exact ⟨hnew, hnull, hparent⟩
    · cases ha

/-- An answer has the texts of its transaction. -/
theorem txToConsultationAnswer_ok
    (h : txToConsultationAnswer nd cr strDZeel hash blockhash = .ok a) :
    a.IsNew ∧ ∃ m parent, nd.readObject strDZeel = some m ∧ (m 'h').getStr = .ok parent ∧
      a.parent = uint256S parent ∧
      ((∃ l texts, m 'a' = .arr l ∧ JsonValue.allStrings l = some texts ∧
        a.getAnswers = texts.insertionSort (· ≤ ·)) ∨
      ∃ s, m 'a' = .value (.str s) ∧ a.getAnswers = [s]) := by
  unfold txToConsultationAnswer at h
  split at h
  · cases h
  · next m hm =>
    simp only [Except.bind_eq_ok_iff] at h
    obtain ⟨n, _, h⟩ := h
    split at h
    · next hsuper =>
      split at h
      · next l harr =>
        split at h
        · cases h
        · next texts htexts =>
          simp only [Except.bind_eq_ok_iff, Except.pure_eq_ok_iff] at h
          obtain ⟨parent, hparent, rfl⟩ := h
          exact ⟨rfl, m, parent, hm, hparent, rfl, .inl ⟨l, texts, harr, htexts, if_pos hsuper⟩⟩
      · cases h
    · next hsuper =>
      split at h
      · next s hstr =>
        simp only [Except.bind_eq_ok_iff, Except.pure_eq_ok_iff] at h
        obtain ⟨parent, hparent, rfl⟩ := h
        exact ⟨rfl, m, parent, hm, hparent, rfl, .inr ⟨s, hstr, if_neg hsuper⟩⟩
      · cases h

end Read

section Connect

variable {nd : ChainNode G} {x : BlockContext G} {tx : CTransaction G} {view view' : DaoView}
  {s s' p c : ConnectLocals G} {tr : List (Event G)}

theorem payments_eq_nil (h : ∀ prid o, Event.pay prid o ∉ tr) : payments tr = [] := by
  rw [payments, List.filterMap_eq_nil_iff]
  intro w hw
  split
  · next prid o => exact absurd hw (h prid o)
  · rfl

variable [G1Group G]

theorem connectDao_grown {nProposalFee : Int}
    (h : connectDao nd x tx nProposalFee view = .ok view') : DaoGrown view view' := by
  obtain ⟨v₁, v₂, v₃, hproposal, hrequest, hconsultation, hanswer⟩ := connectDao_adds h
  have h₁ : DaoGrown view v₁ := by
    rcases hproposal with rfl | ⟨p, _, hp, hnone, rfl⟩
    · exact .refl v₁
    · exact .setProposal view (txToProposal_isNew hp) hnone
  have h₂ : DaoGrown v₁ v₂ := by
    rcases hrequest with rfl | ⟨p, _, hp, hnone, rfl⟩
    · exact .refl v₂
    · exact .setPaymentRequest v₁ (txToPaymentRequest_ok hp).2.1 hnone
  have h₃ : DaoGrown v₂ v₃ := by
    rcases hconsultation with rfl | ⟨c, answers, _, hc, hsub, hnone, rfl⟩
    · exact .refl v₃
    · obtain ⟨hnew, _, hanswers⟩ := txToConsultation_isNew hc
      exact (DaoGrown.setConsultation v₂ hnew hnone).trans
        (.addConsultationAnswers _ answers fun a ha => (hanswers a (hsub ha)).1)
  have h₄ : DaoGrown v₃ view' := by
    rcases hanswer with rfl | ⟨a, _, ha, _, rfl⟩
    · exact .refl view'
    · exact .addConsultationAnswer v₃ (txToConsultationAnswer_ok ha).1
  exact h₁.trans (h₂.trans (h₃.trans h₄))

variable [DecidableEq G]

/-- The contributions of a transaction to the fund are counted. -/
theorem connectOutputs_supply {out : OutputLocals G}
    (h : (connectOutputs nd x tx s).result = .ok out) :
    out.nCFSupply = s.nCFSupply + tx.nContribution ∧ out.nProposalFee = tx.nContribution ∧
      out.view.toDaoView = s.view.toDaoView := by
  have hsupply := Traced.foldlM_ok_invariant
    (fun (done : List (CTxOut G × Nat)) (t : OutputLocals G) =>
      t.nCFSupply = s.nCFSupply + (((done.map Prod.fst).filter
        CTxOut.isCommunityFundContribution).map CTxOut.nValue).sum ∧
      t.nProposalFee = (((done.map Prod.fst).filter
        CTxOut.isCommunityFundContribution).map CTxOut.nValue).sum)
    (connectOutput nd x tx) ?_ tx.vout.zipIdx [] _ out ⟨by simp, by simp⟩ h
  · rw [List.nil_append, List.zipIdx_map_fst] at hsupply
    exact ⟨hsupply.1, hsupply.2, (foldlM_connectOutput_frame h).dao⟩
  · intro done t e t' ht hstep
    simp only [connectOutput, Traced.bind_eq_ok_iff, Traced.result_pure, Except.ok.injEq] at hstep
    obtain ⟨view, _, rfl⟩ := hstep
    unfold addContribution
    split
    · next hc => simp [hc, ht.1, ht.2, add_assoc]
    · next hc => simp [hc, ht.1, ht.2]

/-- What a transaction does to objects and fund. -/
theorem applyTransaction_dao (h : (applyTransaction nd x s tx).result = .ok s') :
    connectDao nd x tx tx.nContribution s.view.toDaoView = .ok s'.view.toDaoView ∧
      s'.nCFSupply = s.nCFSupply + tx.nContribution := by
  obtain ⟨t, out, _, ht, hout, hdao, _, hlast, _⟩ := applyTransaction_parts h
  obtain ⟨hcf, hfee, _⟩ := connectOutputs_supply hout
  rw [hfee] at hdao
  exact ⟨hdao, by rw [hlast, hcf, ht]⟩

variable {view : CStateView G} {nCoinAge : Int}

/-- What the votes and the objects of every transaction do, the transactions of a block do. -/
theorem connectTransactions_relates {R : DaoView → DaoView → Prop}
    (htrans : ∀ {v₁ v₂ v₃}, R v₁ v₂ → R v₂ v₃ → R v₁ v₃)
    (hvotes : ∀ {v v'}, OnlyVotes v v' → R v v')
    (hdao : ∀ {tx : CTransaction G} {v v'},
      connectDao nd x tx tx.nContribution v = .ok v' → R v v')
    (h : (connectTransactions nd x view).result = .ok s) : R view.toDaoView s.view.toDaoView := by
  refine Traced.foldlM_ok_invariant
    (fun _ (t : ConnectLocals G) => R view.toDaoView t.view.toDaoView)
    (connectTransaction nd x) ?_ x.block.vtx.zipIdx [] _ s (hvotes (.refl _)) h
  intro _ t e t' ht hstep
  simp only [connectTransaction, Traced.bind_eq_ok_iff] at hstep
  obtain ⟨v, hcast, happly⟩ := hstep
  exact htrans ht (htrans (hvotes (castVotes_ok hcast).1) (hdao (applyTransaction_dao happly).1))

theorem connectTransaction_grown {e : CTransaction G × Nat}
    (h : (connectTransaction nd x s e).result = .ok s') :
    DaoGrown s.view.toDaoView s'.view.toDaoView ∧
      s'.nCFSupply = s.nCFSupply + e.1.nContribution := by
  simp only [connectTransaction, Traced.bind_eq_ok_iff] at h
  obtain ⟨v, hvotes, happly⟩ := h
  obtain ⟨hdao, hsupply⟩ := applyTransaction_dao happly
  exact ⟨(DaoGrown.of_onlyVotes (castVotes_ok hvotes).1).trans (connectDao_grown hdao), hsupply⟩

/-- What the block contributes to the fund. -/
def CBlock.nContribution (block : CBlock G) : Int :=
  (block.vtx.map CTransaction.nContribution).sum

/-- **The transactions of a block.** -/
theorem connectTransactions_grown (h : (connectTransactions nd x view).result = .ok s) :
    DaoGrown view.toDaoView s.view.toDaoView ∧ s.nCFSupply = x.block.nContribution := by
  have hrun := Traced.foldlM_ok_invariant
    (fun (done : List (CTransaction G × Nat)) (t : ConnectLocals G) =>
      DaoGrown view.toDaoView t.view.toDaoView ∧
        t.nCFSupply = ((done.map Prod.fst).map CTransaction.nContribution).sum)
    (connectTransaction nd x) ?_ x.block.vtx.zipIdx [] _ s ⟨.refl _, by simp⟩ h
  · rw [List.nil_append, List.zipIdx_map_fst] at hrun
    exact hrun
  · intro done t e t' ht hstep
    obtain ⟨hgrown, hsupply⟩ := connectTransaction_grown hstep
    refine ⟨ht.1.trans hgrown, ?_⟩
    rw [hsupply, ht.2]
    simp

/-! ## The block -/

/-- Only the coinbase pays. -/
theorem payments_connectTransactions (h : (connectTransactions nd x view).result = .ok s) :
    payments (connectTransactions nd x view).trace = [] := by
  apply payments_eq_nil
  intro prid o hw
  obtain ⟨_, tx, _, u, _, _, _, _, _, _, hconn, hmem⟩ := mem_trace_connectTransactions h hw id
  obtain ⟨f, out, _, hout, htrace⟩ := hconn.outputs
  rw [htrace] at hmem
  rcases List.mem_append.mp hmem with hmem | hmem
  · obtain ⟨_, _, hverify⟩ := mem_trace_checkSpending hmem
    obtain ⟨_, _, ⟨_, _, heq⟩ | ⟨_, _, heq⟩⟩ := mem_trace_verifyBLSCT hverify
    · cases heq
    · cases heq
  · obtain ⟨_, _, _, _, _, heq⟩ := mem_trace_connectOutputs hout hmem
    cases heq

/-- The payments of a block are those of its coinbase. -/
theorem BlockConnected.payments_eq (h : BlockConnected nd x view nCoinAge s p c tr) :
    payments tr = payments (connectCoinbase nd x s).trace := by
  have hstaker : payments (castStakerVotes nd x s.view.toDaoView).trace = [] :=
    payments_eq_nil fun _ _ hw => mem_trace_castStakerVotes hw
  have hstake : payments (connectStake nd x nCoinAge p).trace = [] := by
    apply payments_eq_nil
    intro prid o hw
    obtain ⟨_, _, _, heq⟩ := mem_trace_connectStake hw
    cases heq
  rw [h.trace]
  simp only [payments_append, payments_connectTransactions h.transactions, hstaker, hstake,
    List.nil_append, List.append_nil]

/-- The objects and the fund after a block.  `mid` is the view after the transactions. -/
structure BlockObjects (block : CBlock G) (pindex : CBlockIndex) (prev : Supply)
    (paid : List Uint256) (view mid view' : DaoView) (supply : Supply) : Prop where
  grown : DaoGrown view mid
  frame : view' = { mid with paymentRequests := view'.paymentRequests }
  paid : RequestsPaid pindex paid mid.paymentRequests view'.paymentRequests
  nCFLocked : supply.nCFLocked = prev.nCFLocked
  nCFSupply : supply.nCFSupply = prev.nCFSupply + block.nContribution ∨
    supply.nCFSupply = prev.nCFSupply

theorem BlockConnected.objects (h : BlockConnected nd x view nCoinAge s p c tr) (prev : Supply) :
    BlockObjects x.block x.pindex prev (paidRequests tr) view.toDaoView s.view.toDaoView
      c.view.toDaoView (c.supply prev) := by
  obtain ⟨hgrown, hsupply⟩ := connectTransactions_grown h.transactions
  obtain ⟨coinbase, _, q, _, hpay, rfl, htrace⟩ := connectCoinbase_ok h.coinbase
  have hview : c.view.toDaoView = q.view := by rw [(connectStake_ok h.stake).1]
  have hpaid : paidRequests tr = paidRequests (payOutputs nd.toPaymentRules
      (x.payment nd s.nFees coinbase) s.view.toDaoView coinbase.vout).trace := by
    rw [paidRequests, h.payments_eq, htrace, paidRequests]
  refine ⟨hgrown, ?_, ?_, rfl, .inl ?_⟩
  · rw [hview]
    exact payOutputs_frame hpay
  · rw [hview, hpaid]
    exact payOutputs_requests hpay
  · show prev.nCFSupply + c.nCFSupply = _
    rw [(connectStake_ok h.stake).2.2.1]
    exact congrArg _ hsupply

/-- **The objects after `ConnectBlock`.** -/
theorem connectBlock_objects {block : CBlock G} {pindex pprev : CBlockIndex} {prev : Supply}
    {view : CStateView G} {fScriptChecks fJustCheck : Bool} {c : Connected G}
    (h : (connectBlock nd block pindex pprev prev view fScriptChecks fJustCheck).result = .ok c) :
    ∃ mid, BlockObjects block pindex prev (paidRequests
      (connectBlock nd block pindex pprev prev view fScriptChecks fJustCheck).trace)
      view.toDaoView mid c.locals.view.toDaoView c.supply := by
  by_cases hgenesis : block.hash = nd.hashGenesisBlock
  · obtain ⟨rfl, htrace⟩ := connectBlock_genesis hgenesis h
    rw [htrace]
    exact ⟨view.toDaoView, .refl _, rfl, ⟨by simp [paidRequests], by simp [paidRequests]⟩, rfl,
      .inr rfl⟩
  · obtain ⟨_, nCoinAge, s, p, hblock⟩ := connectBlock_ok hgenesis h
    rw [connectBlock_supply hgenesis h]
    exact ⟨s.view.toDaoView, hblock.objects prev⟩

end Connect

end Navcoin
