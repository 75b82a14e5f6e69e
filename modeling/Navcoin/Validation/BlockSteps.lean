import Navcoin.Validation.ConnectBlock

/-!
# What connecting a block does

One inversion lemma for each part of `ConnectBlock`.

* `connectTransaction_ok`: what one transaction was checked for and what it changes;
* `connectBlock_ok`: the parts of a block that was connected;
* `connectTransactions_at`: any transaction of the block, seen from the view before it.
-/

namespace Navcoin

variable {G : Type} {fScriptChecks : Bool} {nProposalFee : Int}
variable {tx : CTransaction G} {s s' : ConnectLocals G}

/-! ## Values -/

theorem valueOut_ok {n : Int} (h : valueOut tx = .ok n) :
    n = (tx.vout.map CTxOut.nValue).sum := by
  unfold valueOut at h
  cases hout : tx.getValueOut with
  | error what => simp [hout] at h
  | ok m =>
    simp only [hout, Except.ok.injEq] at h
    rw [← h]
    exact (CTransaction.getValueOut_eq_ok hout).1

theorem getValueIn_eq_sum {view : CStateView G} (hcb : tx.isCoinBase = false) :
    view.getValueIn tx = ((spentOutputs view tx).map CTxOut.nValue).sum := by
  rw [CStateView.getValueIn, if_neg (by simp [hcb]), spentOutputs]
  induction tx.vin with
  | nil => rfl
  | cons i vin ih =>
    cases ho : view.getOutputFor i with
    | none => simpa [ho] using ih
    | some o => simpa [ho] using ih

/-- What a transaction adds to the fees of the block. -/
def feeOf (view : CStateView G) (tx : CTransaction G) : Int :=
  if tx.isCoinBase || tx.isCoinStake then 0
  else if tx.isBLSCT then tx.getFee
  else view.getValueIn tx - (tx.vout.map CTxOut.nValue).sum

/-- The reward that a coinstake takes. -/
def rewardOf (nd : ChainNode G) (x : BlockContext G) (view : CStateView G)
    (tx : CTransaction G) : Int :=
  (tx.vout.map CTxOut.nValue).sum - view.getValueIn tx - requiredContribution nd x view

theorem addFees_ok {nd : ChainNode G} {x : BlockContext G} (h : addFees nd x s tx = .ok s') :
    s'.view = s.view ∧ s'.nFees = s.nFees + feeOf s.view tx ∧
      (s'.nStakeReward = if tx.isCoinStake then rewardOf nd x s.view tx else s.nStakeReward) ∧
      s'.nCFSupply = s.nCFSupply := by
  unfold addFees at h
  cases hcb : tx.isCoinBase with
  | true =>
    simp only [hcb, if_true, Except.ok.injEq] at h
    subst h
    simp [feeOf, hcb, CTransaction.not_isCoinStake_of_isCoinBase hcb]
  | false =>
  cases hcs : tx.isCoinStake with
  | true =>
    simp only [hcb, hcs, if_true, Bool.false_eq_true, if_false, Except.bind_eq_ok_iff,
      Except.pure_eq_ok_iff] at h
    obtain ⟨n, hout, _, _, rfl⟩ := h
    simp [feeOf, hcs, rewardOf, valueOut_ok hout]
  | false =>
  cases hbls : tx.isBLSCT with
  | true =>
    simp only [hcb, hcs, hbls, if_true, Bool.false_eq_true, if_false, Except.ok.injEq] at h
    subst h
    split <;> simp [feeOf, hcb, hcs, hbls]
  | false =>
    simp only [hcb, hcs, hbls, Bool.false_eq_true, if_false, Except.bind_eq_ok_iff,
      Except.pure_eq_ok_iff] at h
    obtain ⟨n, hout, rfl⟩ := h
    simp [feeOf, hcb, hcs, hbls, valueOut_ok hout]

theorem addSigOps_ok {nd : ChainNode G} (h : addSigOps nd s tx = .ok s') :
    s'.view = s.view ∧ s'.nFees = s.nFees ∧ s'.nStakeReward = s.nStakeReward ∧
      s'.nCFSupply = s.nCFSupply := by
  simp only [addSigOps, Except.bind_eq_ok_iff, Except.rejectIf_eq_ok_iff, exists_and_left,
    exists_const, Except.pure_eq_ok_iff] at h
  obtain ⟨_, rfl⟩ := h
  exact ⟨rfl, rfl, rfl, rfl⟩

theorem addMovedToBLS_ok (h : addMovedToBLS s tx = .ok s') :
    s'.view = s.view ∧ s'.nFees = s.nFees ∧ s'.nStakeReward = s.nStakeReward ∧
      s'.nCFSupply = s.nCFSupply := by
  unfold addMovedToBLS at h
  split at h
  · simp only [Except.bind_eq_ok_iff, Except.pure_eq_ok_iff] at h
    obtain ⟨_, _, rfl⟩ := h
    exact ⟨rfl, rfl, rfl, rfl⟩
  · cases h
    exact ⟨rfl, rfl, rfl, rfl⟩

theorem addCreated_ok (h : addCreated s tx = .ok s') :
    s'.view = s.view ∧ s'.nFees = s.nFees ∧ s'.nStakeReward = s.nStakeReward ∧
      s'.nCFSupply = s.nCFSupply := by
  simp only [addCreated, Except.bind_eq_ok_iff, Except.pure_eq_ok_iff] at h
  obtain ⟨_, _, rfl⟩ := h
  split <;> exact ⟨rfl, rfl, rfl, rfl⟩

/-! ## The view -/

/-- Spending and creating outputs touches nothing else. -/
theorem setCoins_frame (view : CStateView G) (hash : Uint256) (coins : CCoins G) :
    view.setCoins hash coins = { view with coins := (view.setCoins hash coins).coins } := rfl

theorem updateCoins_frame [Zero G] {c : Crypto G} {view view' : CStateView G} {nHeight : Int}
    (h : view.updateCoins c tx nHeight = some view') :
    view' = { view with coins := view'.coins } := by
  have hloop : ∀ (vin : List CTxIn) (v v' : CStateView G),
      vin.foldlM CStateView.spendInput v = some v' → v' = { v with coins := v'.coins } := by
    intro vin
    induction vin with
    | nil =>
      intro v v' hrun
      cases hrun
      rfl
    | cons i vin ih =>
      intro v v' hrun
      rw [List.foldlM_cons, Option.bind_eq_bind, Option.bind_eq_some_iff] at hrun
      obtain ⟨t, hstep, hrest⟩ := hrun
      have ht : t = { v with coins := t.coins } := by
        unfold CStateView.spendInput at hstep
        split at hstep
        · cases hstep
        · split at hstep
          · cases hstep
            exact setCoins_frame ..
          · cases hstep
      rw [ih t v' hrest, ht]
  obtain ⟨v, hv, rfl⟩ := Option.map_eq_some_iff.mp h
  rw [setCoins_frame]
  split at hv
  · cases hv
    rfl
  · rw [hloop _ _ _ hv]

variable {w : Event G}

section Connect

variable {nd : ChainNode G} {x : BlockContext G}
variable {tx : CTransaction G} {view' : DaoView} {view : CStateView G} {e : CTransaction G × Nat}
  {s s' : ConnectLocals G} {tr : List (Event G)} {block : CBlock G}

/-! ### Objects of a transaction -/

theorem txToProposal_ok {nd : DaoNode} {strDZeel : Bytes} {hash blockhash : Uint256}
    {p : CProposal} (h : txToProposal nd strDZeel hash blockhash nProposalFee = .ok p) :
    p.hash = hash ∧ p.mapState = [] ∧ p.txblockhash = blockhash := by
  unfold txToProposal at h
  split at h
  · cases h
  · simp only [Except.bind_eq_ok_iff, Except.pure_eq_ok_iff] at h
    obtain ⟨_, _, _, _, _, _, _, _, _, _, _, _, rfl⟩ := h
    exact ⟨rfl, rfl, rfl⟩

theorem txToPaymentRequest_ok {nd : DaoNode} {strDZeel : Bytes} {hash blockhash : Uint256}
    {p : CPaymentRequest} (h : txToPaymentRequest nd strDZeel hash blockhash = .ok p) :
    p.hash = hash ∧ p.mapState = [] ∧ p.txblockhash = blockhash := by
  unfold txToPaymentRequest at h
  split at h
  · cases h
  · simp only [Except.bind_eq_ok_iff, Except.pure_eq_ok_iff] at h
    obtain ⟨_, _, _, _, _, _, _, _, _, _, rfl⟩ := h
    exact ⟨rfl, rfl, rfl⟩

/-- What was validated was asked for. -/
theorem validIf_eq_true {c : Bool} {valid : Except Failure Bool}
    (h : validIf c valid = .ok true) : c = true ∧ valid = .ok true := by
  unfold validIf at h
  split at h
  · exact ⟨‹_›, h⟩
  · cases h

/-! ### Votes -/

/-- Nothing but the lists of the voters differs. -/
def OnlyVotes (view view' : DaoView) : Prop := view' = { view with votes := view'.votes }

theorem OnlyVotes.refl (view : DaoView) : OnlyVotes view view := rfl

theorem OnlyVotes.trans {v₁ v₂ v₃ : DaoView} (h : OnlyVotes v₁ v₂) (h' : OnlyVotes v₂ v₃) :
    OnlyVotes v₁ v₃ := by
  unfold OnlyVotes at h h' ⊢
  rw [h', h]

theorem cacheVote_frame (voterScript : Bytes) (v : CastVote) (s : VoteLocals) :
    OnlyVotes s.view (cacheVote nd x voterScript v s).view := by
  unfold cacheVote
  dsimp only
  repeat' split
  all_goals rfl

theorem recordVote_frame (v : CastVote) (s : VoteLocals) :
    (recordVote nd x v s).1.view = s.view := by
  unfold recordVote
  dsimp only
  repeat' split
  all_goals rfl

/-- A vote is cached or recorded. -/
theorem castVote_ok {i : Nat} {voterScript : Bytes} {s s' : VoteLocals} {o : CTxOut G}
    (h : (castVote nd x i voterScript s o).result = .ok s') : OnlyVotes s.view s'.view := by
  simp only [castVote, Traced.bind_eq_ok_iff, Traced.result_ofExcept] at h
  obtain ⟨v, _, h⟩ := h
  cases v with
  | none =>
    cases h
    rfl
  | some v =>
    dsimp only at h
    have hseen : ∀ t : VoteLocals, t = (if v.vote = VoteFlags.voteRemove then s
        else { s with votes := (voterScript, v.hash) :: s.votes }) → t.view = s.view := by
      rintro _ rfl
      split <;> rfl
    generalize ht : (if v.vote = VoteFlags.voteRemove then s
      else { s with votes := (voterScript, v.hash) :: s.votes }) = t at h
    have hview := hseen t ht.symm
    split at h
    · cases h
      rfl
    · split at h
      · cases h
        rw [← hview]
        exact cacheVote_frame voterScript v t
      · split at h
        · obtain ⟨_, _, rfl⟩ := h
          rw [recordVote_frame, hview]
          rfl
        · cases h
          rw [hview]
          rfl

/-- The event records a vote. -/
def Event.isRecord : Event G → Prop
  | .record _ => True
  | _ => False

theorem mem_trace_emitRecord {vote : Option VoteRecord}
    (h : w ∈ (emitRecord vote).trace) : w.isRecord := by
  simp only [emitRecord, Traced.trace_emitAll, List.mem_map] at h
  obtain ⟨r, _, rfl⟩ := h
  trivial

theorem mem_trace_castVote {i : Nat} {voterScript : Bytes} {s : VoteLocals} {o : CTxOut G}
    (h : w ∈ (castVote nd x i voterScript s o).trace) : w.isRecord := by
  simp only [castVote, Traced.mem_trace_bind, Traced.trace_ofExcept, List.not_mem_nil,
    false_or] at h
  obtain ⟨v, _, h⟩ := h
  cases v with
  | none => cases h
  | some v =>
    dsimp only at h
    split at h
    · cases h
    · split at h
      · cases h
      · split at h
        · simp only [Traced.mem_trace_bind, Traced.trace_pure, List.not_mem_nil, and_false,
            exists_false, or_false] at h
          exact mem_trace_emitRecord h
        · cases h

theorem mem_trace_castStakerVotes {view : DaoView}
    (h : w ∈ (castStakerVotes nd x view).trace) : w.isRecord := by
  have hloop : ∀ (l : List (Uint256 × Int)) (n : AnswerCount),
      ∀ w ∈ (l.foldlM (castStakerVote nd x view) n).trace, w.isRecord := by
    intro l
    induction l with
    | nil =>
      intro n w hw
      cases hw
    | cons it l ih =>
      intro n w hw
      simp only [List.foldlM_cons, Traced.mem_trace_bind] at hw
      rcases hw with hw | ⟨n', _, hw⟩
      · simp only [castStakerVote, Traced.mem_trace_bind, Traced.trace_pure, List.not_mem_nil,
          and_false, exists_false, or_false] at hw
        exact mem_trace_emitRecord hw
      · exact ih n' w hw
  unfold castStakerVotes at h
  split at h
  · split at h
    · cases h
    · simp only [Traced.mem_trace_bind, Traced.trace_pure, List.not_mem_nil, and_false,
        exists_false, or_false] at h
      exact hloop _ _ w h
  · cases h

/-- The votes of a transaction led from `s` to `u`. -/
structure TxVoted (s u : ConnectLocals G) (tr : List (Event G)) : Prop where
  same : u = { s with view := { s.view with toDaoView := u.view.toDaoView }, votes := u.votes }
  view : OnlyVotes s.view.toDaoView u.view.toDaoView
  records : ∀ w ∈ tr, w.isRecord

/-- The votes change nothing that a value is computed from. -/
theorem TxVoted.getValueIn {u : ConnectLocals G} (h : TxVoted s u tr) (tx : CTransaction G) :
    u.view.getValueIn tx = s.view.getValueIn tx := by
  rw [h.same]
  rfl

theorem TxVoted.params {u : ConnectLocals G} (h : TxVoted s u tr) :
    s.view.SameParams u.view.toDaoView := by
  rw [h.view]
  exact ⟨rfl, rfl⟩

/-! ### Coinbase and coinstake -/

theorem coinStake_eq_some {stake : CTransaction G} :
    block.coinStake = some stake ↔
      block.isProofOfStake = true ∧ block.vtx[1]? = some stake := by
  unfold CBlock.coinStake CBlock.isProofOfStake
  match block.vtx with
  | [] => simp
  | [_] => simp
  | _ :: tx :: _ =>
    cases hcs : tx.isCoinStake <;> simp [hcs]

theorem connectCoinbase_ok {p : ConnectLocals G} (h : (connectCoinbase nd x s).result = .ok p) :
    ∃ coinbase rest q, x.block.vtx = coinbase :: rest ∧
      (payOutputs (G := G) nd.toPaymentRules (x.payment nd s.nFees coinbase) s.view.toDaoView
          coinbase.vout).result = .ok q ∧
      p = { s with view := { s.view with toDaoView := q.view } } ∧
      (connectCoinbase nd x s).trace =
        (payOutputs nd.toPaymentRules (x.payment nd s.nFees coinbase) s.view.toDaoView
          coinbase.vout).trace := by
  cases hvtx : x.block.vtx with
  | nil => simp [connectCoinbase, hvtx] at h
  | cons coinbase rest =>
    simp only [connectCoinbase, hvtx, Traced.bind_eq_ok_iff, Traced.result_pure,
      Except.ok.injEq] at h ⊢
    obtain ⟨q, hq, rfl⟩ := h
    refine ⟨coinbase, rest, q, rfl, hq, rfl, ?_⟩
    rw [Traced.trace_bind_of_ok hq]
    simp

variable [G1Group G]

/-- The votes of a transaction leave the rest of the view alone, and records behind. -/
theorem castVotes_ok {votes : List (Bytes × Uint256)} {v : VoteLocals}
    (h : (castVotes nd x view votes e).result = .ok v) :
    OnlyVotes view.toDaoView v.view ∧ ∀ w ∈ (castVotes nd x view votes e).trace, w.isRecord := by
  unfold castVotes at h ⊢
  split at h
  · next hin =>
    simp only [Traced.bind_eq_ok_iff, Traced.result_ofExcept] at h
    obtain ⟨voter, hvoter, h⟩ := h
    constructor
    · exact Traced.foldlM_ok_invariant
        (fun _ (t : VoteLocals) => OnlyVotes view.toDaoView t.view) (castVote nd x e.2 voter)
        (fun _ _ _ _ ht hstep => ht.trans (castVote_ok hstep)) e.1.vout [] _ v (.refl _) h
    · intro w hw
      simp only [if_pos hin, Traced.mem_trace_bind, Traced.trace_ofExcept, Traced.result_ofExcept,
        List.not_mem_nil, false_or, hvoter, Except.ok.injEq, exists_eq_left'] at hw
      obtain ⟨_, _, _, _, _, hmem⟩ := Traced.mem_trace_foldlM _ e.1.vout _ v h w hw
      exact mem_trace_castVote hmem
  · next hin =>
    cases h
    refine ⟨.refl _, fun w hw => ?_⟩
    rw [if_neg hin] at hw
    cases hw

/-- With script checks the age of the coinstake is known. -/
theorem checkContext_coinAge {nCoinAge : Int} {stake : CTransaction G}
    (h : checkContext nd x view = .ok nCoinAge) (hscript : x.fScriptChecks = true)
    (hstake : x.block.coinStake = some stake) :
    nd.transactionGetCoinAge stake view = some nCoinAge := by
  simp only [checkContext, Except.bind_eq_ok_iff, Except.pure_eq_ok_iff] at h
  obtain ⟨_, _, n, hage, _, _, _, _, _, _, rfl⟩ := h
  simp only [checkStake, hstake, hscript, if_true] at hage
  split at hage
  · cases hn : nd.transactionGetCoinAge stake view with
    | none => simp [hn] at hage
    | some m => simpa [hn] using hage
  · cases hage

/-- The reward of the coinstake, and nothing else, is looked at. -/
theorem connectStake_ok {nCoinAge : Int} {p c : ConnectLocals G}
    (h : (connectStake nd x nCoinAge p).result = .ok c) :
    c.view = p.view ∧ c.nFees = p.nFees ∧ c.nCFSupply = p.nCFSupply ∧
      ∀ stake, x.block.coinStake = some stake → x.fScriptChecks = true → p.nStakeReward ≤
        getProofOfStakeReward nd x.pindex.nHeight nCoinAge p.nFees x.pprev p.view := by
  cases hstake : x.block.coinStake with
  | none =>
    simp only [connectStake, hstake, Traced.result_pure, Except.ok.injEq] at h
    subst h
    exact ⟨rfl, rfl, rfl, by simp⟩
  | some stake =>
    simp only [connectStake, hstake, Traced.bind_eq_ok_iff, Traced.result_rejectIf,
      Except.rejectIf_eq_ok_iff, not_and, not_lt] at h
    obtain ⟨_, hreward, htail⟩ := h
    refine ⟨?_, ?_, ?_, fun _ _ => hreward⟩
    all_goals
      split at htail
      · simp only [Traced.bind_eq_ok_iff, Traced.result_pure, Except.ok.injEq] at htail
        obtain ⟨_, _, rfl⟩ := htail
        rfl
      · simp only [Traced.result_pure, Except.ok.injEq] at htail
        rw [htail]

/-! ### DAO objects -/

/-- The requests after a transaction: there may be a new one, under its hash. -/
def RequestsAfter (nd : ChainNode G) (x : BlockContext G) (tx : CTransaction G)
    (view view' : DaoView) : Prop :=
  view'.paymentRequests = view.paymentRequests ∨
    tx.kind = paymentRequestVersion ∧ view.getPaymentRequest (tx.getHash nd.toCrypto) = none ∧
      ∃ p : CPaymentRequest, p.hash = tx.getHash nd.toCrypto ∧ p.mapState = [] ∧
        p.txblockhash = x.block.hash ∧ view'.paymentRequests = view.paymentRequests.assign p

/-- The proposals after a transaction. -/
def ProposalsAfter (nd : ChainNode G) (x : BlockContext G) (tx : CTransaction G)
    (view view' : DaoView) : Prop :=
  view'.proposals = view.proposals ∨
    tx.kind = proposalVersion ∧ view.getProposal (tx.getHash nd.toCrypto) = none ∧
      ∃ p : CProposal, p.hash = tx.getHash nd.toCrypto ∧ p.mapState = [] ∧
        p.txblockhash = x.block.hash ∧ view'.proposals = view.proposals.assign p

/-! #### What a transaction adds -/

section Adds

variable (nd : ChainNode G) (x : BlockContext G) (tx : CTransaction G) (view view' : DaoView)

def AddsProposal (nProposalFee : Int) : Prop :=
  view' = view ∨ ∃ p, tx.kind = proposalVersion ∧
    txToProposal nd.toDaoNode tx.strDZeel (tx.getHash nd.toCrypto) x.block.hash nProposalFee =
      .ok p ∧ view.getProposal p.hash = none ∧ view' = view.setProposal p

def AddsRequest : Prop :=
  view' = view ∨ ∃ p, tx.kind = paymentRequestVersion ∧
    txToPaymentRequest nd.toDaoNode tx.strDZeel (tx.getHash nd.toCrypto) x.block.hash = .ok p ∧
    view.getPaymentRequest p.hash = none ∧ view' = view.setPaymentRequest p

/-- A consultation that was validated, with its answers if it is not a range. -/
def AddsConsultation : Prop :=
  view' = view ∨ ∃ c answers, isValidConsultation nd.toDaoNode x.pprev tx view = true ∧
    txToConsultation nd.toDaoNode nd.toCrypto tx.strDZeel (tx.getHash nd.toCrypto) x.block.hash
      x.pprev = .ok c ∧ answers ⊆ c.2 ∧ view.getConsultation c.1.hash = none ∧
    view' = answers.foldl DaoView.addConsultationAnswer (view.setConsultation c.1)

def AddsAnswer : Prop :=
  view' = view ∨ ∃ a, isValidConsultationAnswer nd.toDaoNode nd.toCrypto x.pprev tx view = true ∧
    txToConsultationAnswer nd.toDaoNode nd.toCrypto tx.strDZeel (tx.getHash nd.toCrypto)
      x.block.hash = .ok a ∧ view.getConsultationAnswer a.hash = none ∧
    view' = view.addConsultationAnswer a

end Adds

theorem connectProposal_adds {view : DaoView}
    (h : connectProposal nd x tx nProposalFee view = .ok view') :
    AddsProposal nd x tx view view' nProposalFee := by
  simp only [connectProposal, Except.bind_eq_ok_iff] at h
  obtain ⟨valid, hvalid, h⟩ := h
  split at h
  · next htrue =>
    rw [htrue] at hvalid
    have hkind := (validIf_eq_true hvalid).1
    simp only [Bool.and_eq_true, beq_iff_eq] at hkind
    simp only [Except.bind_eq_ok_iff, Except.pure_eq_ok_iff] at h
    obtain ⟨p, hp, rfl⟩ := h
    unfold DaoView.addProposal
    split
    · exact .inl rfl
    · next hnone => exact .inr ⟨p, hkind.2, hp, by simpa using hnone, rfl⟩
  · cases h
    exact .inl rfl

theorem connectPaymentRequest_adds {view : DaoView}
    (h : connectPaymentRequest nd x tx view = .ok view') : AddsRequest nd x tx view view' := by
  simp only [connectPaymentRequest, Except.bind_eq_ok_iff] at h
  obtain ⟨valid, hvalid, h⟩ := h
  split at h
  · next htrue =>
    rw [htrue] at hvalid
    have hkind := (validIf_eq_true hvalid).1
    simp only [beq_iff_eq] at hkind
    simp only [Except.bind_eq_ok_iff, Except.pure_eq_ok_iff] at h
    obtain ⟨p, hp, rfl⟩ := h
    unfold addRequest
    split
    · exact .inl rfl
    · split
      · unfold DaoView.addPaymentRequest
        split
        · exact .inl rfl
        · next hnone => exact .inr ⟨p, hkind, hp, by simpa using hnone, rfl⟩
      · exact .inl rfl
  · cases h
    exact .inl rfl

theorem connectConsultation_adds {view : DaoView}
    (h : connectConsultation nd x tx view = .ok view') : AddsConsultation nd x tx view view' := by
  unfold connectConsultation at h
  split at h
  · next hvalid =>
    simp only [Bool.and_eq_true] at hvalid
    simp only [Except.bind_eq_ok_iff, Except.pure_eq_ok_iff] at h
    obtain ⟨c, hc, rfl⟩ := h
    unfold addConsultationWith DaoView.addConsultation
    split
    · exact .inl rfl
    · next hnone =>
      have hnew : view.getConsultation c.1.hash = none := by simpa using hnone
      split
      · exact .inr ⟨c, [], hvalid.2, hc, List.nil_subset _, hnew, rfl⟩
      · exact .inr ⟨c, c.2, hvalid.2, hc, List.Subset.refl _, hnew, rfl⟩
  · cases h
    exact .inl rfl

theorem connectAnswer_adds {view : DaoView} (h : connectAnswer nd x tx view = .ok view') :
    AddsAnswer nd x tx view view' := by
  unfold connectAnswer at h
  split at h
  · next hvalid =>
    simp only [Bool.and_eq_true] at hvalid
    simp only [Except.bind_eq_ok_iff, Except.pure_eq_ok_iff] at h
    obtain ⟨a, ha, rfl⟩ := h
    unfold addAnswer
    split
    · exact .inl rfl
    · split
      · next hopen =>
        simp only [Bool.and_eq_true, Option.isNone_iff_eq_none] at hopen
        exact .inr ⟨a, hvalid.2, ha, hopen.2, rfl⟩
      · exact .inl rfl
  · cases h
    exact .inl rfl

/-- **The objects of a transaction** are added in four stages. -/
theorem connectDao_adds {view : DaoView} (h : connectDao nd x tx nProposalFee view = .ok view') :
    ∃ v₁ v₂ v₃, AddsProposal nd x tx view v₁ nProposalFee ∧ AddsRequest nd x tx v₁ v₂ ∧
      AddsConsultation nd x tx v₂ v₃ ∧ AddsAnswer nd x tx v₃ view' := by
  unfold connectDao at h
  split at h
  · simp only [Except.bind_eq_ok_iff] at h
    obtain ⟨v₁, hproposal, v₂, hrequest, v₃, hconsultation, hanswer⟩ := h
    exact ⟨v₁, v₂, v₃, connectProposal_adds hproposal, connectPaymentRequest_adds hrequest,
      connectConsultation_adds hconsultation, connectAnswer_adds hanswer⟩
  · cases h
    exact ⟨view', view', view', .inl rfl, .inl rfl, .inl rfl, .inl rfl⟩

theorem AddsProposal.after {view : DaoView} (h : AddsProposal nd x tx view view' nProposalFee) :
    view' = { view with proposals := view'.proposals } ∧ ProposalsAfter nd x tx view view' := by
  rcases h with rfl | ⟨p, hkind, hp, hnone, rfl⟩
  · exact ⟨rfl, .inl rfl⟩
  · obtain ⟨hhash, hstate, hblock⟩ := txToProposal_ok hp
    exact ⟨rfl, .inr ⟨hkind, hhash ▸ hnone, p, hhash, hstate, hblock, rfl⟩⟩

theorem AddsRequest.after {view : DaoView} (h : AddsRequest nd x tx view view') :
    view' = { view with paymentRequests := view'.paymentRequests } ∧
      RequestsAfter nd x tx view view' := by
  rcases h with rfl | ⟨p, hkind, hp, hnone, rfl⟩
  · exact ⟨rfl, .inl rfl⟩
  · obtain ⟨hhash, hstate, hblock⟩ := txToPaymentRequest_ok hp
    exact ⟨rfl, .inr ⟨hkind, hhash ▸ hnone, p, hhash, hstate, hblock, rfl⟩⟩

/-- Nothing but consultations and their answers differs. -/
def OnlyConsultations (view view' : DaoView) : Prop :=
  view' = { view with consultations := view'.consultations, answers := view'.answers }

theorem OnlyConsultations.refl (view : DaoView) : OnlyConsultations view view := rfl

theorem OnlyConsultations.trans {v₁ v₂ v₃ : DaoView} (h : OnlyConsultations v₁ v₂)
    (h' : OnlyConsultations v₂ v₃) : OnlyConsultations v₁ v₃ := by
  unfold OnlyConsultations at h h' ⊢
  rw [h', h]

theorem OnlyConsultations.addConsultationAnswer (view : DaoView) (a : CConsultationAnswer) :
    OnlyConsultations view (view.addConsultationAnswer a) := by
  unfold DaoView.addConsultationAnswer DaoView.modifyConsultation
  split
  · rfl
  · split <;> rfl

theorem OnlyConsultations.foldl_addConsultationAnswer (l : List CConsultationAnswer)
    (view : DaoView) : OnlyConsultations view (l.foldl DaoView.addConsultationAnswer view) := by
  induction l generalizing view with
  | nil => exact .refl view
  | cons a l ih => exact (addConsultationAnswer view a).trans (ih _)

theorem AddsConsultation.only {view : DaoView} (h : AddsConsultation nd x tx view view') :
    OnlyConsultations view view' := by
  rcases h with rfl | ⟨c, answers, _, _, _, _, rfl⟩
  · rfl
  · have hset : OnlyConsultations view (view.setConsultation c.1) := rfl
    exact hset.trans (.foldl_addConsultationAnswer answers _)

theorem AddsAnswer.only {view : DaoView} (h : AddsAnswer nd x tx view view') :
    OnlyConsultations view view' := by
  rcases h with rfl | ⟨a, _, _, _, rfl⟩
  · rfl
  · exact .addConsultationAnswer view a

/-- What a transaction adds to the DAO part of the view. -/
structure DaoAdded (nd : ChainNode G) (x : BlockContext G) (tx : CTransaction G)
    (view view' : DaoView) : Prop where
  params : view.SameParams view'
  votes : view'.votes = view.votes
  nExcludeVotes : view'.nExcludeVotes = view.nExcludeVotes
  proposals : ProposalsAfter nd x tx view view'
  requests : RequestsAfter nd x tx view view'

/-- The DAO objects of a transaction. -/
theorem connectDao_ok {view : DaoView} (h : connectDao nd x tx nProposalFee view = .ok view') :
    DaoAdded nd x tx view view' := by
  obtain ⟨v₁, v₂, v₃, hproposal, hrequest, hconsultation, hanswer⟩ := connectDao_adds h
  obtain ⟨hv₁, hproposals⟩ := hproposal.after
  obtain ⟨hv₂, hrequests⟩ := hrequest.after
  rw [hconsultation.only.trans hanswer.only, hv₂, hv₁]
  rw [hv₁] at hrequests
  exact ⟨⟨rfl, rfl⟩, rfl, rfl, hproposals, hrequests⟩

/-! ## One transaction -/

variable [DecidableEq G]

theorem connectOutput_view {s s' : OutputLocals G} {e : CTxOut G × Nat}
    (h : (connectOutput nd x tx s e).result = .ok s') :
    (executeProgram nd.toBls x.pindex.nHeight (x.deployed nd).dotNav tx s.view e).result =
        .ok s'.view ∧
      (connectOutput nd x tx s e).trace =
        (executeProgram nd.toBls x.pindex.nHeight (x.deployed nd).dotNav tx s.view e).trace := by
  have hview : (addContribution s e.1).view = s.view := by
    unfold addContribution
    split <;> rfl
  simp only [connectOutput, hview, Traced.bind_eq_ok_iff, Traced.result_pure,
    Except.ok.injEq] at h ⊢
  obtain ⟨view, hrun, rfl⟩ := h
  refine ⟨hrun, ?_⟩
  rw [Traced.trace_bind_of_ok hrun]
  simp

/-- The outputs of a transaction change no funds. -/
theorem foldlM_connectOutput_frame {l : List (CTxOut G × Nat)} {s s' : OutputLocals G}
    (h : (l.foldlM (connectOutput nd x tx) s).result = .ok s') :
    SameFunds s.view s'.view := by
  refine Traced.foldlM_ok_invariant (fun _ (t : OutputLocals G) => SameFunds s.view t.view)
    (connectOutput nd x tx) ?_ l [] s s' (.refl _) h
  intro _ t e t' ht hstep
  exact ht.trans (executeProgram_frame (connectOutput_view hstep).1)

/-- What holds of a transaction that was applied to `s`, with the events it left. -/
structure TxConnected (nd : ChainNode G) (x : BlockContext G) (s : ConnectLocals G)
    (tx : CTransaction G) (s' : ConnectLocals G) (tr : List (Event G)) : Prop where
  spending : (checkSpending nd x s.view tx).result = .ok ()
  nFees : s'.nFees = s.nFees + feeOf s.view tx
  nStakeReward : s'.nStakeReward =
    if tx.isCoinStake then rewardOf nd x s.view tx else s.nStakeReward
  dao : DaoAdded nd x tx s.view.toDaoView s'.view.toDaoView
  outputs : ∃ (f : ConnectLocals G) (out : OutputLocals G), f.view = s.view ∧
    (connectOutputs nd x tx f).result = .ok out ∧
    tr = (checkSpending nd x s.view tx).trace ++ (connectOutputs nd x tx f).trace

/-- **The parts of a transaction that was applied**: its outputs are connected to `t`, in which
fees and rewards were counted, then its objects and last its coins. -/
theorem applyTransaction_parts (h : (applyTransaction nd x s tx).result = .ok s') :
    ∃ t out, t.view = s.view ∧ t.nCFSupply = s.nCFSupply ∧
      (connectOutputs nd x tx t).result = .ok out ∧
      connectDao nd x tx out.nProposalFee s.view.toDaoView = .ok s'.view.toDaoView ∧
      ({ out.view with toDaoView := s'.view.toDaoView } : CStateView G).updateCoins nd.toCrypto tx
        x.pindex.nHeight = some s'.view ∧
      s'.nCFSupply = out.nCFSupply ∧
      TxConnected nd x s tx s' (applyTransaction nd x s tx).trace := by
  have hrun := h
  simp only [applyTransaction, Traced.bind_eq_ok_iff, Traced.result_ofExcept] at hrun
  obtain ⟨_, hbefore, s₁, hsig, s₂, hfees, _, hspend, s₃, hmoved, out, hout, dao, hdao, s₄,
    hcreated, hupdate⟩ := hrun
  obtain ⟨hv₁, hf₁, hr₁, hc₁⟩ := addSigOps_ok hsig
  obtain ⟨hv₂, hf₂, hr₂, hc₂⟩ := addFees_ok hfees
  obtain ⟨hv₃, hf₃, hr₃, hc₃⟩ := addMovedToBLS_ok hmoved
  obtain ⟨hv₄, hf₄, hr₄, hc₄⟩ := addCreated_ok hcreated
  have hsame := foldlM_connectOutput_frame hout
  rw [hv₁] at hv₂ hf₂ hr₂
  rw [hv₂] at hv₃ hspend
  rw [hv₃] at hsame
  rw [hsame.dao] at hdao
  have htrace : (applyTransaction nd x s tx).trace =
      (checkSpending nd x s.view tx).trace ++ (connectOutputs nd x tx s₃).trace := by
    unfold applyTransaction
    rw [Traced.trace_bind_of_ok hbefore, Traced.trace_bind_of_ok hsig,
      Traced.trace_bind_of_ok hfees, hv₂, Traced.trace_bind_of_ok hspend,
      Traced.trace_bind_of_ok hmoved, Traced.trace_bind_of_ok hout, hsame.dao,
      Traced.trace_bind_of_ok hdao, Traced.trace_bind_of_ok hcreated]
    simp
  unfold updateView at hupdate
  split at hupdate
  · cases hupdate
  · next v hv =>
    cases hupdate
    rw [hv₄] at hv
    have hlast : v.toDaoView = dao := by rw [updateCoins_frame hv]
    subst hlast
    refine ⟨s₃, out, hv₃, hc₃.trans (hc₂.trans hc₁), hout, hdao, hv, hc₄, hspend, ?_, ?_,
      connectDao_ok hdao, s₃, out, hv₃, hout, htrace⟩
    · exact hf₄.trans (hf₃.trans (by rw [hf₂, hf₁]))
    · exact hr₄.trans (hr₃.trans (by rw [hr₂, hr₁]))

/-- **One transaction of the block**, after its votes. -/
theorem applyTransaction_ok (h : (applyTransaction nd x s tx).result = .ok s') :
    TxConnected nd x s tx s' (applyTransaction nd x s tx).trace := by
  obtain ⟨_, _, _, _, _, _, _, _, hconnected⟩ := applyTransaction_parts h
  exact hconnected

/-- **One transaction of the block.** -/
theorem connectTransaction_ok (h : (connectTransaction nd x s e).result = .ok s') :
    ∃ u tr tr', TxVoted s u tr ∧ TxConnected nd x u e.1 s' tr' ∧
      (connectTransaction nd x s e).trace = tr ++ tr' := by
  have hrun := h
  simp only [connectTransaction, Traced.bind_eq_ok_iff] at hrun
  obtain ⟨v, hvotes, happly⟩ := hrun
  obtain ⟨hframe, hrecords⟩ := castVotes_ok hvotes
  refine ⟨s.withVotes v, _, _, ⟨rfl, hframe, hrecords⟩, applyTransaction_ok happly, ?_⟩
  unfold connectTransaction
  rw [Traced.trace_bind_of_ok hvotes]

/-- A transaction other than the coinbase has passed `CheckTxInputs`. -/
theorem TxConnected.inputs (h : TxConnected nd x s tx s' tr) (hcb : tx.isCoinBase = false) :
    (checkTxInputs nd.toNode tx s.view (x.pprev.nHeight + 1) (x.deployed nd).xnavSer 0).result =
      .ok () := by
  have hspend := h.spending
  simp only [checkSpending, hcb, Bool.false_eq_true, if_false, checkInputs,
    Traced.bind_eq_ok_iff] at hspend
  obtain ⟨_, hok, _⟩ := hspend
  exact hok

/-- Without a flag it spends at least what it creates, unless it is a coinstake. -/
theorem TxConnected.value (h : TxConnected nd x s tx s' tr) (hcb : tx.isCoinBase = false)
    (hbls : tx.isBLSCT = false) (hcs : tx.isCoinStake = false) :
    (tx.vout.map CTxOut.nValue).sum ≤ s.view.getValueIn tx := by
  rw [getValueIn_eq_sum hcb]
  exact (checkTxInputs_ok (h.inputs hcb)).2.1 hbls hcb hcs

/-! ## The loop -/

/-- The loop before the transaction at position `i`. -/
def connectedBefore (nd : ChainNode G) (x : BlockContext G) (view : CStateView G) (i : Nat) :
    Except Failure (ConnectLocals G) :=
  ((x.block.vtx.zipIdx.take i).foldlM (connectTransaction nd x) { view := view }).result

/-- No transaction changes the consensus parameters. -/
theorem connectTransaction_params (h : (connectTransaction nd x s e).result = .ok s') :
    s.view.SameParams s'.view.toDaoView := by
  obtain ⟨u, tr, tr', hvoted, hconn, _⟩ := connectTransaction_ok h
  exact hvoted.params.trans hconn.dao.params

theorem foldlM_connectTransaction_params {l : List (CTransaction G × Nat)}
    (h : (l.foldlM (connectTransaction nd x) s).result = .ok s') :
    s.view.SameParams s'.view.toDaoView := by
  refine Traced.foldlM_ok_invariant
    (fun _ (t : ConnectLocals G) => s.view.SameParams t.view.toDaoView)
    (connectTransaction nd x) ?_ l [] s s' (.refl _) h
  intro _ t e t' ht hstep
  exact ht.trans (connectTransaction_params hstep)

/-- **Any transaction of the block**, seen from the view before it. -/
theorem connectTransactions_at (h : (connectTransactions nd x view).result = .ok s) {i : Nat}
    (hi : x.block.vtx[i]? = some tx) :
    ∃ t u t' tr tr', connectedBefore nd x view i = .ok t ∧ TxVoted t u tr ∧
      TxConnected nd x u tx t' tr' ∧ ∀ w ∈ tr', w ∈ (connectTransactions nd x view).trace := by
  have hzip : x.block.vtx.zipIdx[i]? = some (tx, i) := by simp [hi]
  obtain ⟨t, t', hbefore, hstep, hmem⟩ :=
    Traced.foldlM_ok_at (connectTransaction nd x) x.block.vtx.zipIdx _ s h i (tx, i) hzip
  obtain ⟨u, tr, tr', hvoted, hconn, htrace⟩ := connectTransaction_ok hstep
  refine ⟨t, u, t', tr, tr', hbefore, hvoted, hconn, fun w hw => hmem w ?_⟩
  rw [htrace]
  exact List.mem_append_right _ hw

/-- Every event of the loop is one of a transaction, or records a vote. -/
theorem mem_trace_connectTransactions (h : (connectTransactions nd x view).result = .ok s)
    (hw : w ∈ (connectTransactions nd x view).trace) (hrecord : ¬ w.isRecord) :
    ∃ (i : Nat) (tx : CTransaction G) (t u t' : ConnectLocals G) (tr tr' : List (Event G)),
      x.block.vtx[i]? = some tx ∧ connectedBefore nd x view i = .ok t ∧ TxVoted t u tr ∧
      TxConnected nd x u tx t' tr' ∧ w ∈ tr' := by
  obtain ⟨i, e, t, hi, hbefore, hmem⟩ :=
    Traced.mem_trace_foldlM (connectTransaction nd x) x.block.vtx.zipIdx _ s h w hw
  obtain ⟨t₁, t', ht₁, hstep, _⟩ :=
    Traced.foldlM_ok_at (connectTransaction nd x) x.block.vtx.zipIdx _ s h i e hi
  rw [hbefore] at ht₁
  cases ht₁
  have hvtx : x.block.vtx[i]? = some e.1 := by
    rw [List.getElem?_zipIdx] at hi
    obtain ⟨tx, htx, rfl⟩ := Option.map_eq_some_iff.mp hi
    exact htx
  obtain ⟨u, tr, tr', hvoted, hconn, htrace⟩ := connectTransaction_ok hstep
  rw [htrace] at hmem
  rcases List.mem_append.mp hmem with hmem | hmem
  · exact absurd (hvoted.records w hmem) hrecord
  · exact ⟨i, e.1, t, u, t', tr, tr', hvtx, hbefore, hvoted, hconn, hmem⟩

/-! ## The block -/

/-- The parts of a block that was connected, with their events. -/
structure BlockConnected (nd : ChainNode G) (x : BlockContext G) (view : CStateView G)
    (nCoinAge : Int) (s p c : ConnectLocals G) (tr : List (Event G)) : Prop where
  context : checkContext nd x view = .ok nCoinAge
  transactions : (connectTransactions nd x view).result = .ok s
  coinbase : (connectCoinbase nd x s).result = .ok p
  stake : (connectStake nd x nCoinAge p).result = .ok c
  trace : tr = (connectTransactions nd x view).trace ++
    ((castStakerVotes nd x s.view.toDaoView).trace ++ ((connectCoinbase nd x s).trace ++
      (connectStake nd x nCoinAge p).trace))

section Block

variable {pindex pprev : CBlockIndex} {prev : Supply} {fJustCheck : Bool} {c : Connected G}

/-- **The parts of `ConnectBlock`**, for a block that is not the first one. -/
theorem connectBlock_ok (hgenesis : block.hash ≠ nd.hashGenesisBlock)
    (h : (connectBlock nd block pindex pprev prev view fScriptChecks fJustCheck).result = .ok c) :
    checkBlock nd.toBlockNode block (!fJustCheck) (!fJustCheck) fScriptChecks = .ok () ∧
      ∃ nCoinAge s p, BlockConnected nd (.of block pindex pprev view fScriptChecks fJustCheck) view
        nCoinAge s p c.locals
        (connectBlock nd block pindex pprev prev view fScriptChecks fJustCheck).trace := by
  have hrun := h
  simp only [connectBlock, Traced.bind_eq_ok_iff, Traced.result_ofExcept, if_neg hgenesis,
    connectChecked, Traced.result_pure] at hrun
  obtain ⟨_, hcheck, nCoinAge, hcontext, s, htxs, _, hvotes, p, hcb, t, hstake, _, hsupply, hc⟩ :=
    hrun
  cases hc
  refine ⟨hcheck, nCoinAge, s, p, hcontext, htxs, hcb, hstake, ?_⟩
  unfold connectBlock connectChecked
  rw [Traced.trace_bind_of_ok hcheck, if_neg hgenesis, Traced.trace_bind_of_ok hcontext,
    Traced.trace_bind_of_ok htxs, Traced.trace_bind_of_ok hvotes, Traced.trace_bind_of_ok hcb,
    Traced.trace_bind_of_ok hstake, Traced.trace_bind_of_ok hsupply]
  simp

/-- The supplies are those that the sums of the block give. -/
theorem connectBlock_supply (hgenesis : block.hash ≠ nd.hashGenesisBlock)
    (h : (connectBlock nd block pindex pprev prev view fScriptChecks fJustCheck).result = .ok c) :
    c.supply = c.locals.supply prev := by
  simp only [connectBlock, Traced.bind_eq_ok_iff, if_neg hgenesis, connectChecked,
    Traced.result_pure, Except.ok.injEq] at h
  obtain ⟨_, _, _, _, _, _, _, _, _, _, _, _, _, _, rfl⟩ := h
  rfl

/-- The first block is not looked at. -/
theorem connectBlock_genesis (hgenesis : block.hash = nd.hashGenesisBlock)
    (h : (connectBlock nd block pindex pprev prev view fScriptChecks fJustCheck).result = .ok c) :
    c = { locals := { view := view }, supply := prev } ∧
      (connectBlock nd block pindex pprev prev view fScriptChecks fJustCheck).trace = [] := by
  have hrun := h
  simp only [connectBlock, Traced.bind_eq_ok_iff, Traced.result_ofExcept, if_pos hgenesis,
    Traced.result_pure, Except.ok.injEq] at hrun
  obtain ⟨_, hcheck, rfl⟩ := hrun
  unfold connectBlock
  rw [Traced.trace_bind_of_ok hcheck, if_pos hgenesis]
  simp

end Block

end Connect

end Navcoin
