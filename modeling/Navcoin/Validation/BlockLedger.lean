import Navcoin.Validation.CoinStake

/-!
# The sums of `ConnectBlock`

While the transactions of a block are connected, seven sums are kept: the fees, those of private
transactions by where they come from, the value that enters and leaves private outputs, the value
that is created, and what the fund receives.  They are a ledger of the outputs that each
transaction creates and spends.

* `Totals.count`: how one transaction is entered into the ledger;
* `connectTransaction_totals`, `foldlM_totals`: the sums of `ConnectBlock` are those of the ledger;
* `connectBlock_totals`: the sums of a connected block.
-/

namespace Navcoin

variable {G : Type}
variable {s s' : ConnectLocals G} {tx : CTransaction G}

/-! ## Movements -/

/-- The sum of what a list of outputs counts as. -/
def valueBy (w : CTxOut G → Int) (l : List (CTxOut G)) : Int := (l.map w).sum

/-- A transaction with the outputs it spends. -/
structure Movement (G : Type) where
  tx : CTransaction G
  spent : List (CTxOut G)

namespace Movement

/-- A transaction spends what it finds in the view. -/
def of (view : CStateView G) (tx : CTransaction G) : Movement G :=
  { tx, spent := if tx.isCoinBase then [] else spentOutputs view tx }

variable (w : CTxOut G → Int) (m : Movement G)

/-- What is created less what is spent. -/
def created : Int := valueBy w m.tx.vout - valueBy w m.spent

def feeOutputs : List (CTxOut G) := m.tx.vout.filter fun o => o.scriptPubKey.isFee

def contributions : List (CTxOut G) := m.tx.vout.filter CTxOut.isCommunityFundContribution

/-- A fee is paid by every transaction but the coinbase and the coinstake. -/
def paysFee : Bool := !(m.tx.isCoinBase || m.tx.isCoinStake)

/-- The fee of a private transaction, which has outputs for it. -/
def blsctFee : Int := if m.paysFee && m.tx.isBLSCT then valueBy w m.feeOutputs else 0

def fee : Int :=
  if m.paysFee then if m.tx.isBLSCT then valueBy w m.feeOutputs else -m.created w else 0

/-- Value is moved into private outputs. -/
def entersPrivate : Bool := m.tx.isCTOutput && !m.tx.isBLSInput && !m.tx.isCoinStake

end Movement

/-! ## The ledger -/

/-- The sums that are kept in the loop over the transactions. -/
structure Totals where
  nFees : Int := 0
  nBLSCTPublicFees : Int := 0
  nBLSCTPrivateFees : Int := 0
  nMovedToBLS : Int := 0
  nMovedToPublic : Int := 0
  nCreated : Int := 0
  nCFSupply : Int := 0

/-- The entry of one transaction.  The private fees of the whole block are taken off what a
transaction with private inputs moves to public outputs. -/
def Totals.count (t : Totals) (m : Movement G) : Totals :=
  let nBLSCTPrivateFees := t.nBLSCTPrivateFees +
    if m.tx.isBLSInput then m.blsctFee CTxOut.nValue else 0
  { nFees := t.nFees + m.fee CTxOut.nValue
    nBLSCTPublicFees := t.nBLSCTPublicFees +
      if m.tx.isBLSInput then 0 else m.blsctFee CTxOut.nValue
    nBLSCTPrivateFees
    nMovedToBLS := t.nMovedToBLS + if m.entersPrivate then -m.created CTxOut.nValue else 0
    nMovedToPublic := t.nMovedToPublic +
      if m.tx.isBLSInput then m.created CTxOut.nValue - nBLSCTPrivateFees else 0
    nCreated := t.nCreated - valueBy CTxOut.nValue m.contributions +
      if m.tx.isBLSInput then 0 else m.created CTxOut.nValue
    nCFSupply := t.nCFSupply + valueBy CTxOut.nValue m.contributions }

/-- Value that is moved into private outputs after the loop. -/
def Totals.moveToBLS (t : Totals) (n : Int) : Totals := { t with nMovedToBLS := t.nMovedToBLS + n }

/-- The sums among the locals of `ConnectBlock`. -/
def ConnectLocals.totals (s : ConnectLocals G) : Totals :=
  { nFees := s.nFees, nBLSCTPublicFees := s.nBLSCTPublicFees,
    nBLSCTPrivateFees := s.nBLSCTPrivateFees, nMovedToBLS := s.nMovedToBLS,
    nMovedToPublic := s.nMovedToPublic, nCreated := s.nCreated, nCFSupply := s.nCFSupply }

/-! ## The parts of a transaction -/

theorem getValueIn_eq_valueBy (view : CStateView G) (tx : CTransaction G) :
    view.getValueIn tx = valueBy CTxOut.nValue (Movement.of view tx).spent := by
  unfold Movement.of
  cases hcb : tx.isCoinBase with
  | true =>
    rw [CStateView.getValueIn, if_pos hcb]
    rfl
  | false => exact getValueIn_eq_sum hcb

theorem created_eq (view : CStateView G) (tx : CTransaction G) :
    (Movement.of view tx).created CTxOut.nValue =
      (tx.vout.map CTxOut.nValue).sum - view.getValueIn tx := by
  rw [getValueIn_eq_valueBy]
  rfl

theorem addSigOps_totals {nd : ChainNode G} (h : addSigOps nd s tx = .ok s') :
    s'.view = s.view ∧ s'.totals = s.totals := by
  simp only [addSigOps, Except.bind_eq_ok_iff, Except.rejectIf_eq_ok_iff, exists_and_left,
    exists_const, Except.pure_eq_ok_iff] at h
  obtain ⟨_, rfl⟩ := h
  exact ⟨rfl, rfl⟩

theorem addFees_totals {nd : ChainNode G} {x : BlockContext G} (h : addFees nd x s tx = .ok s') :
    s'.totals =
      { s.totals with
        nFees := s.nFees + (Movement.of s.view tx).fee CTxOut.nValue
        nBLSCTPublicFees := s.nBLSCTPublicFees +
          if tx.isBLSInput then 0 else (Movement.of s.view tx).blsctFee CTxOut.nValue
        nBLSCTPrivateFees := s.nBLSCTPrivateFees +
          if tx.isBLSInput then (Movement.of s.view tx).blsctFee CTxOut.nValue else 0 } := by
  unfold addFees at h
  have hcreated := created_eq s.view tx
  simp only [Movement.fee, Movement.blsctFee, Movement.paysFee, hcreated]
  cases hcb : tx.isCoinBase with
  | true =>
    simp only [hcb, if_true, Except.ok.injEq] at h
    subst h
    simp [Movement.of, hcb, ConnectLocals.totals]
  | false =>
  cases hcs : tx.isCoinStake with
  | true =>
    simp only [hcb, hcs, if_true, Bool.false_eq_true, if_false, Except.bind_eq_ok_iff,
      Except.pure_eq_ok_iff] at h
    obtain ⟨n, hout, _, _, rfl⟩ := h
    simp [Movement.of, hcs, ConnectLocals.totals]
  | false =>
  cases hbls : tx.isBLSCT with
  | true =>
    simp only [hcb, hcs, hbls, if_true, Bool.false_eq_true, if_false, Except.ok.injEq] at h
    subst h
    cases hin : tx.isBLSInput <;>
      simp [Movement.of, hcb, hcs, hbls, ConnectLocals.totals, CTransaction.getFee,
        Movement.feeOutputs, valueBy]
  | false =>
    simp only [hcb, hcs, hbls, Bool.false_eq_true, if_false, Except.bind_eq_ok_iff,
      Except.pure_eq_ok_iff] at h
    obtain ⟨n, hout, rfl⟩ := h
    simp [Movement.of, hcb, hcs, hbls, valueOut_ok hout, ConnectLocals.totals]

theorem addMovedToBLS_totals (h : addMovedToBLS s tx = .ok s') :
    s'.totals = { s.totals with
      nMovedToBLS := s.nMovedToBLS + if (Movement.of s.view tx).entersPrivate then
        -(Movement.of s.view tx).created CTxOut.nValue else 0 } := by
  unfold addMovedToBLS at h
  rw [created_eq]
  split at h
  · next hprivate =>
    simp only [Except.bind_eq_ok_iff, Except.pure_eq_ok_iff] at h
    obtain ⟨n, hout, rfl⟩ := h
    rw [if_pos (show (Movement.of s.view tx).entersPrivate = true from hprivate), valueOut_ok hout]
    simp [ConnectLocals.totals]
  · next hprivate =>
    cases h
    rw [if_neg (show ¬ (Movement.of s.view tx).entersPrivate = true from hprivate), add_zero]
    rfl

theorem addCreated_totals (h : addCreated s tx = .ok s') :
    (∀ o ∈ tx.vout, 0 ≤ o.nValue) ∧ s'.totals =
      { s.totals with
        nMovedToPublic := s.nMovedToPublic + if tx.isBLSInput then
          (Movement.of s.view tx).created CTxOut.nValue - s.nBLSCTPrivateFees else 0
        nCreated := s.nCreated +
          if tx.isBLSInput then 0 else (Movement.of s.view tx).created CTxOut.nValue } := by
  simp only [addCreated, Except.bind_eq_ok_iff, Except.pure_eq_ok_iff] at h
  obtain ⟨n, hout, rfl⟩ := h
  refine ⟨fun o ho => ?_, ?_⟩
  · unfold valueOut at hout
    cases hv : tx.getValueOut with
    | error what => simp [hv] at hout
    | ok k => exact ((moneyRange_iff _).mp ((CTransaction.getValueOut_eq_ok hv).2 o ho)).1
  · rw [created_eq, ← valueOut_ok hout]
    cases hin : tx.isBLSInput <;> simp [ConnectLocals.totals]

section Connect

/-- The coins are all that a movement reads of a view. -/
theorem Movement.of_congr {view view' : CStateView G} (h : view'.coins = view.coins)
    (tx : CTransaction G) : Movement.of view' tx = Movement.of view tx := by
  have hout : view'.getOutputFor = view.getOutputFor := by
    unfold CStateView.getOutputFor
    rw [h]
  unfold Movement.of spentOutputs
  rw [hout]

variable [G1Group G] [DecidableEq G] {nd : ChainNode G} {x : BlockContext G}
variable {s : ConnectLocals G}

theorem connectOutputs_totals {tx : CTransaction G} {out : OutputLocals G}
    (h : (connectOutputs nd x tx s).result = .ok out) :
    out.nCFSupply = s.nCFSupply + valueBy CTxOut.nValue (Movement.of s.view tx).contributions ∧
      out.nCreated = s.nCreated - valueBy CTxOut.nValue (Movement.of s.view tx).contributions := by
  have hloop := Traced.foldlM_ok_invariant
    (fun (done : List (CTxOut G × Nat)) (t : OutputLocals G) =>
      t.nCFSupply = s.nCFSupply + valueBy CTxOut.nValue
        ((done.map Prod.fst).filter CTxOut.isCommunityFundContribution) ∧
      t.nCreated = s.nCreated - valueBy CTxOut.nValue
        ((done.map Prod.fst).filter CTxOut.isCommunityFundContribution))
    (connectOutput nd x tx) ?_ tx.vout.zipIdx [] _ out (by simp [valueBy]) h
  · rw [List.nil_append, List.zipIdx_map_fst 0 tx.vout] at hloop
    exact hloop
  · rintro done t e t' ⟨hsupply, hcreated⟩ hstep
    simp only [connectOutput, Traced.bind_eq_ok_iff, Traced.result_pure, Except.ok.injEq] at hstep
    obtain ⟨view, _, rfl⟩ := hstep
    unfold addContribution
    cases hc : e.1.isCommunityFundContribution with
    | true =>
      simp only [valueBy, List.map_append, List.filter_append, List.sum_append, List.map_cons,
        List.map_nil, List.filter_cons_of_pos hc, List.filter_nil, List.sum_cons, List.sum_nil,
        if_true] at hsupply hcreated ⊢
      omega
    | false =>
      simp only [valueBy, List.map_append, List.filter_append, List.sum_append, List.map_cons,
        List.map_nil, List.filter_cons, hc, Bool.false_eq_true, if_false, List.filter_nil,
        List.sum_nil, add_zero] at hsupply hcreated ⊢
      exact ⟨hsupply, hcreated⟩

/-! ## The loop -/

/-- **The entry of one transaction**, after its votes. -/
theorem applyTransaction_totals {s' : ConnectLocals G} {tx : CTransaction G}
    (h : (applyTransaction nd x s tx).result = .ok s') :
    (∀ o ∈ tx.vout, 0 ≤ o.nValue) ∧ s'.totals = s.totals.count (Movement.of s.view tx) := by
  simp only [applyTransaction, Traced.bind_eq_ok_iff, Traced.result_ofExcept] at h
  obtain ⟨_, _, s₁, hsig, s₂, hfees, _, _, s₃, hmoved, out, hout, dao, _, s₄, hcreated,
    hupdate⟩ := h
  obtain ⟨hv₁, ht₁⟩ := addSigOps_totals hsig
  have ht₂ := addFees_totals hfees
  have ht₃ := addMovedToBLS_totals hmoved
  have hv₂ : s₂.view = s.view := (addFees_ok hfees).1.trans hv₁
  have hv₃ : s₃.view = s.view := (addMovedToBLS_ok hmoved).1.trans hv₂
  obtain ⟨hsupply, hout'⟩ := connectOutputs_totals hout
  obtain ⟨hrange, ht₄⟩ := addCreated_totals hcreated
  have hcoins : out.view.coins = s.view.coins := by
    rw [← hv₃]
    exact (foldlM_connectOutput_frame hout).coins
  have hmove : Movement.of { out.view with toDaoView := dao } tx = Movement.of s.view tx :=
    Movement.of_congr hcoins tx
  have hlast : s'.totals = s₄.totals := by
    unfold updateView at hupdate
    split at hupdate
    · cases hupdate
    · cases hupdate
      rfl
  refine ⟨hrange, hlast.trans (ht₄.trans ?_)⟩
  rw [hv₁] at ht₂
  rw [hv₂] at ht₃
  rw [hmove, hsupply, hout']
  simp only [ConnectLocals.totals, Totals.mk.injEq] at ht₁ ht₂ ht₃ ⊢
  simp only [Totals.count, Movement.of, ht₁, ht₂, ht₃]
  rfl

/-- **The entry of one transaction.** -/
theorem connectTransaction_totals {s' : ConnectLocals G} {e : CTransaction G × Nat}
    (h : (connectTransaction nd x s e).result = .ok s') :
    (∀ o ∈ e.1.vout, 0 ≤ o.nValue) ∧ s'.totals = s.totals.count (Movement.of s.view e.1) := by
  simp only [connectTransaction, Traced.bind_eq_ok_iff] at h
  obtain ⟨v, _, happly⟩ := h
  obtain ⟨hrange, htotals⟩ := applyTransaction_totals happly
  exact ⟨hrange, htotals⟩

/-- The movements of a run, each with the outputs it finds. -/
def movementsFrom (nd : ChainNode G) (x : BlockContext G) (s : ConnectLocals G) :
    List (CTransaction G × Nat) → List (Movement G)
  | [] => []
  | e :: l => Movement.of s.view e.1 ::
      match (connectTransaction nd x s e).result with
      | .ok t => movementsFrom nd x t l
      | .error _ => []

/-- **The sums of a run are those of the ledger.** -/
theorem foldlM_totals {l : List (CTransaction G × Nat)} :
    ∀ {s s' : ConnectLocals G}, (l.foldlM (connectTransaction nd x) s).result = .ok s' →
      s'.totals = (movementsFrom nd x s l).foldl Totals.count s.totals ∧
      (movementsFrom nd x s l).map Movement.tx = l.map Prod.fst ∧
      ∀ m ∈ movementsFrom nd x s l, ∀ o ∈ m.tx.vout, 0 ≤ o.nValue := by
  induction l with
  | nil =>
    intro s s' h
    cases h
    exact ⟨rfl, rfl, by simp [movementsFrom]⟩
  | cons e l ih =>
    intro s s' h
    rw [List.foldlM_cons, Traced.bind_eq_ok_iff] at h
    obtain ⟨t, hstep, hrest⟩ := h
    obtain ⟨hrange, hcount⟩ := connectTransaction_totals hstep
    obtain ⟨htotals, htxs, hranges⟩ := ih hrest
    simp only [movementsFrom, hstep]
    refine ⟨?_, ?_, List.forall_mem_cons.mpr ⟨hrange, hranges⟩⟩
    · rw [List.foldl_cons, ← hcount]
      exact htotals
    · rw [List.map_cons, htxs]
      rfl

/-! ## The block -/

/-- The movements of the transactions of a block. -/
def movements (nd : ChainNode G) (x : BlockContext G) (view : CStateView G) : List (Movement G) :=
  movementsFrom nd x { view := view } x.block.vtx.zipIdx

/-- What the coinstake of a proof-of-stake block moves to private outputs: the part of the reward
that it does not take. -/
def privateReward (nd : ChainNode G) (x : BlockContext G) (nCoinAge : Int)
    (s : ConnectLocals G) : Int :=
  match x.block.coinStake with
  | none => 0
  | some stake => if stake.isCTOutput then
      getProofOfStakeReward nd x.pindex.nHeight nCoinAge s.nFees x.pprev s.view - s.nStakeReward
    else 0

omit [DecidableEq G] in
theorem connectStake_totals {nCoinAge : Int} {p c : ConnectLocals G}
    (h : (connectStake nd x nCoinAge p).result = .ok c) :
    c.nStakeReward = p.nStakeReward ∧
      c.totals = p.totals.moveToBLS (privateReward nd x nCoinAge p) := by
  unfold privateReward
  cases hstake : x.block.coinStake with
  | none =>
    simp only [connectStake, hstake, Traced.result_pure, Except.ok.injEq] at h
    subst h
    exact ⟨rfl, by simp [ConnectLocals.totals, Totals.moveToBLS]⟩
  | some stake =>
    simp only [connectStake, hstake, Traced.bind_eq_ok_iff] at h
    obtain ⟨_, _, htail⟩ := h
    split at htail
    · next hct =>
      simp only [Traced.bind_eq_ok_iff, Traced.result_pure, Except.ok.injEq] at htail
      obtain ⟨_, _, rfl⟩ := htail
      exact ⟨rfl, by simp [ConnectLocals.totals, Totals.moveToBLS, hct]⟩
    · next hct =>
      simp only [Traced.result_pure, Except.ok.injEq] at htail
      subst htail
      exact ⟨rfl, by simp [ConnectLocals.totals, Totals.moveToBLS, hct]⟩

/-- What connection counts, and what it makes of it. -/
structure BlockCounted (nd : ChainNode G) (x : BlockContext G) (view : CStateView G)
    (prev : Supply) (nCoinAge : Int) (c : Connected G) : Prop where
  context : checkContext nd x view = .ok nCoinAge
  txs : (movements nd x view).map Movement.tx = x.block.vtx
  inRange : ∀ m ∈ movements nd x view, ∀ o ∈ m.tx.vout, 0 ≤ o.nValue
  totals : c.locals.totals = ((movements nd x view).foldl Totals.count {}).moveToBLS
    (privateReward nd x nCoinAge c.locals)
  supply : c.supply = c.locals.supply prev

/-- **The sums of a connected block.** -/
theorem connectBlock_totals {block : CBlock G} {pindex pprev : CBlockIndex} {prev : Supply}
    {view : CStateView G} {fScriptChecks fJustCheck : Bool} {c : Connected G}
    (hgenesis : block.hash ≠ nd.hashGenesisBlock)
    (h : (connectBlock nd block pindex pprev prev view fScriptChecks fJustCheck).result = .ok c) :
    ∃ nCoinAge, BlockCounted nd (.of block pindex pprev view fScriptChecks fJustCheck) view prev
      nCoinAge c := by
  obtain ⟨_, nCoinAge, s, p, hconnected⟩ := connectBlock_ok hgenesis h
  obtain ⟨hcount, htxs, hrange⟩ := foldlM_totals hconnected.transactions
  obtain ⟨_, _, q, _, _, hp, _⟩ := connectCoinbase_ok hconnected.coinbase
  obtain ⟨hreward, hstake⟩ := connectStake_totals hconnected.stake
  obtain ⟨hview, hfees, _⟩ := connectStake_ok hconnected.stake
  have hcoinbase : p.totals = s.totals := by
    rw [hp]
    rfl
  have hsame : privateReward nd (.of block pindex pprev view fScriptChecks fJustCheck) nCoinAge
      c.locals = privateReward nd (.of block pindex pprev view fScriptChecks fJustCheck) nCoinAge
        p := by
    unfold privateReward
    rw [hview, hfees, hreward]
  refine ⟨nCoinAge, hconnected.context, ?_, hrange, ?_, connectBlock_supply hgenesis h⟩
  · exact htxs.trans (List.zipIdx_map_fst 0 _)
  · rw [hstake, hsame, hcoinbase, hcount]
    rfl

end Connect

end Navcoin
