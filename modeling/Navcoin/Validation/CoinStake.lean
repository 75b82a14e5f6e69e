import Navcoin.Validation.BlockSteps

/-!
# Where value is created

No value check applies to a transaction shaped like a coinstake; what bounds it is the reward
of the block, and that is compared in proof-of-stake blocks only.

* `connectBlock_coinStake_iff`: the coinstake stands at position one and the value of the block
  is bounded exactly if the block is proof of stake or has no coinstake.
-/

namespace Navcoin

variable {G : Type} {nd : ChainNode G} {x : BlockContext G} {view : CStateView G}

/-- The parameters are all that the contribution reads of a view. -/
theorem requiredContribution_congr {view' : CStateView G} (h : view.SameParams view'.toDaoView) :
    requiredContribution nd x view' = requiredContribution nd x view := by
  unfold requiredContribution fundMultiplier
  rw [h.param]

theorem getProofOfStakeReward_congr {nHeight nCoinAge nFees : Int} {pprev : CBlockIndex}
    {view' : CStateView G} (h : view.SameParams view'.toDaoView) :
    getProofOfStakeReward nd nHeight nCoinAge nFees pprev view' =
      getProofOfStakeReward nd nHeight nCoinAge nFees pprev view := by
  unfold getProofOfStakeReward getStakingRewardPerBlock getFundContributionPerBlock
  rw [h.param]

/-- The votes of the transaction do not change its reward. -/
theorem TxVoted.rewardOf {s u : ConnectLocals G} {tr : List (Event G)} (h : TxVoted s u tr)
    (tx : CTransaction G) : rewardOf nd x u.view tx = rewardOf nd x s.view tx := by
  rw [Navcoin.rewardOf, Navcoin.rewardOf, h.getValueIn, requiredContribution_congr h.params]

variable [G1Group G]

theorem BlockOk.not_isCoinBase {nd : BlockNode G} {block : CBlock G} (h : BlockOk nd block)
    {i : Nat} {tx : CTransaction G} (hi : 0 < i) (htx : block.vtx[i]? = some tx) :
    tx.isCoinBase = false := by
  obtain ⟨coinbase, rest, hvtx, _, hrest⟩ := h.coinBases
  cases i with
  | zero => omega
  | succ j =>
    rw [hvtx] at htx
    exact hrest tx (List.mem_of_getElem? htx)

variable [DecidableEq G]

/-- A coinstake is the second transaction of a proof-of-stake block. -/
def CoinStakeSecond (block : CBlock G) : Prop :=
  ∀ i tx, block.vtx[i]? = some tx → tx.isCoinStake = true → block.isProofOfStake = true ∧ i = 1

/-- No transaction but the coinbase creates value, and the coinstake of a proof-of-stake block
only its reward and the contribution to the fund.  Inputs are those in the view at the point
of the transaction. -/
def ValueBounded (nd : ChainNode G) (x : BlockContext G) (view : CStateView G) (nFees : Int) :
    Prop :=
  ∀ i tx, 0 < i → x.block.vtx[i]? = some tx → ∃ s, connectedBefore nd x view i = .ok s ∧
    (¬ (x.block.isProofOfStake = true ∧ i = 1) →
      (tx.vout.map CTxOut.nValue).sum ≤ s.view.getValueIn tx) ∧
    (x.block.isProofOfStake = true → i = 1 →
      ∃ nCoinAge, nd.transactionGetCoinAge tx view = some nCoinAge ∧
        (tx.vout.map CTxOut.nValue).sum - s.view.getValueIn tx ≤
          getProofOfStakeReward nd x.pindex.nHeight nCoinAge nFees x.pprev view +
            requiredContribution nd x view)

/-- The reward that is compared in the end is that of the coinstake at position one. -/
theorem connectTransactions_nStakeReward {s : ConnectLocals G} {stake : CTransaction G}
    (h : (connectTransactions nd x view).result = .ok s) (hstake : x.block.coinStake = some stake)
    (hothers : ∀ tx ∈ x.block.vtx.drop 2, tx.isCoinStake = false) :
    ∃ t, connectedBefore nd x view 1 = .ok t ∧ s.nStakeReward = rewardOf nd x t.view stake := by
  obtain ⟨hpos, hsecond⟩ := coinStake_eq_some.mp hstake
  unfold connectTransactions at h
  unfold connectedBefore
  unfold CBlock.isProofOfStake at hpos
  match hvtx : x.block.vtx with
  | [] => simp [hvtx] at hsecond
  | [_] => simp [hvtx] at hsecond
  | coinbase :: tx :: rest =>
    obtain rfl : tx = stake := by simpa [hvtx] using hsecond
    have hcs : tx.isCoinStake = true := by simpa [hvtx] using hpos
    simp only [hvtx, List.zipIdx_cons, List.foldlM_cons, Traced.bind_eq_ok_iff] at h
    obtain ⟨t, hfirst, u, hstep, hrest⟩ := h
    refine ⟨t, ?_, ?_⟩
    · simp only [List.zipIdx_cons, List.take_succ_cons, List.take_zero, List.foldlM_cons,
        Traced.bind_eq_ok_iff]
      exact ⟨t, hfirst, rfl⟩
    · obtain ⟨t₁, tr, tr', hvoted, hconn, _⟩ := connectTransaction_ok hstep
      have hu := hconn.nStakeReward
      rw [if_pos hcs, hvoted.rewardOf] at hu
      -- no later transaction sets the reward
      rw [← hu]
      have hlater : ∀ e ∈ rest.zipIdx 2, e.1.isCoinStake = false := by
        intro e he
        exact hothers e.1 (by rw [hvtx]; exact List.fst_mem_of_mem_zipIdx he)
      refine Traced.foldlM_ok_invariant
        (fun (done : List (CTransaction G × Nat)) (v : ConnectLocals G) =>
          (∀ e ∈ done, e.1.isCoinStake = false) → v.nStakeReward = u.nStakeReward)
        (connectTransaction nd x) ?_ (rest.zipIdx 2) [] u s (fun _ => rfl) hrest hlater
      intro done v e v' hv hnext hdone
      obtain ⟨w, tr, tr', hvoted, hconn, _⟩ := connectTransaction_ok hnext
      have hreward := hconn.nStakeReward
      rw [hdone e (by simp), hvoted.same] at hreward
      exact hreward.trans (hv fun e he => hdone e (List.mem_append_left _ he))

/-- What bounds the value of a block. -/
theorem valueBounded_of_connected {nCoinAge : Int} {s p c : ConnectLocals G} {tr : List (Event G)}
    (hok : BlockOk nd.toBlockNode x.block) (hscript : x.fScriptChecks = true)
    (hpublic : ∀ tx ∈ x.block.vtx, tx.isBLSCT = false) (hplace : CoinStakeSecond x.block)
    (h : BlockConnected nd x view nCoinAge s p c tr) : ValueBounded nd x view c.nFees := by
  intro i tx hi htx
  obtain ⟨t, u, t', tr, tr', hbefore, hvoted, hconnected, _⟩ :=
    connectTransactions_at h.transactions htx
  refine ⟨t, hbefore, ?_, ?_⟩
  · intro hordinary
    rw [← hvoted.getValueIn]
    refine hconnected.value (hok.not_isCoinBase hi htx) (hpublic tx (List.mem_of_getElem? htx)) ?_
    by_contra hcs
    exact hordinary (hplace i tx htx (by simpa using hcs))
  · rintro hpos rfl
    have hstake : x.block.coinStake = some tx := coinStake_eq_some.mpr ⟨hpos, htx⟩
    refine ⟨nCoinAge, checkContext_coinAge h.context hscript hstake, ?_⟩
    obtain ⟨u, hu, hreward⟩ :=
      connectTransactions_nStakeReward h.transactions hstake (hok.coinStakes hpos)
    rw [hbefore] at hu
    cases hu
    obtain ⟨hview, hfees, _, hbound⟩ := connectStake_ok h.stake
    obtain ⟨coinbase, rest, q, _, hq, rfl, _⟩ := connectCoinbase_ok h.coinbase
    have hle := hbound tx hstake hscript
    have hparams : view.SameParams q.view := by
      refine (foldlM_connectTransaction_params h.transactions).trans ?_
      rw [payOutputs_frame hq]
      exact ⟨rfl, rfl⟩
    rw [getProofOfStakeReward_congr hparams, hreward, rewardOf,
      requiredContribution_congr (foldlM_connectTransaction_params hbefore)] at hle
    rw [hfees]
    dsimp only at hle ⊢
    omega

/-- **Where value is created.**  A block that `CheckBlock` and `ConnectBlock` accept with script
checks keeps its coinstake at position one, and the value of its transactions within bounds when
none of them has a flag, exactly if it is proof of stake or has no coinstake at all. -/
theorem connectBlock_coinStake_iff (nd : ChainNode G) (block : CBlock G)
    (pindex pprev : CBlockIndex) (prev : Supply) (view : CStateView G)
    (fCheckMerkleRoot fCheckSig fJustCheck : Bool) (c : Connected G)
    (hcheck : checkBlock nd.toBlockNode { block with fChecked := false } fCheckMerkleRoot fCheckSig
      true = .ok ())
    (hgenesis : block.hash ≠ nd.hashGenesisBlock)
    (h : (connectBlock nd block pindex pprev prev view true fJustCheck).result = .ok c) :
    (CoinStakeSecond block ∧
      ((∀ tx ∈ block.vtx, tx.isBLSCT = false) →
        ValueBounded nd (.of block pindex pprev view true fJustCheck) view c.locals.nFees)) ↔
      block.isProofOfStake = true ∨ ∀ tx ∈ block.vtx, tx.isCoinStake = false := by
  have hok : BlockOk nd.toBlockNode block := by
    obtain ⟨hstakes, hbases, htxs, hbls⟩ := checkBlock_ok rfl hcheck
    exact ⟨hstakes, hbases, htxs, hbls⟩
  obtain ⟨_, nCoinAge, s, p, hconnected⟩ := connectBlock_ok hgenesis h
  constructor
  · rintro ⟨hplace, _⟩
    by_cases hpos : block.isProofOfStake = true
    · exact .inl hpos
    · refine .inr fun tx htx => ?_
      obtain ⟨i, hi⟩ := List.getElem?_of_mem htx
      by_contra hcs
      exact hpos (hplace i tx hi (by simpa using hcs)).1
  · intro hcond
    have hplace : CoinStakeSecond block := by
      intro i tx hi hcs
      rcases hcond with hpos | hnone
      · exact ⟨hpos, (hok.isCoinStake_iff_second hpos hi).mp hcs⟩
      · rw [hnone tx (List.mem_of_getElem? hi)] at hcs
        cases hcs
    exact ⟨hplace, fun hpublic => valueBounded_of_connected hok rfl hpublic hplace hconnected⟩

/-! ## Concrete blocks -/

/-- A transaction that spends three and creates three. -/
def evenSpend : CTransaction (ZMod groupOrder) :=
  { vin := [coinInput 0], vout := [navOutput 3] }

/-- A coinstake that spends five. -/
def stakeOf (nValue : Int) : CTransaction (ZMod groupOrder) :=
  { vin := [coinInput 1], vout := [{ nValue := 0 }, navOutput nValue] }

/-- A proof-of-stake block whose coinstake takes the reward of a year. -/
def stakeBlock : CBlock (ZMod groupOrder) :=
  { hash := 3, vtx := [coinbaseOf [navOutput 0] [], stakeOf (5 + maxMintProofOfStake), evenSpend],
    vchBlockSig := [1] }

/-- A proof-of-work block with a coinstake at the end. -/
def workBlock : CBlock (ZMod groupOrder) :=
  { hash := 3, vtx := [coinbaseOf [navOutput 0] [], evenSpend, stakeOf 1000] }

/-- The outputs that both blocks spend. -/
def stakeView : CStateView (ZMod groupOrder) := coinView [navOutput 3, navOutput 5]

theorem connectBlock_coinStake_stakeBlock :
    ∃ c, (connectBlock (fixedChain true noDeployments) stakeBlock (fixedIndex 3) (fixedIndex 2) {}
        stakeView true false).result = .ok c ∧
      CoinStakeSecond stakeBlock ∧
      ValueBounded (fixedChain true noDeployments)
        (.of stakeBlock (fixedIndex 3) (fixedIndex 2) stakeView true false) stakeView
        c.locals.nFees := by
  refine Except.exists_and_of_isOk (by decide +kernel) fun c hc => ?_
  obtain ⟨hplace, hbound⟩ := (connectBlock_coinStake_iff _ _ _ _ _ _ true true _ c
    (by decide +kernel) (by decide) hc).mpr (.inl (by decide))
  exact ⟨hplace, hbound (by decide)⟩

/-- The proof-of-work block is accepted: its third transaction is a coinstake that spends five
and creates a thousand. -/
theorem coinStake_creates_workBlock :
    checkBlock (fixedChain true noDeployments).toBlockNode { workBlock with fChecked := false } true
        true true = .ok () ∧
      (∃ c, (connectBlock (fixedChain true noDeployments) workBlock (fixedIndex 3) (fixedIndex 2) {}
        stakeView true false).result = .ok c) ∧
      workBlock.isProofOfStake = false ∧ (∀ tx ∈ workBlock.vtx, tx.isBLSCT = false) ∧
      workBlock.vtx[2]? = some (stakeOf 1000) ∧ ¬ CoinStakeSecond workBlock ∧
      (connectedBefore (fixedChain true noDeployments)
        (.of workBlock (fixedIndex 3) (fixedIndex 2) stakeView true false) stakeView 2).map
        (fun s => s.view.getValueIn (stakeOf 1000)) = .ok 5 ∧
      ((stakeOf 1000).vout.map CTxOut.nValue).sum = 1000 := by
  refine ⟨by decide +kernel, Except.exists_of_isOk (by decide +kernel), by decide, by decide, rfl,
    ?_, by decide +kernel, by decide⟩
  intro hplace
  have hstake := hplace 2 (stakeOf 1000) rfl (by decide)
  exact absurd hstake.1 (by decide)

end Navcoin
