import Navcoin.Validation.BlockSteps

/-!
# Who authorises a program

`VerifyBLSCT` collects a key for every program and has the aggregate signature checked for the
pairs it collected; `ConnectBlock` executes the program later without looking at that result.

* `mem_trace_connectTransactions_of_key`: executions and signature checks of a block are those
  of its transactions;
* `connectBlock_programs_signed_iff`: in an accepted block every keyed program that took effect
  was signed for exactly if each of them is in a transaction with the BLS-input flag that is
  neither coinbase nor coinstake.
-/

namespace Navcoin

variable {G : Type} [G1Group G] [DecidableEq G] {nCoinAge : Int}

/-- Of every keyed program that took effect, the key and the hash of its output are among the
pairs of an aggregate signature that was accepted for the transaction. -/
def ProgramsSigned (c : Crypto G) (tr : List (Event G)) : Prop :=
  ∀ tx n program, .execute tx n program ∈ tr → program.isKeyed = true →
    ∃ o signers, tx.vout[n]? = some o ∧ .aggregateVerify tx signers (some true) ∈ tr ∧
      (program.key, writeUint256 (o.getHash c)) ∈ signers

/-- The signature of the transaction is checked. -/
def ChecksSignature (tx : CTransaction G) : Prop :=
  tx.isCoinBase = false ∧ tx.isCoinStake = false ∧ tx.isBLSInput = true

/-- Keyed programs are only in transactions whose signature is checked. -/
def ProgramsInSigned (b : Bls G) (view : CStateView G) (fDotNav : Bool) (block : CBlock G) :
    Prop :=
  ∀ tx ∈ block.vtx, ∀ o ∈ tx.vout, ∀ program, HasProgram b view fDotNav o program →
    program.isKeyed = true → ChecksSignature tx

variable {nd : ChainNode G} {x : BlockContext G}
variable {view : CStateView G} {program : Predicate G} {tx : CTransaction G} {w : Event G}
  {s p c : ConnectLocals G} {tr : List (Event G)}

/-! ## Events of the outputs -/

variable {o : CTxOut G}

omit [DecidableEq G] in
/-- Which programs take effect depends on the consensus parameters only. -/
theorem HasProgram.congr {b : Bls G} {view' : CStateView G} {fDotNav : Bool}
    (h : HasProgram b view fDotNav o program) (hparams : view.SameParams view'.toDaoView) :
    HasProgram b view' fDotNav o program := by
  obtain ⟨hdata, hprogram, htakes⟩ := h
  refine ⟨hdata, hprogram, ?_⟩
  rw [← htakes]
  simp only [Predicate.takesEffect, CStateView.tokensEnabled, hparams.param]

/-- An event of the outputs is the execution of a program. -/
theorem mem_trace_connectOutputs {f : ConnectLocals G} {out : OutputLocals G}
    (h : (connectOutputs nd x tx f).result = .ok out) (hw : w ∈ (connectOutputs nd x tx f).trace) :
    ∃ n o program, tx.vout[n]? = some o ∧
      HasProgram nd.toBls f.view (x.deployed nd).dotNav o program ∧ w = .execute tx n program := by
  obtain ⟨i, e, t, hi, hbefore, hmem⟩ :=
    Traced.mem_trace_foldlM (connectOutput nd x tx) tx.vout.zipIdx _ out h w hw
  obtain ⟨t₁, t', ht₁, hstep, _⟩ :=
    Traced.foldlM_ok_at (connectOutput nd x tx) tx.vout.zipIdx _ out h i e hi
  rw [hbefore] at ht₁
  cases ht₁
  rw [(connectOutput_view hstep).2] at hmem
  obtain ⟨program, hprogram, rfl⟩ := mem_trace_executeProgram hmem
  rw [List.getElem?_zipIdx] at hi
  obtain ⟨o, ho, rfl⟩ := Option.map_eq_some_iff.mp hi
  refine ⟨i, o, program, ho, hprogram.congr ?_, by simp⟩
  rw [(foldlM_connectOutput_frame hbefore).dao]
  exact .refl _

/-- A program that takes effect is seen. -/
theorem execute_mem_connectOutputs {f : ConnectLocals G} {out : OutputLocals G}
    (h : (connectOutputs nd x tx f).result = .ok out) {n : Nat} (ho : tx.vout[n]? = some o)
    (hprogram : HasProgram nd.toBls f.view (x.deployed nd).dotNav o program) :
    .execute tx n program ∈ (connectOutputs nd x tx f).trace := by
  obtain ⟨t, t', hbefore, hstep, hmem⟩ :=
    Traced.foldlM_ok_at (connectOutput nd x tx) tx.vout.zipIdx _ out h n (o, n) (by simp [ho])
  refine hmem _ ?_
  obtain ⟨hview, htrace⟩ := connectOutput_view hstep
  rw [htrace]
  refine executeProgram_ok hview (hprogram.congr ?_)
  rw [(foldlM_connectOutput_frame hbefore).dao]
  exact .refl _

/-! ## Events of the inputs -/

/-- The events of the inputs are calls of `VerifyBLSCT`. -/
theorem mem_trace_checkSpending (hw : w ∈ (checkSpending nd x view tx).trace) :
    tx.isCoinBase = false ∧ tx.isCoinStake = false ∧
      w ∈ (verifyBLSCT nd.toBls tx view false 0).trace := by
  unfold checkSpending at hw
  split at hw
  · cases hw
  · next hcb =>
    simp only [checkInputs, Traced.mem_trace_bind, Traced.mem_trace_onlyIf, Traced.trace_ofExcept,
      List.not_mem_nil, and_false, exists_false, or_false] at hw
    obtain ⟨_, hcs, hverify⟩ := mem_trace_checkTxInputs hw
    exact ⟨by simpa using hcb, hcs, hverify⟩

theorem aggregateVerify_checkSpending {tx' : CTransaction G} {signers : List (G × Bytes)}
    {ret : Option Bool} (hw : .aggregateVerify tx' signers ret ∈ (checkSpending nd x view tx).trace)
    :
    tx' = tx ∧ ChecksSignature tx := by
  obtain ⟨hcb, hcs, hverify⟩ := mem_trace_checkSpending hw
  obtain ⟨s, _, ⟨_, _, heq⟩ | ⟨hsig, _, heq⟩⟩ := mem_trace_verifyBLSCT hverify
  · cases heq
  · cases heq
    exact ⟨rfl, hcb, hcs, by simpa [BlsctChecks.of] using hsig⟩

theorem execute_not_mem_checkSpending {tx' : CTransaction G} {n : Nat} :
    .execute tx' n program ∉ (checkSpending nd x view tx).trace := by
  intro hw
  obtain ⟨_, _, hverify⟩ := mem_trace_checkSpending hw
  obtain ⟨s, _, ⟨_, _, heq⟩ | ⟨_, _, heq⟩⟩ := mem_trace_verifyBLSCT hverify
  · cases heq
  · cases heq

/-- A transaction whose signature is checked was signed for by the keys of its programs. -/
theorem TxConnected.signed {s' : ConnectLocals G} (h : TxConnected nd x s tx s' tr)
    (hsig : ChecksSignature tx) :
    ∃ signers, .aggregateVerify tx signers (some true) ∈ tr ∧
      ∀ o ∈ tx.vout, ∀ p ∈ programSigners nd.toBls o, p ∈ signers := by
  obtain ⟨hcb, hcs, hin⟩ := hsig
  obtain ⟨f, out, _, _, htrace⟩ := h.outputs
  have hflag : tx.isBLSCT = true := by simp [CTransaction.isBLSCT, hin]
  obtain ⟨_, _, hverify⟩ := checkTxInputs_ok (h.inputs hcb)
  obtain ⟨hok, hmem⟩ := hverify hflag hcs
  obtain ⟨_, t, hcollect, _, hagg⟩ := verifyBLSCT_ok hflag hok
  refine ⟨t.signers, ?_, (collectBLSCT_signers ?_ hcollect).2⟩
  · rw [htrace]
    refine List.mem_append_left _ ?_
    simp only [checkSpending, hcb, Bool.false_eq_true, if_false, checkInputs,
      Traced.mem_trace_bind]
    exact .inl (hmem _ (hagg hin))
  · simp [BlsctChecks.of, hin]

/-! ## Events of the block -/

/-- The event concerns a key: a program ran or a signature was checked. -/
def Event.concernsKey : Event G → Prop
  | .execute .. => True
  | .aggregateVerify .. => True
  | .verify .. => False
  | .pay .. => False
  | .record .. => False

omit [G1Group G] [DecidableEq G] in
theorem Event.concernsKey.not_isRecord (h : w.concernsKey) : ¬ w.isRecord := by
  cases w with
  | record vote => exact h.elim
  | _ => exact id

omit [DecidableEq G] in
/-- The coinstake is only checked to balance. -/
theorem mem_trace_connectStake (hw : w ∈ (connectStake nd x nCoinAge s).trace) :
    ∃ tx key ret, w = .verify tx key ret := by
  unfold connectStake at hw
  split at hw
  · cases hw
  · simp only [Traced.mem_trace_bind, Traced.trace_rejectIf, List.not_mem_nil, false_or] at hw
    obtain ⟨_, _, hw⟩ := hw
    split at hw
    · simp only [verifyBLSCTBalanceOutputs, Traced.mem_trace_bind, trace_catchAll,
        Traced.trace_ofExcept, Traced.trace_pure, List.not_mem_nil, and_false, exists_false,
        false_or, or_false] at hw
      obtain ⟨_, _, _, _, hw⟩ := hw
      exact ⟨_, _, _, mem_trace_checkBalance hw⟩
    · cases hw

section Events

variable (h : BlockConnected nd x view nCoinAge s p c tr)
include h

/-- **Executions and signature checks of a block** are those of its transactions. -/
theorem mem_trace_connectTransactions_of_key (hw : w ∈ tr) (hkey : w.concernsKey) :
    w ∈ (connectTransactions nd x view).trace := by
  rw [h.trace] at hw
  rcases List.mem_append.mp hw with hw | hw
  · exact hw
  rcases List.mem_append.mp hw with hw | hw
  · exact absurd (mem_trace_castStakerVotes hw) hkey.not_isRecord
  rcases List.mem_append.mp hw with hw | hw
  · obtain ⟨coinbase, _, q, _, hpay, _, htrace⟩ := connectCoinbase_ok h.coinbase
    rw [htrace] at hw
    obtain ⟨prid, o, rfl⟩ := mem_trace_payOutputs hpay hw
    exact hkey.elim
  · obtain ⟨tx, key, ret, rfl⟩ := mem_trace_connectStake hw
    exact hkey.elim

/-- The transaction that a signature was checked for. -/
theorem BlockConnected.checksSignature {signers : List (G × Bytes)} {ret : Option Bool}
    (hw : .aggregateVerify tx signers ret ∈ tr) : ChecksSignature tx := by
  obtain ⟨i, tx', t, u, t', tr, tr', _, _, _, hconn, hmem⟩ :=
    mem_trace_connectTransactions h.transactions
      (mem_trace_connectTransactions_of_key h hw trivial) id
  obtain ⟨f, out, _, hout, htrace⟩ := hconn.outputs
  rw [htrace] at hmem
  rcases List.mem_append.mp hmem with hmem | hmem
  · obtain ⟨rfl, hsig⟩ := aggregateVerify_checkSpending hmem
    exact hsig
  · obtain ⟨n, o, program, _, _, heq⟩ := mem_trace_connectOutputs hout hmem
    cases heq

/-- A program of the block that can take effect does, and is seen. -/
theorem BlockConnected.execute_mem (htx : tx ∈ x.block.vtx) (ho : o ∈ tx.vout)
    (hprogram : HasProgram nd.toBls view (x.deployed nd).dotNav o program) :
    ∃ n, tx.vout[n]? = some o ∧ .execute tx n program ∈ tr := by
  obtain ⟨i, hi⟩ := List.mem_iff_getElem?.mp htx
  obtain ⟨n, hn⟩ := List.mem_iff_getElem?.mp ho
  obtain ⟨t, u, t', tr₁, tr', hbefore, hvoted, hconn, hmem⟩ :=
    connectTransactions_at h.transactions hi
  obtain ⟨f, out, hview, hout, htrace⟩ := hconn.outputs
  have hparams : view.SameParams f.view.toDaoView := by
    rw [hview]
    exact (foldlM_connectTransaction_params hbefore).trans hvoted.params
  refine ⟨n, hn, ?_⟩
  rw [h.trace]
  refine List.mem_append_left _ (hmem _ ?_)
  rw [htrace]
  exact List.mem_append_right _ (execute_mem_connectOutputs hout hn (hprogram.congr hparams))

/-- An execution of the block, and the transaction it belongs to. -/
theorem BlockConnected.execute {n : Nat} (hw : .execute tx n program ∈ tr) :
    tx ∈ x.block.vtx ∧ (∃ o, tx.vout[n]? = some o ∧
      HasProgram nd.toBls view (x.deployed nd).dotNav o program) ∧
      ∃ t t' tr', TxConnected nd x t tx t' tr' ∧ ∀ w ∈ tr', w ∈ tr := by
  obtain ⟨i, tx', t, u, t', tr₁, tr', hi, hbefore, hvoted, hconn, hmem⟩ :=
    mem_trace_connectTransactions h.transactions
      (mem_trace_connectTransactions_of_key h hw trivial) id
  obtain ⟨f, out, hview, hout, htrace⟩ := hconn.outputs
  rw [htrace] at hmem
  rcases List.mem_append.mp hmem with hmem | hmem
  · exact absurd hmem execute_not_mem_checkSpending
  obtain ⟨m, o, program', ho, hprogram, heq⟩ := mem_trace_connectOutputs hout hmem
  cases heq
  have hparams : f.view.SameParams view.toDaoView := by
    rw [hview]
    exact ((foldlM_connectTransaction_params hbefore).trans hvoted.params).symm
  refine ⟨List.mem_of_getElem? hi, ⟨o, ho, hprogram.congr hparams⟩, ?_⟩
  obtain ⟨_, v, v', _, tr'', _, _, hv, hsub⟩ := connectTransactions_at h.transactions hi
  refine ⟨v, v', tr'', hv, fun w hw => ?_⟩
  rw [h.trace]
  exact List.mem_append_left _ (hsub w hw)

end Events

/-- **Who authorises a program.**  In a block that was accepted every keyed program that took
effect was signed for exactly if each is in a transaction whose signature is checked: one with
the BLS-input flag, neither coinbase nor coinstake. -/
theorem connectBlock_programs_signed_iff (nd : ChainNode G) (block : CBlock G)
    (pindex pprev : CBlockIndex) (prev : Supply) (view : CStateView G)
    (fScriptChecks fJustCheck : Bool) (c : Connected G)
    (h : (connectBlock nd block pindex pprev prev view fScriptChecks fJustCheck).result = .ok c) :
    ProgramsSigned nd.toCrypto
        (connectBlock nd block pindex pprev prev view fScriptChecks fJustCheck).trace ↔
      block.hash = nd.hashGenesisBlock ∨
        ProgramsInSigned nd.toBls view (nd.deployments pprev).dotNav block := by
  by_cases hgenesis : block.hash = nd.hashGenesisBlock
  · -- the programs of the first block are not executed
    refine ⟨fun _ => .inl hgenesis, fun _ tx n program hmem => ?_⟩
    simp only [connectBlock, hgenesis, if_true, Traced.mem_trace_bind, Traced.trace_ofExcept,
      Traced.trace_pure, List.not_mem_nil, and_false, exists_false, or_false] at hmem
  obtain ⟨_, nCoinAge, s, p, hblock⟩ := connectBlock_ok hgenesis h
  rw [or_iff_right hgenesis]
  constructor
  · intro hsigned tx htx o ho program hprogram hkeyed
    obtain ⟨n, _, hmem⟩ := hblock.execute_mem htx ho hprogram
    obtain ⟨_, signers, _, hagg, _⟩ := hsigned tx n program hmem hkeyed
    exact hblock.checksSignature hagg
  · intro hin tx n program hmem hkeyed
    obtain ⟨htx, ⟨o, ho, hprogram⟩, t, t', tr', hconn, hsub⟩ := hblock.execute hmem
    obtain ⟨signers, hagg, hsigners⟩ :=
      hconn.signed (hin tx htx o (List.mem_of_getElem? ho) program hprogram hkeyed)
    refine ⟨o, signers, ho, hsub _ hagg, hsigners o (List.mem_of_getElem? ho) _ ?_⟩
    obtain ⟨hdata, rfl, _⟩ := hprogram
    simp [programSigners, hdata, hkeyed]

/-! ## Concrete blocks -/

/-- A program that creates a token, under the key five. -/
def tokenData : Bytes :=
  toLE 4 2 ++ writeG1 (fixedBls true).toCrypto 5 ++ writeVector [0x41] ++ writeUint64 0 ++
    writeVector [] ++ writeUint64 100

/-- A transaction that spends three and creates the token. -/
def signedToken : CTransaction (ZMod groupOrder) :=
  { signedSpend with vout := [{ nValue := 3, scriptPubKey := [op1], vData := tokenData }] }

/-- The same transaction with the output flag only. -/
def unsignedToken : CTransaction (ZMod groupOrder) :=
  { signedToken with nVersion := 0x20, vchTxSig := [] }

/-- A coinstake with both flags that creates the token. -/
def stakedToken : CTransaction (ZMod groupOrder) :=
  { signedToken with vout := { nValue := 0 } :: signedToken.vout }

/-- A block with the transaction. -/
def tokenBlock (tx : CTransaction (ZMod groupOrder)) : CBlock (ZMod groupOrder) :=
  { hash := 3, vtx := [coinbaseOf [navOutput 0] [], tx],
    vchBlockSig := if tx.isCoinStake then [1] else [] }

/-- The output that is spent, in a view where tokens are enabled. -/
def tokenView : CStateView (ZMod groupOrder) :=
  { coinView [keyedOutput 3] with
    consensusParams := fun p => if p = .confidentialTokensEnabled then 1 else 0 }

theorem connectBlock_programs_signed_signedToken :
    ∃ c, (connectBlock (fixedChain true noDeployments) (tokenBlock signedToken) (fixedIndex 3)
        (fixedIndex 2) {} tokenView true false).result = .ok c ∧
      ProgramsSigned (fixedChain true noDeployments).toCrypto
        (connectBlock (fixedChain true noDeployments) (tokenBlock signedToken) (fixedIndex 3)
          (fixedIndex 2) {} tokenView true false).trace := by
  refine Except.exists_and_of_isOk (by decide +kernel) fun c hc =>
    (connectBlock_programs_signed_iff _ _ _ _ _ _ _ _ c hc).mpr (.inr ?_)
  -- the coinbase has no program at all
  intro tx htx o ho program hprogram _
  simp only [tokenBlock, List.mem_cons, List.not_mem_nil, or_false] at htx
  rcases htx with rfl | rfl
  · obtain rfl := List.mem_singleton.mp ho
    exact absurd hprogram.1 (by decide)
  · exact ⟨by decide, by decide, by decide⟩

/-- The block of the transaction is accepted and its program runs, although every aggregate
signature is refused. -/
def RunsUnsigned (tx : CTransaction (ZMod groupOrder)) : Prop :=
  checkTransaction (fixedChain false noDeployments).toNode tx = .ok () ∧
    ∃ c n program, (connectBlock (fixedChain false noDeployments) (tokenBlock tx) (fixedIndex 3)
        (fixedIndex 2) {} tokenView true false).result = .ok c ∧
      .execute tx n program ∈ (connectBlock (fixedChain false noDeployments) (tokenBlock tx)
        (fixedIndex 3) (fixedIndex 2) {} tokenView true false).trace ∧
      program.action = .createToken ∧ program.kParameters = [5] ∧
      ∀ signers ret, .aggregateVerify tx signers ret ∉
        (connectBlock (fixedChain false noDeployments) (tokenBlock tx) (fixedIndex 3)
          (fixedIndex 2) {} tokenView true false).trace

theorem programs_unsigned_accepted : RunsUnsigned unsignedToken ∧ RunsUnsigned stakedToken := by
  have hcheck : ∀ tx ∈ [unsignedToken, stakedToken],
      checkTransaction (fixedChain false noDeployments).toNode tx = .ok () := by decide +kernel
  have hresult : ∀ tx ∈ [unsignedToken, stakedToken],
      (connectBlock (fixedChain false noDeployments) (tokenBlock tx) (fixedIndex 3) (fixedIndex 2)
        {} tokenView true false).result.isOk = true := by decide +kernel
  have houtput : ∀ tx ∈ [unsignedToken, stakedToken],
      { nValue := 3, scriptPubKey := [op1], vData := tokenData } ∈ tx.vout := by decide
  have hunchecked : ∀ tx ∈ [unsignedToken, stakedToken],
      ¬ (tx.isCoinBase = false ∧ tx.isCoinStake = false ∧ tx.isBLSInput = true) := by decide
  have hprogram : HasProgram (fixedChain false noDeployments).toBls tokenView false
      { nValue := 3, scriptPubKey := [op1], vData := tokenData }
      (Predicate.ofVch (fixedBls true).toCrypto tokenData) :=
    ⟨by decide, rfl, by decide +kernel⟩
  suffices h : ∀ tx ∈ [unsignedToken, stakedToken], RunsUnsigned tx from
    ⟨h _ (by simp), h _ (by simp)⟩
  intro tx htx
  obtain ⟨c, hc⟩ := Except.exists_of_isOk (hresult tx htx)
  obtain ⟨_, nCoinAge, s, p, hblock⟩ := connectBlock_ok
    (show (tokenBlock tx).hash ≠ (fixedChain false noDeployments).hashGenesisBlock by
      simp only [tokenBlock]; decide) hc
  obtain ⟨n, _, hrun⟩ := hblock.execute_mem (show tx ∈ _ by simp [tokenBlock, BlockContext.of])
    (houtput tx htx) hprogram
  exact ⟨hcheck tx htx, c, n, _, hc, hrun, by decide +kernel, by decide +kernel,
    fun signers ret hmem => hunchecked tx htx (hblock.checksSignature hmem)⟩

end Navcoin
