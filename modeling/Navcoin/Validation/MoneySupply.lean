import Navcoin.Validation.NativeValue

/-!
# The public and the private money supply

A block changes the two supplies by sums of its ledger.  What they should change by is the native
coin that public outputs gain, and the native coin that private outputs gain; the amounts of
private outputs are those that their commitments were opened with.

* `foldl_count_supply`: the changes that the ledger gives, with one transaction that has private
  inputs at most;
* `Movement.counted_eq_publicChange`, `Movement.moved_eq_privateChange`: what is miscounted;
* `connectBlock_supply_iff`: when both supplies change by what they should.
-/

namespace Navcoin

variable {G : Type}

/-! ## What the supplies should change by -/

/-- The hidden amount of a private output of the native coin. -/
def hiddenValue (amount : CTxOut G → Int) (o : CTxOut G) : Int :=
  if o.hasRangeProof && o.tokenId = {} then amount o else 0

/-- The amount of the native coin in an output that is not private. -/
def openValue (o : CTxOut G) : Int := if o.hasRangeProof then 0 else nativeValue o

/-- The public amount of an output that is private or in another asset. -/
def strayValue (o : CTxOut G) : Int := if o.hasRangeProof then o.nValue else otherValue o

namespace Movement

/-- The outputs that are neither a contribution to the fund nor a fee. -/
def keptOutputs (m : Movement G) : List (CTxOut G) :=
  m.tx.vout.filter fun o => !o.isCommunityFundContribution && !o.scriptPubKey.isFee

/-- The native coin that public outputs gain. -/
def publicChange (m : Movement G) : Int :=
  valueBy nativeValue m.keptOutputs - valueBy nativeValue m.spent

/-- The native coin that private outputs gain; a fee from private inputs is a loss. -/
def privateChange (amount : CTxOut G → Int) (m : Movement G) : Int :=
  m.created (hiddenValue amount)

/-- A private transaction that pays a fee balances in the native coin. -/
def Balanced (amount : CTxOut G → Int) (m : Movement G) : Prop :=
  m.paysFee = true → m.tx.isBLSCT = true →
    m.created (hiddenValue amount) + m.created openValue = 0

instance (amount : CTxOut G → Int) (m : Movement G) : Decidable (m.Balanced amount) :=
  inferInstanceAs (Decidable (_ → _ → _))

/-- What the coinbase and a coinstake create. -/
def reward (m : Movement G) : Int := if m.paysFee then 0 else m.created CTxOut.nValue

/-! ## What they are changed by -/

/-- What the public supply is changed by. -/
def counted (m : Movement G) : Int :=
  m.created CTxOut.nValue - valueBy CTxOut.nValue m.contributions - m.blsctFee CTxOut.nValue

/-- What the private supply is changed by. -/
def moved (m : Movement G) : Int :=
  if m.tx.isBLSInput || m.entersPrivate then -m.created CTxOut.nValue else 0

/-- Amounts of other assets, and the fee outputs of a transaction that is not private or pays
none. -/
def publicMiscount (m : Movement G) : Int :=
  valueBy otherValue m.keptOutputs - valueBy otherValue m.spent +
    if m.paysFee && m.tx.isBLSCT then 0 else valueBy CTxOut.nValue m.feeOutputs

/-- In a private transaction the public amounts that its balance leaves out; in any other the
hidden amounts, which nothing balances. -/
def privateMiscount (amount : CTxOut G → Int) (m : Movement G) : Int :=
  if m.paysFee && m.tx.isBLSCT then -m.created strayValue
  else (if m.tx.isBLSInput then -m.created CTxOut.nValue else 0) - m.created (hiddenValue amount)

/-- What a coinbase or a coinstake with private inputs creates. -/
def rewardMiscount (m : Movement G) : Int :=
  if m.tx.isBLSInput then m.reward else 0

end Movement

/-! ## The ledger -/

variable {m : Movement G}

section Ledger

/-- The change of the public supply. -/
def Totals.publicDelta (t : Totals) : Int := t.nCreated + t.nMovedToPublic - t.nBLSCTPublicFees

/-- The change of the private supply. -/
def Totals.privateDelta (t : Totals) : Int :=
  t.nMovedToBLS - t.nBLSCTPrivateFees - t.nMovedToPublic

/-- The entry of a transaction, as long as no private fees were counted before one with private
inputs. -/
theorem count_supply {t : Totals} (h : m.tx.isBLSInput = true → t.nBLSCTPrivateFees = 0) :
    (t.count m).publicDelta = t.publicDelta + m.counted ∧
      (t.count m).privateDelta = t.privateDelta + m.moved := by
  unfold Totals.publicDelta Totals.privateDelta Totals.count Movement.counted Movement.moved
  cases hin : m.tx.isBLSInput with
  | true =>
    have hprivate : m.entersPrivate = false := by simp [Movement.entersPrivate, hin]
    have hzero := h hin
    simp only [hprivate, if_true, Bool.false_eq_true, if_false, Bool.true_or]
    omega
  | false =>
    cases m.entersPrivate with
    | true =>
      simp only [Bool.false_eq_true, if_false, if_true, Bool.false_or]
      omega
    | false =>
      simp only [Bool.false_eq_true, if_false, Bool.false_or]
      omega

/-- **The changes that the ledger gives**, if at most one transaction has private inputs. -/
theorem foldl_count_supply (l : List (Movement G)) :
    ∀ t : Totals, (l.filter fun m => m.tx.isBLSInput).length ≤ 1 →
      (t.nBLSCTPrivateFees = 0 ∨ ∀ m ∈ l, m.tx.isBLSInput = false) →
      (l.foldl Totals.count t).publicDelta = t.publicDelta + (l.map Movement.counted).sum ∧
        (l.foldl Totals.count t).privateDelta = t.privateDelta + (l.map Movement.moved).sum := by
  induction l with
  | nil =>
    simp
  | cons m l ih =>
    intro t hone hfees
    have hstep : m.tx.isBLSInput = true → t.nBLSCTPrivateFees = 0 := by
      intro hin
      rcases hfees with hzero | hnone
      · exact hzero
      · rw [hnone m List.mem_cons_self] at hin
        cases hin
    obtain ⟨hpublic, hprivate⟩ := count_supply hstep
    have hrest : (l.filter fun m => m.tx.isBLSInput).length ≤ 1 ∧
        ((t.count m).nBLSCTPrivateFees = 0 ∨ ∀ m ∈ l, m.tx.isBLSInput = false) := by
      cases hin : m.tx.isBLSInput with
      | true =>
        -- this is the one transaction with private inputs
        rw [List.filter_cons_of_pos (by simpa using hin), List.length_cons] at hone
        have hnil : (l.filter fun m => m.tx.isBLSInput) = [] :=
          List.eq_nil_of_length_eq_zero (by omega)
        refine ⟨by simp [hnil], .inr fun m' hm' => ?_⟩
        simpa using List.filter_eq_nil_iff.mp hnil m' hm'
      | false =>
        rw [List.filter_cons_of_neg (by simp [hin])] at hone
        refine ⟨hone, ?_⟩
        rcases hfees with hzero | hnone
        · exact .inl (by simp [Totals.count, hin, hzero])
        · exact .inr fun m' hm' => hnone m' (List.mem_cons_of_mem m hm')
    obtain ⟨hpublic', hprivate'⟩ := ih (t.count m) hrest.1 hrest.2
    rw [List.foldl_cons, List.map_cons, List.map_cons, List.sum_cons, List.sum_cons, hpublic',
      hpublic]
    omega

end Ledger

/-! ## Miscounts -/

namespace Movement

/-- Every output is a contribution, a fee or kept. -/
theorem valueBy_vout (w : CTxOut G → Int) (m : Movement G) :
    valueBy w m.tx.vout =
      valueBy w m.contributions + valueBy w m.feeOutputs + valueBy w m.keptOutputs := by
  unfold contributions feeOutputs keptOutputs
  induction m.tx.vout with
  | nil => rfl
  | cons o l ih =>
    have hscripts : o.isCommunityFundContribution = true → o.scriptPubKey.isFee = false := by
      intro hc
      simp only [CTxOut.isCommunityFundContribution, CScript.isCommunityFundContribution,
        beq_iff_eq] at hc
      rw [hc]
      rfl
    cases hc : o.isCommunityFundContribution with
    | true =>
      simp only [List.filter_cons, hc, hscripts hc, if_true, Bool.false_eq_true, if_false,
        Bool.not_true, Bool.false_and, valueBy_cons]
      omega
    | false =>
      cases hf : o.scriptPubKey.isFee with
      | true =>
        simp only [List.filter_cons, hc, hf, if_true, Bool.false_eq_true, if_false, Bool.not_true,
          Bool.and_false, valueBy_cons]
        omega
      | false =>
        simp only [List.filter_cons, hc, hf, if_true, Bool.false_eq_true, if_false, Bool.not_false,
          Bool.and_self, valueBy_cons]
        omega

theorem counted_eq_publicChange (m : Movement G) :
    m.counted = m.publicChange + m.publicMiscount := by
  have hvout := valueBy_vout CTxOut.nValue m
  have hkept := valueBy_nValue_eq_add m.keptOutputs
  have hspent := valueBy_nValue_eq_add m.spent
  unfold counted publicChange publicMiscount created blsctFee
  split <;> omega

theorem created_eq_add {w w' : CTxOut G → Int} (h : ∀ o : CTxOut G, o.nValue = w o + w' o)
    (m : Movement G) : m.created CTxOut.nValue = m.created w + m.created w' := by
  have hsum : ∀ l : List (CTxOut G), valueBy CTxOut.nValue l = valueBy w l + valueBy w' l := by
    intro l
    induction l with
    | nil => rfl
    | cons o l ih =>
      have ho := h o
      simp only [valueBy_cons]
      omega
  have hvout := hsum m.tx.vout
  have hspent := hsum m.spent
  unfold created
  omega

theorem nValue_eq_openValue_add (o : CTxOut G) : o.nValue = openValue o + strayValue o := by
  have hsplit := nValue_eq_add o
  unfold openValue strayValue
  split <;> omega

section Coinbase

variable (hcb : m.tx.isCoinBase = true → m.tx.isBLSCT = false)
include hcb

/-- A transaction has a flag, and pays a fee, exactly if its value goes into or out of private
outputs; the coinbase has none. -/
theorem moves_iff :
    (m.tx.isBLSInput || m.entersPrivate) =
      (m.paysFee && m.tx.isBLSCT || m.tx.isBLSInput) := by
  unfold entersPrivate paysFee
  unfold CTransaction.isBLSCT at hcb ⊢
  cases hbase : m.tx.isCoinBase with
  | true =>
    have hflags := hcb hbase
    simp only [Bool.or_eq_false_iff] at hflags
    simp [hflags]
  | false =>
    cases m.tx.isBLSInput <;> cases m.tx.isCTOutput <;> cases m.tx.isCoinStake <;> rfl

theorem moved_eq_privateChange {amount : CTxOut G → Int} (hbalance : m.Balanced amount) :
    m.moved = m.privateChange amount + m.privateMiscount amount := by
  have hsplit := created_eq_add nValue_eq_openValue_add m
  unfold moved privateChange privateMiscount
  rw [moves_iff hcb]
  cases hprivate : m.paysFee && m.tx.isBLSCT with
  | true =>
    rw [Bool.and_eq_true] at hprivate
    have hzero := hbalance hprivate.1 hprivate.2
    simp only [Bool.true_or, if_true]
    omega
  | false =>
    simp only [Bool.false_or, Bool.false_eq_true, if_false]
    omega

theorem counted_add_moved :
    m.counted + m.moved = m.reward - m.rewardMiscount - m.fee CTxOut.nValue -
      valueBy CTxOut.nValue m.contributions := by
  unfold counted moved rewardMiscount reward fee blsctFee
  rw [moves_iff hcb]
  cases hpays : m.paysFee with
  | true =>
    cases hbls : m.tx.isBLSCT with
    | true =>
      simp only [Bool.and_self, Bool.true_or, if_true, ite_self]
      omega
    | false =>
      have hin : m.tx.isBLSInput = false := by
        rw [CTransaction.isBLSCT, Bool.or_eq_false_iff] at hbls
        exact hbls.2
      simp only [hin, Bool.and_false, Bool.or_self, Bool.false_eq_true, if_false, if_true]
      omega
  | false =>
    cases m.tx.isBLSInput with
    | true =>
      simp only [Bool.false_and, Bool.false_or, if_true, Bool.false_eq_true, if_false]
      omega
    | false =>
      simp only [Bool.false_and, Bool.false_or, Bool.false_eq_true, if_false]
      omega

end Coinbase

end Movement

/-! ## The block -/

variable [G1Group G] [DecidableEq G]

/-- What the coinstake moves into private outputs after the loop. -/
def countedReward (nd : ChainNode G) (block : CBlock G) (pindex pprev : CBlockIndex)
    (view : CStateView G) (fScriptChecks fJustCheck : Bool) (c : ConnectLocals G) : Int :=
  let x : BlockContext G := .of block pindex pprev view fScriptChecks fJustCheck
  if block.hash = nd.hashGenesisBlock then 0
  else match checkContext nd x view with
    | .ok nCoinAge => privateReward nd x nCoinAge c
    | .error _ => 0

theorem sum_map_add_eq {α : Type} {f g k : α → Int} {l : List α} (h : ∀ a ∈ l, f a = g a + k a) :
    (l.map f).sum = (l.map g).sum + (l.map k).sum := by
  rw [List.map_congr_left h, List.sum_map_add]

/-- What the supplies are changed by. -/
theorem connectBlock_deltas {nd : ChainNode G} {block : CBlock G} {pindex pprev : CBlockIndex}
    {prev : Supply} {view : CStateView G} {fScriptChecks fJustCheck : Bool} {c : Connected G}
    (hone : (block.vtx.filter CTransaction.isBLSInput).length ≤ 1)
    (h : (connectBlock nd block pindex pprev prev view fScriptChecks fJustCheck).result = .ok c) :
    let l := countedMovements nd block pindex pprev view fScriptChecks fJustCheck
    c.supply.nPublicMoneySupply = prev.nPublicMoneySupply + (l.map Movement.counted).sum ∧
      c.supply.nPrivateMoneySupply = prev.nPrivateMoneySupply + ((l.map Movement.moved).sum +
        countedReward nd block pindex pprev view fScriptChecks fJustCheck c.locals) := by
  intro l
  by_cases hgenesis : block.hash = nd.hashGenesisBlock
  · have hl : l = [] := if_pos hgenesis
    obtain ⟨rfl, _⟩ := connectBlock_genesis hgenesis h
    simp [hl, countedReward, hgenesis]
  · have hl : l = movements nd (.of block pindex pprev view fScriptChecks fJustCheck) view :=
      if_neg hgenesis
    obtain ⟨nCoinAge, hblock⟩ := connectBlock_totals hgenesis h
    have hreward : countedReward nd block pindex pprev view fScriptChecks fJustCheck c.locals =
        privateReward nd (.of block pindex pprev view fScriptChecks fJustCheck) nCoinAge
          c.locals := by
      simp only [countedReward, if_neg hgenesis, hblock.context]
    have hone' : (l.filter fun m => m.tx.isBLSInput).length ≤ 1 := by
      have htxs : block.vtx = l.map Movement.tx := by
        rw [hl]
        exact hblock.txs.symm
      rw [htxs, List.filter_map, List.length_map] at hone
      exact hone
    rw [hl] at hone' ⊢
    obtain ⟨hpublic, hprivate⟩ := foldl_count_supply _ {} hone' (.inl rfl)
    rw [hblock.supply]
    have htotals := hblock.totals
    simp only [ConnectLocals.totals, Totals.moveToBLS, Totals.mk.injEq] at htotals
    obtain ⟨_, hpubfees, hprivfees, hbls, hpub, hcreated, _⟩ := htotals
    simp only [Totals.publicDelta, Totals.privateDelta] at hpublic hprivate
    simp only [ConnectLocals.supply, hpubfees, hprivfees, hbls, hpub, hcreated]
    omega

/-- **What a connected block does to the supplies.**  If the private transactions balance, the
public supply changes by the native coin that public outputs gain, the private one by what private
outputs gain, and their sum by rewards, fees and contributions, exactly if nothing is
miscounted. -/
theorem connectBlock_supply_iff (nd : ChainNode G) (block : CBlock G) (pindex pprev : CBlockIndex)
    (prev : Supply) (view : CStateView G)
    (fScriptChecks fJustCheck fCheckMerkleRoot fCheckSig : Bool) (c : Connected G)
    (amount : CTxOut G → Int)
    (hcheck : checkBlock nd.toBlockNode { block with fChecked := false } fCheckMerkleRoot fCheckSig
      fScriptChecks = .ok ())
    (h : (connectBlock nd block pindex pprev prev view fScriptChecks fJustCheck).result = .ok c)
    (hbalance : ∀ m ∈ countedMovements nd block pindex pprev view fScriptChecks fJustCheck,
      m.Balanced amount) :
    let l := countedMovements nd block pindex pprev view fScriptChecks fJustCheck
    let reward := countedReward nd block pindex pprev view fScriptChecks fJustCheck c.locals
    (c.supply.nPublicMoneySupply = prev.nPublicMoneySupply + (l.map Movement.publicChange).sum ∧
      c.supply.nPrivateMoneySupply = prev.nPrivateMoneySupply +
        (l.map (Movement.privateChange amount)).sum ∧
      c.supply.nPublicMoneySupply + c.supply.nPrivateMoneySupply =
        prev.nPublicMoneySupply + prev.nPrivateMoneySupply +
          ((l.map Movement.reward).sum + reward) -
          c.locals.nFees - (c.supply.nCFSupply - prev.nCFSupply)) ↔
    (l.map Movement.publicMiscount).sum = 0 ∧
      (l.map (Movement.privateMiscount amount)).sum + reward = 0 ∧
      (l.map Movement.rewardMiscount).sum = 0 := by
  intro l reward
  obtain ⟨_, _, htxs, hone⟩ := checkBlock_ok rfl hcheck
  have hcounts : (∀ m ∈ l, m.tx ∈ block.vtx ∧ ∀ o ∈ m.tx.vout, 0 ≤ o.nValue) ∧
      c.locals.nFees = (l.map (Movement.fee CTxOut.nValue)).sum ∧
      c.supply.nCFSupply = prev.nCFSupply +
        (l.map fun m => valueBy CTxOut.nValue m.contributions).sum := connectBlock_counted h
  obtain ⟨hmoves, hfees, hfund⟩ := hcounts
  have hdeltas : c.supply.nPublicMoneySupply =
        prev.nPublicMoneySupply + (l.map Movement.counted).sum ∧
      c.supply.nPrivateMoneySupply =
        prev.nPrivateMoneySupply + ((l.map Movement.moved).sum + reward) :=
    connectBlock_deltas (show (block.vtx.filter _).length ≤ 1 from hone) h
  have hcb : ∀ m ∈ l, m.tx.isCoinBase = true → m.tx.isBLSCT = false := by
    intro m hm
    exact (htxs m.tx (hmoves m hm).1).coinBase
  have hcounted : (l.map Movement.counted).sum =
      (l.map Movement.publicChange).sum + (l.map Movement.publicMiscount).sum :=
    sum_map_add_eq fun m _ => m.counted_eq_publicChange
  have hmoved : (l.map Movement.moved).sum =
      (l.map (Movement.privateChange amount)).sum + (l.map (Movement.privateMiscount amount)).sum :=
    sum_map_add_eq fun m hm => Movement.moved_eq_privateChange (hcb m hm) (hbalance m hm)
  have hsum : (l.map Movement.reward).sum = (l.map Movement.counted).sum +
      (l.map Movement.moved).sum + (l.map Movement.rewardMiscount).sum +
      (l.map (Movement.fee CTxOut.nValue)).sum +
      (l.map fun m => valueBy CTxOut.nValue m.contributions).sum := by
    rw [← List.sum_map_add, ← List.sum_map_add, ← List.sum_map_add, ← List.sum_map_add]
    refine congrArg List.sum (List.map_congr_left fun m hm => ?_)
    have hm := Movement.counted_add_moved (hcb m hm)
    omega
  omega

/-! ## Concrete blocks -/

/-- A public transaction that spends three and creates two of the asset `t`. -/
def changeTx (t : TokenId) : CTransaction (ZMod groupOrder) :=
  { vin := [coinInput 0], vout := [{ navOutput 2 with tokenId := t }] }

def changeBlock (t : TokenId) : CBlock (ZMod groupOrder) :=
  { hash := 3, vtx := [coinbaseOf [navOutput 0] [], changeTx t] }

theorem connectBlock_supply_changeBlock :
    ∃ c, (connectBlock (fixedChain true noDeployments) (changeBlock {}) (fixedIndex 3)
        (fixedIndex 2) { nPublicMoneySupply := 9 } (coinView [navOutput 3]) true false).result =
          .ok c ∧
      c.supply.nPublicMoneySupply = 8 ∧ c.supply.nPrivateMoneySupply = 0 := by
  refine Except.exists_and_of_isOk (by decide +kernel) fun c hc => ?_
  have hreward : countedReward (fixedChain true noDeployments) (changeBlock {}) (fixedIndex 3)
      (fixedIndex 2) (coinView [navOutput 3]) true false c.locals = 0 := rfl
  obtain ⟨hpublic, hprivate, _⟩ := (connectBlock_supply_iff _ _ _ _ _ _ _ _ true true c
    (fun _ => 0) (by decide +kernel) hc (by decide +kernel)).mpr
      ⟨by decide +kernel, by rw [hreward]; decide +kernel, by decide +kernel⟩
  exact ⟨hpublic.trans (by decide +kernel), hprivate.trans (by decide +kernel)⟩

/-- When the output is in a token, the public supply falls by one, though three of the native coin
are spent and none is created. -/
theorem token_output_supplies :
    checkBlock (fixedChain true noDeployments).toBlockNode
        { changeBlock { token := 1 } with fChecked := false } true true true = .ok () ∧
      (∃ c, (connectBlock (fixedChain true noDeployments) (changeBlock { token := 1 })
        (fixedIndex 3) (fixedIndex 2) { nPublicMoneySupply := 9 } (coinView [navOutput 3]) true
        false).result = .ok c ∧ c.supply.nPublicMoneySupply = 8) ∧
      ((countedMovements (fixedChain true noDeployments) (changeBlock { token := 1 })
        (fixedIndex 3) (fixedIndex 2) (coinView [navOutput 3]) true false).map
          Movement.publicChange).sum = -3 := by
  exact ⟨by decide +kernel, Except.exists_of_decide (by decide +kernel), by decide +kernel⟩

end Navcoin
