import Navcoin.Validation.BlockLedger

/-!
# Which asset the fees and contributions are in

`ConnectBlock` and the validators of the DAO add up the amounts of outputs without a look at the
asset they are in.

* `valueBy_nValue_eq_iff`: when such a sum is one of the native coin;
* `Movement.countsNative_iff`: when a transaction adds nothing but native coin;
* `connectBlock_native_iff`: when the fees and contributions of a block are native coin.
-/

namespace Navcoin

variable {G : Type}

/-! ## Sums of the native coin -/

/-- What an output counts as if only the native coin does. -/
def nativeValue (o : CTxOut G) : Int := if o.tokenId = {} then o.nValue else 0

/-- What an output counts as if only other assets do. -/
def otherValue (o : CTxOut G) : Int := if o.tokenId = {} then 0 else o.nValue

@[simp] theorem valueBy_nil (w : CTxOut G → Int) : valueBy w [] = 0 := rfl

@[simp] theorem valueBy_cons (w : CTxOut G → Int) (o : CTxOut G) (l : List (CTxOut G)) :
    valueBy w (o :: l) = w o + valueBy w l := rfl

theorem nValue_eq_add (o : CTxOut G) : o.nValue = nativeValue o + otherValue o := by
  unfold nativeValue otherValue
  split <;> simp

theorem valueBy_nValue_eq_add (l : List (CTxOut G)) :
    valueBy CTxOut.nValue l = valueBy nativeValue l + valueBy otherValue l := by
  induction l with
  | nil => rfl
  | cons o l ih =>
    have ho := nValue_eq_add o
    simp only [valueBy_cons]
    omega

theorem nValue_eq_nativeValue_iff (o : CTxOut G) :
    o.nValue = nativeValue o ↔ (o.tokenId ≠ {} → o.nValue = 0) := by
  unfold nativeValue
  split
  · next h => simp [h]
  · next h => exact ⟨fun hzero _ => hzero, fun hzero => hzero h⟩

/-- **A sum of amounts is one of the native coin** exactly if no other amount is in it. -/
theorem valueBy_nValue_eq_iff {l : List (CTxOut G)} (hrange : ∀ o ∈ l, 0 ≤ o.nValue) :
    valueBy CTxOut.nValue l = valueBy nativeValue l ↔ ∀ o ∈ l, o.tokenId ≠ {} → o.nValue = 0 := by
  have hnonneg : ∀ l : List (CTxOut G), (∀ o ∈ l, 0 ≤ o.nValue) → 0 ≤ valueBy otherValue l := by
    intro l
    induction l with
    | nil =>
      intro _
      exact le_refl 0
    | cons o l ih =>
      intro h
      obtain ⟨ho, hrest⟩ := List.forall_mem_cons.mp h
      have htail := ih hrest
      have hhead : 0 ≤ otherValue o := by
        unfold otherValue
        split <;> omega
      rw [valueBy_cons]
      omega
  induction l with
  | nil => simp
  | cons o l ih =>
    obtain ⟨ho, hrest⟩ := List.forall_mem_cons.mp hrange
    rw [List.forall_mem_cons, ← nValue_eq_nativeValue_iff]
    refine Iff.trans ?_ (and_congr Iff.rfl (ih hrest))
    have htail := hnonneg l hrest
    have hsplit := valueBy_nValue_eq_add l
    have hhead : nativeValue o ≤ o.nValue := by
      unfold nativeValue
      split <;> omega
    rw [valueBy_cons, valueBy_cons]
    omega

/-! ## One transaction -/

namespace Movement

/-- What a transaction adds to the fees and to the fund, and the amounts that are compared with a
minimum, are amounts of the native coin: the validators of proposals, payment requests,
consultations and answers take the sum of its contributions, the program of a name that of its
own output. -/
structure CountsNative (m : Movement G) : Prop where
  fee : m.fee CTxOut.nValue = m.fee nativeValue
  fund : valueBy CTxOut.nValue m.contributions = valueBy nativeValue m.contributions
  nContribution : m.tx.nContribution = valueBy nativeValue m.contributions
  nameFee : ∀ o ∈ m.contributions, o.nValue = nativeValue o

/-- Contributions and the fee outputs of a private transaction that are in another asset have no
amount, and a public transaction creates as much of other assets as it spends. -/
structure NativeOnly (m : Movement G) : Prop where
  contributions : ∀ o ∈ m.contributions, o.tokenId ≠ {} → o.nValue = 0
  feeOutputs : m.paysFee = true → m.tx.isBLSCT = true →
    ∀ o ∈ m.feeOutputs, o.tokenId ≠ {} → o.nValue = 0
  others : m.paysFee = true → m.tx.isBLSCT = false →
    valueBy otherValue m.tx.vout = valueBy otherValue m.spent

instance (m : Movement G) : Decidable m.NativeOnly :=
  decidable_of_iff ((∀ o ∈ m.contributions, o.tokenId ≠ {} → o.nValue = 0) ∧
      (m.paysFee = true → m.tx.isBLSCT = true →
        ∀ o ∈ m.feeOutputs, o.tokenId ≠ {} → o.nValue = 0) ∧
      (m.paysFee = true → m.tx.isBLSCT = false →
        valueBy otherValue m.tx.vout = valueBy otherValue m.spent))
    ⟨fun h => ⟨h.1, h.2.1, h.2.2⟩, fun h => ⟨h.1, h.2, h.3⟩⟩

theorem fee_eq_iff {m : Movement G} (hrange : ∀ o ∈ m.tx.vout, 0 ≤ o.nValue) :
    m.fee CTxOut.nValue = m.fee nativeValue ↔
      (m.paysFee = true → m.tx.isBLSCT = true →
        ∀ o ∈ m.feeOutputs, o.tokenId ≠ {} → o.nValue = 0) ∧
      (m.paysFee = true → m.tx.isBLSCT = false →
        valueBy otherValue m.tx.vout = valueBy otherValue m.spent) := by
  unfold fee
  cases m.paysFee with
  | false => simp
  | true =>
    cases m.tx.isBLSCT with
    | true =>
      have hfees : ∀ o ∈ m.feeOutputs, 0 ≤ o.nValue := by
        intro o ho
        exact hrange o (List.mem_of_mem_filter ho)
      simp [valueBy_nValue_eq_iff hfees]
    | false =>
      have hout := valueBy_nValue_eq_add m.tx.vout
      have hspent := valueBy_nValue_eq_add m.spent
      simp only [if_true, Bool.false_eq_true, if_false, created, false_implies, imp_true_iff,
        true_implies, true_and]
      omega

theorem countsNative_iff {m : Movement G} (hrange : ∀ o ∈ m.tx.vout, 0 ≤ o.nValue) :
    m.CountsNative ↔ m.NativeOnly := by
  have hcontributions : ∀ o ∈ m.contributions, 0 ≤ o.nValue := by
    intro o ho
    exact hrange o (List.mem_of_mem_filter ho)
  constructor
  · rintro ⟨hfee, hfund, _, _⟩
    obtain ⟨hprivate, hpublic⟩ := (fee_eq_iff hrange).mp hfee
    exact ⟨(valueBy_nValue_eq_iff hcontributions).mp hfund, hprivate, hpublic⟩
  · rintro ⟨hzero, hprivate, hpublic⟩
    have hfund := (valueBy_nValue_eq_iff hcontributions).mpr hzero
    refine ⟨(fee_eq_iff hrange).mpr ⟨hprivate, hpublic⟩, hfund, hfund, ?_⟩
    intro o ho
    exact (nValue_eq_nativeValue_iff o).mpr (hzero o ho)

end Movement

/-! ## The block -/

/-- The ledger adds up the fees. -/
theorem foldl_count_nFees (l : List (Movement G)) (t : Totals) :
    (l.foldl Totals.count t).nFees = t.nFees + (l.map (Movement.fee CTxOut.nValue)).sum := by
  induction l generalizing t with
  | nil => simp
  | cons m l ih =>
    rw [List.foldl_cons, ih, List.map_cons, List.sum_cons, ← add_assoc]
    rfl

theorem foldl_count_nCFSupply (l : List (Movement G)) (t : Totals) :
    (l.foldl Totals.count t).nCFSupply =
      t.nCFSupply + (l.map fun m => valueBy CTxOut.nValue m.contributions).sum := by
  induction l generalizing t with
  | nil => simp
  | cons m l ih =>
    rw [List.foldl_cons, ih, List.map_cons, List.sum_cons, ← add_assoc]
    rfl

variable [G1Group G] [DecidableEq G]

/-- The movements that are counted: none of the first block. -/
def countedMovements (nd : ChainNode G) (block : CBlock G) (pindex pprev : CBlockIndex)
    (view : CStateView G) (fScriptChecks fJustCheck : Bool) : List (Movement G) :=
  if block.hash = nd.hashGenesisBlock then []
  else movements nd (.of block pindex pprev view fScriptChecks fJustCheck) view

/-- What is counted as fees and contributions, whatever the asset. -/
theorem connectBlock_counted {nd : ChainNode G} {block : CBlock G} {pindex pprev : CBlockIndex}
    {prev : Supply} {view : CStateView G} {fScriptChecks fJustCheck : Bool} {c : Connected G}
    (h : (connectBlock nd block pindex pprev prev view fScriptChecks fJustCheck).result = .ok c) :
    let l := countedMovements nd block pindex pprev view fScriptChecks fJustCheck
    (∀ m ∈ l, m.tx ∈ block.vtx ∧ ∀ o ∈ m.tx.vout, 0 ≤ o.nValue) ∧
      c.locals.nFees = (l.map (Movement.fee CTxOut.nValue)).sum ∧
      c.supply.nCFSupply = prev.nCFSupply +
        (l.map fun m => valueBy CTxOut.nValue m.contributions).sum := by
  intro l
  by_cases hgenesis : block.hash = nd.hashGenesisBlock
  · have hl : l = [] := if_pos hgenesis
    obtain ⟨rfl, _⟩ := connectBlock_genesis hgenesis h
    simp [hl]
  · have hl : l = movements nd (.of block pindex pprev view fScriptChecks fJustCheck) view :=
      if_neg hgenesis
    obtain ⟨nCoinAge, hblock⟩ := connectBlock_totals hgenesis h
    rw [hl]
    refine ⟨fun m hm => ⟨?_, hblock.inRange m hm⟩, ?_, ?_⟩
    · have htx := List.mem_map_of_mem (f := Movement.tx) hm
      rw [hblock.txs] at htx
      exact htx
    · have hfees := congrArg Totals.nFees hblock.totals
      rw [Totals.moveToBLS, foldl_count_nFees, zero_add] at hfees
      exact hfees
    · have hsupply := congrArg Totals.nCFSupply hblock.totals
      rw [Totals.moveToBLS, foldl_count_nCFSupply, zero_add] at hsupply
      rw [hblock.supply, ← hsupply]
      rfl

/-- **The fees and contributions of a connected block are native coin**, transaction by
transaction, exactly if no amount of another asset is where they are looked for. -/
theorem connectBlock_native_iff (nd : ChainNode G) (block : CBlock G) (pindex pprev : CBlockIndex)
    (prev : Supply) (view : CStateView G) (fScriptChecks fJustCheck : Bool) (c : Connected G)
    (h : (connectBlock nd block pindex pprev prev view fScriptChecks fJustCheck).result = .ok c) :
    let l := countedMovements nd block pindex pprev view fScriptChecks fJustCheck
    (c.locals.nFees = (l.map (Movement.fee nativeValue)).sum ∧
      c.supply.nCFSupply = prev.nCFSupply +
        (l.map fun m => valueBy nativeValue m.contributions).sum ∧
      ∀ m ∈ l, m.CountsNative) ↔ ∀ m ∈ l, m.NativeOnly := by
  intro l
  obtain ⟨hmoves, hfees, hsupply⟩ := connectBlock_counted h
  constructor
  · rintro ⟨_, _, hnative⟩ m hm
    exact (Movement.countsNative_iff (hmoves m hm).2).mp (hnative m hm)
  · intro honly
    have hnative : ∀ m ∈ l, m.CountsNative := by
      intro m hm
      exact (Movement.countsNative_iff (hmoves m hm).2).mpr (honly m hm)
    refine ⟨?_, ?_, hnative⟩
    · rw [hfees, List.map_congr_left fun m hm => (hnative m hm).fee]
    · rw [hsupply, List.map_congr_left fun m hm => (hnative m hm).fund]

/-! ## Concrete blocks -/

/-- A public transaction that spends three and gives two to the fund, in the asset `t`. -/
def givingTx (t : TokenId) : CTransaction (ZMod groupOrder) :=
  { vin := [coinInput 0]
    vout := [{ nValue := 2, scriptPubKey := [opReturn, opCfund], tokenId := t }] }

def givingBlock (t : TokenId) : CBlock (ZMod groupOrder) :=
  { hash := 3, vtx := [coinbaseOf [navOutput 0] [], givingTx t] }

theorem connectBlock_native_givingBlock :
    ∃ c, (connectBlock (fixedChain true noDeployments) (givingBlock {}) (fixedIndex 3)
        (fixedIndex 2) {} (coinView [navOutput 3]) true false).result = .ok c ∧
      c.locals.nFees = 1 ∧ c.supply.nCFSupply = 2 := by
  refine Except.exists_and_of_isOk (by decide +kernel) fun c hc => ?_
  obtain ⟨hfees, hsupply, _⟩ :=
    (connectBlock_native_iff _ _ _ _ _ _ _ _ c hc).mpr (by decide +kernel)
  exact ⟨hfees.trans (by decide +kernel), hsupply.trans (by decide +kernel)⟩

/-- With the contribution in a token, one is counted as fee and two reach the fund, though the
block spends three of the native coin and contributes nothing of it. -/
theorem token_contribution_counts :
    (∃ c, (connectBlock (fixedChain true noDeployments) (givingBlock { token := 1 })
        (fixedIndex 3) (fixedIndex 2) {} (coinView [navOutput 3]) true false).result = .ok c ∧
      c.locals.nFees = 1 ∧ c.supply.nCFSupply = 2) ∧
    ((countedMovements (fixedChain true noDeployments) (givingBlock { token := 1 })
        (fixedIndex 3) (fixedIndex 2) (coinView [navOutput 3]) true false).map
          (Movement.fee nativeValue)).sum = 3 ∧
    ((countedMovements (fixedChain true noDeployments) (givingBlock { token := 1 })
        (fixedIndex 3) (fixedIndex 2) (coinView [navOutput 3]) true false).map
          fun m => valueBy nativeValue m.contributions).sum = 0 := by
  exact ⟨Except.exists_of_decide (by decide +kernel), by decide +kernel, by decide +kernel⟩

end Navcoin
