import Navcoin.Blsct.Steps
import Navcoin.Lib.AssetFlow

/-!
# The element under which the balance signature is checked

What `VerifyBLSCT` is for: the signed element is the value that comes in (the mix fee,
the spent outputs, the minted amounts) minus the value that goes out (the outputs and
the burned amounts), each asset by its own generator.

* `verify_key_eq_balanceElement`: the element of every run, when no public amount is
  negative;
* `balanceElement_eq_flows`: that element as a combination of asset generators and the
  blinding generator;
* `verifyBLSCTBalanceOutputs_key`: the element of the coinstake check, and the sign with
  which its first commitment enters.
-/

namespace Navcoin

variable {G : Type} [G1Group G] {nMixFee : Int}

/-! ## What the transaction should add up to -/

/-- The value of an output as a group element: its commitment, or its public amount. -/
def commitment (b : Bls G) (o : CTxOut G) : G :=
  if o.hasRangeProof then firstCommitment o else o.nValue • b.valueGen o.tokenId

/-- The asset and the amount that a `MINT` program in an output creates. -/
def mintOf [DecidableEq G] (b : Bls G) (view : CStateView G) (o : CTxOut G) :
    Option (TokenId × Nat) :=
  let program := Predicate.ofVch b.toCrypto o.vData
  let tokenId := tokenHash b.toCrypto program.key
  if !o.vData.isEmpty && program.action = .mint then
    match view.getToken tokenId with
    | some token =>
      if token.nVersion = 0 then some ({ token := tokenId }, program.number.toNat)
      else if token.nVersion = 1 then some ({ token := tokenId, subid := program.number }, 1)
      else none
    | none => none
  else none

/-- The asset and the amount that a `BURN` program in an output destroys. -/
def burnOf (b : Bls G) (o : CTxOut G) : Option (TokenId × Nat) :=
  let program := Predicate.ofVch b.toCrypto o.vData
  if !o.vData.isEmpty && program.action = .burn then some (o.tokenId, program.number.toNat)
  else none

/-- An amount of an asset as a group element. -/
def assetTerm (b : Bls G) : Option (TokenId × Nat) → G
  | none => 0
  | some (t, n) => n • b.valueGen t

/-- The outputs that a transaction spends. -/
def spentOutputs (view : CStateView G) (tx : CTransaction G) : List (CTxOut G) :=
  tx.vin.filterMap view.getOutputFor

/-- Credits minus debits. -/
def balanceElement [DecidableEq G] (b : Bls G) (tx : CTransaction G) (view : CStateView G)
    (nMixFee : Int) : G :=
  nMixFee • b.valueGen {} + ((spentOutputs view tx).map (commitment b)).sum
    + (tx.vout.map fun o => assetTerm b (mintOf b view o)).sum
    - (tx.vout.map (commitment b)).sum
    - (tx.vout.map fun o => assetTerm b (burnOf b o)).sum

/-! ## The terms of the loops are the terms of the balance -/

variable {b : Bls G} {view : CStateView G}
variable {tx : CTransaction G} {blind : CTxOut G → Int}

/-- A public amount that an `int64_t` can hold and that is not negative. -/
def PublicAmount (o : CTxOut G) : Prop :=
  o.hasRangeProof = false → 0 ≤ o.nValue ∧ o.nValue < 2 ^ 63

instance (o : CTxOut G) : Decidable (PublicAmount o) :=
  inferInstanceAs (Decidable (o.hasRangeProof = false → 0 ≤ o.nValue ∧ o.nValue < 2 ^ 63))

private theorem toUint64_nsmul {n : Int} (h0 : 0 ≤ n) (h1 : n < 2 ^ 63) (p : G) :
    toUint64 n • p = n • p := by
  rw [toUint64_of_nonneg h0 (by omega), ← natCast_zsmul, Int.toNat_of_nonneg h0]

theorem inputTerm_eq {o : CTxOut G} (h : PublicAmount o) : inputTerm b o = commitment b o := by
  unfold inputTerm commitment
  split
  · rfl
  · next hproof =>
    obtain ⟨h0, h1⟩ := h (by simpa using hproof)
    exact toUint64_nsmul h0 h1 _

theorem outputTerm_eq {o : CTxOut G} (h : PublicAmount o) : outputTerm b o = commitment b o := by
  unfold outputTerm commitment
  split
  · rfl
  · next hproof =>
    obtain ⟨h0, h1⟩ := h (by simpa using hproof)
    split
    · exact toUint64_nsmul h0 h1 _
    · next hpos =>
      have hzero : o.nValue = 0 := by omega
      rw [hzero, zero_zsmul]

theorem mintTerm_eq [DecidableEq G] (o : CTxOut G) :
    mintTerm b view o = assetTerm b (mintOf b view o) := by
  simp only [mintTerm, mintOf]
  split
  · simp only [mintedAmount]
    cases view.getToken (tokenHash b.toCrypto (Predicate.ofVch b.toCrypto o.vData).key) with
    | none => rfl
    | some token =>
      by_cases h0 : token.nVersion = 0
      · simp [h0, assetTerm]
      · by_cases h1 : token.nVersion = 1 <;> simp [h0, h1, assetTerm]
  · rfl

theorem burnTerm_eq (o : CTxOut G) : burnTerm b o = assetTerm b (burnOf b o) := by
  simp only [burnTerm, burnOf]
  split <;> rfl

theorem mixFeeTerm_eq (h0 : 0 ≤ nMixFee) (h1 : nMixFee < 2 ^ 63) :
    mixFeeTerm b nMixFee = nMixFee • b.valueGen {} := by
  unfold mixFeeTerm
  split
  · have hsmall : toUint64 nMixFee < groupOrder := by
      rw [toUint64_of_nonneg h0 (by omega), groupOrder]
      omega
    rw [mixFeeScalar, if_neg (by omega), Scalar.copy, Nat.mod_eq_of_lt hsmall]
    exact toUint64_nsmul h0 h1 _
  · next hzero =>
    rw [not_not.mp hzero, zero_zsmul]

/-- Summing over the inputs through the view is summing over the spent outputs. -/
theorem sum_spentTerm (vin : List CTxIn)
    (hspent : ∀ o ∈ vin.filterMap view.getOutputFor, PublicAmount o) :
    (vin.map (spentTerm b view)).sum =
      ((vin.filterMap view.getOutputFor).map (commitment b)).sum := by
  induction vin with
  | nil => rfl
  | cons i vin ih =>
    cases ho : view.getOutputFor i with
    | none =>
      rw [List.filterMap_cons_none ho] at hspent ⊢
      rw [List.map_cons, List.sum_cons, ih hspent]
      simp [spentTerm, ho]
    | some o =>
      rw [List.filterMap_cons_some ho] at hspent ⊢
      have hrest := ih fun o' ho' => hspent o' (List.mem_cons_of_mem o ho')
      have hfirst : PublicAmount o := hspent o List.mem_cons_self
      rw [List.map_cons, List.sum_cons, hrest, List.map_cons,
        ← inputTerm_eq hfirst]
      simp [spentTerm, ho]

/-- The two sums that a run collects differ by the balance of the transaction. -/
theorem collectBLSCT_balance [DecidableEq G] {f : BlsctChecks} {s : BlsctLocals G}
    (hfee0 : 0 ≤ nMixFee) (hfee1 : nMixFee < 2 ^ 63) (hout : ∀ o ∈ tx.vout, PublicAmount o)
    (hspent : ∀ o ∈ spentOutputs view tx, PublicAmount o) (hbal : f.fCheckBalance = true)
    (h : collectBLSCT b tx view f nMixFee = .ok s) :
    s.balKey.total + inverse s.balKeyOut.total = balanceElement b tx view nMixFee := by
  obtain ⟨hcredit, hdebit⟩ := collectBLSCT_sums hbal h
  have hvalues : (tx.vout.map fun o => burnTerm b o + outputTerm b o) =
      tx.vout.map fun o => assetTerm b (burnOf b o) + commitment b o := by
    refine List.map_congr_left fun o ho => ?_
    rw [burnTerm_eq, outputTerm_eq (hout o ho)]
  have hmints : tx.vout.map (mintTerm b view) =
      tx.vout.map fun o => assetTerm b (mintOf b view o) :=
    List.map_congr_left fun o _ => mintTerm_eq o
  rw [hcredit, hdebit, inverse_eq_neg, hvalues, hmints, mixFeeTerm_eq hfee0 hfee1,
    sum_spentTerm tx.vin hspent, List.sum_map_add, balanceElement, spentOutputs]
  abel

/-! ## Assets -/

/-- The signed amounts of a transaction, asset by asset.  `value` opens the commitments. -/
def assetFlows [DecidableEq G] (b : Bls G) (tx : CTransaction G) (view : CStateView G)
    (nMixFee : Int)
    (value : CTxOut G → Int) : List (TokenId × ℤ) :=
  ({}, nMixFee) :: (spentOutputs view tx).map (fun o => (o.tokenId, value o))
    ++ (tx.vout.filterMap (mintOf b view)).map (fun m => (m.1, (m.2 : ℤ)))
    ++ tx.vout.map (fun o => (o.tokenId, -value o))
    ++ (tx.vout.filterMap (burnOf b)).map (fun m => (m.1, -(m.2 : ℤ)))

/-- The outputs in `l` open to the amounts `value` with blinding factors `blind`. -/
def OpensTo (b : Bls G) (base : G) (value blind : CTxOut G → Int) (l : List (CTxOut G)) : Prop :=
  ∀ o ∈ l, commitment b o = value o • b.valueGen o.tokenId + blind o • base

variable {value : CTxOut G → Int}

private theorem sum_commitment {base : G} {l : List (CTxOut G)} (h : OpensTo b base value blind l) :
    (l.map (commitment b)).sum =
      AssetFlow.element b.valueGen (l.map fun o => (o.tokenId, value o)) +
        (l.map blind).sum • base := by
  induction l with
  | nil => simp
  | cons o l ih =>
    have hrest := ih fun o' ho' => h o' (List.mem_cons_of_mem o ho')
    simp only [List.map_cons, List.sum_cons, AssetFlow.element_cons, add_zsmul, hrest,
      h o List.mem_cons_self]
    abel

private theorem element_neg (l : List (CTxOut G)) (value : CTxOut G → Int) :
    AssetFlow.element b.valueGen (l.map fun o => (o.tokenId, -value o)) =
      -AssetFlow.element b.valueGen (l.map fun o => (o.tokenId, value o)) := by
  induction l with
  | nil => simp
  | cons o l ih =>
    simp only [List.map_cons, AssetFlow.element_cons, ih, neg_zsmul, neg_add]

private theorem sum_assetTerm (f : CTxOut G → Option (TokenId × Nat)) (l : List (CTxOut G)) :
    (l.map fun o => assetTerm b (f o)).sum =
      AssetFlow.element b.valueGen ((l.filterMap f).map fun m => (m.1, (m.2 : ℤ))) := by
  induction l with
  | nil => simp
  | cons o l ih =>
    cases ho : f o with
    | none =>
      rw [List.filterMap_cons_none ho, List.map_cons, List.sum_cons, ih, ho]
      simp [assetTerm]
    | some m =>
      rw [List.filterMap_cons_some ho, List.map_cons, List.sum_cons, ih, ho, List.map_cons,
        AssetFlow.element_cons]
      simp [assetTerm]

private theorem sum_assetTerm_neg (f : CTxOut G → Option (TokenId × Nat)) (l : List (CTxOut G)) :
    AssetFlow.element b.valueGen ((l.filterMap f).map fun m => (m.1, -(m.2 : ℤ))) =
      -(l.map fun o => assetTerm b (f o)).sum := by
  rw [sum_assetTerm]
  induction l.filterMap f with
  | nil => simp
  | cons m l ih =>
    simp only [List.map_cons, AssetFlow.element_cons, ih, neg_zsmul, neg_add]

/-- The balance is the combination of asset generators given by the flows, up to a
multiple of the blinding generator. -/
theorem balanceElement_eq_flows [DecidableEq G] {base : G}
    (hin : OpensTo b base value blind (spentOutputs view tx))
    (hout : OpensTo b base value blind tx.vout) : balanceElement b tx view nMixFee =
      AssetFlow.element b.valueGen (assetFlows b tx view nMixFee value) +
        (((spentOutputs view tx).map blind).sum - (tx.vout.map blind).sum) • base := by
  simp only [balanceElement, assetFlows, sum_commitment hin, sum_commitment hout,
    AssetFlow.element_append, AssetFlow.element_cons, List.cons_append, element_neg,
    sum_assetTerm_neg, ← sum_assetTerm, sub_zsmul]
  abel

/-- With independent generators, an element that is a multiple of the blinding generator
leaves no net amount of any asset. -/
theorem net_assetFlows [DecidableEq G] {base : G} {x : Int}
    (hind : AssetFlow.Independent groupOrder b.valueGen base)
    (hin : OpensTo b base value blind (spentOutputs view tx))
    (hout : OpensTo b base value blind tx.vout) (hx : balanceElement b tx view nMixFee = x • base)
    (t : TokenId) : (groupOrder : ℤ) ∣ AssetFlow.net (assetFlows b tx view nMixFee value) t := by
  rw [balanceElement_eq_flows hin hout, ← eq_sub_iff_add_eq, sub_eq_add_neg, ← sub_zsmul] at hx
  exact hind _ _ hx t

/-! ## Runs of `VerifyBLSCT` -/

/-- **The balance equation.**  In every run the balance signature is checked under the
balance of the transaction, and an accepting run has checked it; when the generators are
independent and the commitments open, a signature by a multiple of the blinding generator
means that every asset balances on its own. -/
theorem verify_key_eq_balanceElement [DecidableEq G] (b : Bls G) (tx : CTransaction G)
    (view : CStateView G)
    (nMixFee : Int) (hfee0 : 0 ≤ nMixFee) (hfee1 : nMixFee < 2 ^ 63)
    (hout : ∀ o ∈ tx.vout, PublicAmount o)
    (hspent : ∀ o ∈ spentOutputs view tx, PublicAmount o) :
    (∀ tx' key ret, .verify tx' key ret ∈ (verifyBLSCT b tx view false nMixFee).trace →
        key = balanceElement b tx view nMixFee) ∧
      (tx.isBLSCT = true → (verifyBLSCT b tx view false nMixFee).result = .ok () →
        .verify tx (balanceElement b tx view nMixFee) (some true) ∈
          (verifyBLSCT b tx view false nMixFee).trace) ∧
      ∀ (base : G) (value blind : CTxOut G → Int) (x : Int),
        AssetFlow.Independent groupOrder b.valueGen base →
        OpensTo b base value blind (spentOutputs view tx) → OpensTo b base value blind tx.vout →
        balanceElement b tx view nMixFee = x • base →
        ∀ t, (groupOrder : ℤ) ∣ AssetFlow.net (assetFlows b tx view nMixFee value) t := by
  refine ⟨?_, ?_, ?_⟩
  · intro tx' key ret hmem
    obtain ⟨s, hs, ⟨hbal, _, hw⟩ | ⟨_, _, hw⟩⟩ := mem_trace_verifyBLSCT hmem
    · cases hw
      exact collectBLSCT_balance hfee0 hfee1 hout hspent hbal hs
    · cases hw
  · intro hflag hok
    obtain ⟨_, s, hs, hverify, _⟩ := verifyBLSCT_ok hflag hok
    have hbal : (BlsctChecks.of tx false).fCheckBalance = true := by
      rw [CTransaction.isBLSCT, Bool.or_comm] at hflag
      simp [BlsctChecks.of, hflag]
    rwa [collectBLSCT_balance hfee0 hfee1 hout hspent hbal hs] at hverify
  · intro base value blind x hind hopen hopen' hx
    exact net_assetFlows hind hopen hopen' hx

/-- Five units in, two and three out. -/
def splitTx : CTransaction (ZMod groupOrder) :=
  { nVersion := 0x20, vin := [coinInput 0], vchBalanceSig := [1],
    vout := [{ nValue := 2, scriptPubKey := [op1] }, { nValue := 3, scriptPubKey := [op1] }] }

theorem verify_key_splitTx :
    let view := coinView [{ nValue := 5, scriptPubKey := [op1] }]
    .verify splitTx (balanceElement (fixedBls true) splitTx view 0) (some true) ∈
      (verifyBLSCT (fixedBls true) splitTx view false 0).trace :=
  (verify_key_eq_balanceElement (fixedBls true) splitTx _ 0 (by decide) (by decide)
    (by decide +kernel) (by decide +kernel)).2.1 rfl rfl

/-- The same transaction with a negative public output, which the loop skips. -/
def negativeTx : CTransaction (ZMod groupOrder) :=
  { splitTx with vout := [{ nValue := -1, scriptPubKey := [op1] }] }

/-- A negative public output is left out of the element, so the equation fails. -/
theorem verify_key_negativeTx :
    let view := coinView [{ nValue := 5, scriptPubKey := [op1] }]
    negativeTx.isBLSCT = true ∧ view.haveInputs negativeTx = true ∧
      ∃ key, .verify negativeTx key (some true) ∈
          (verifyBLSCT (fixedBls true) negativeTx view false 0).trace ∧
        key ≠ balanceElement (fixedBls true) negativeTx view 0 := by
  refine ⟨rfl, rfl, _, List.mem_singleton.mpr rfl, ?_⟩
  rw [inverse_eq_neg]
  decide +kernel

/-! ## Runs of `VerifyBLSCTBalanceOutputs` -/

/-- The outputs of a transaction that carry a range proof. -/
def provenOutputs (tx : CTransaction G) : List (CTxOut G) := tx.vout.filter CTxOut.hasRangeProof

/-- What a private coinstake should add up to: the fee minus all its commitments. -/
def stakeElement (b : Bls G) (tx : CTransaction G) (nMixFee : Int) : G :=
  nMixFee • b.valueGen {} - ((provenOutputs tx).map firstCommitment).sum

/-- What the loop adds for a list of proven outputs, when the flag says whether anything
was added before. -/
def stakeTerms (isFirst : Bool) : List (CTxOut G) → G
  | [] => 0
  | o :: l =>
    (if isFirst then firstCommitment o else -firstCommitment o) - (l.map firstCommitment).sum

theorem stakeTerms_false (l : List (CTxOut G)) :
    stakeTerms false l = -(l.map firstCommitment).sum := by
  cases l with
  | nil => simp [stakeTerms]
  | cons o l =>
    simp only [stakeTerms, Bool.false_eq_true, if_false, List.map_cons, List.sum_cons]
    abel

/-- The sum after the loop: all commitments are subtracted, but for one that comes first. -/
theorem foldlM_addStakeOutput_ok {l : List (CTxOut G × Nat)} :
    ∀ {s s' : StakeLocals G}, l.foldlM (addStakeOutput b) s = .ok s' →
      s'.balKey.total = s.balKey.total +
        stakeTerms s.balKey.isFirst ((l.map Prod.fst).filter CTxOut.hasRangeProof) := by
  induction l with
  | nil =>
    intro s s' h
    cases h
    simp [stakeTerms]
  | cons e l ih =>
    intro s s' h
    rw [List.foldlM_cons, Except.bind_eq_ok_iff] at h
    obtain ⟨s1, hstep, hrest⟩ := h
    have htail := ih hrest
    simp only [addStakeOutput] at hstep
    split at hstep
    · next hproof =>
      split at hstep
      · cases hstep
      · split at hstep
        · cases hstep
        · cases hstep
          rw [htail, List.map_cons, List.filter_cons_of_pos hproof, RunningSum.isFirst_push,
            stakeTerms_false, RunningSum.total_push, stakeTerms, inverse_eq_neg]
          abel
    · next hproof =>
      cases hstep
      rw [htail, List.map_cons, List.filter_cons_of_neg hproof]

/-- The element of a run of the coinstake check. -/
theorem verifyBLSCTBalanceOutputs_key {fOnlyRecover : Bool} {w : Event G}
    (h : w ∈ (verifyBLSCTBalanceOutputs b tx fOnlyRecover nMixFee).trace) : ∃ ret, w = .verify tx
      (mixFeeTerm b nMixFee + stakeTerms (decide (nMixFee = 0)) (provenOutputs tx)) ret := by
  simp only [verifyBLSCTBalanceOutputs, Traced.mem_trace_bind, Traced.trace_ofExcept,
    List.not_mem_nil, false_or, Traced.result_ofExcept] at h
  obtain ⟨s, hs, _, _, hmem⟩ := h
  have hsum := foldlM_addStakeOutput_ok hs
  have htotal : s.balKey.total =
      mixFeeTerm b nMixFee + stakeTerms (decide (nMixFee = 0)) (provenOutputs tx) := by
    rw [hsum]
    by_cases hfee : nMixFee = 0 <;> simp [hfee, mixFeeTerm, provenOutputs]
  rw [htotal] at hmem
  exact ⟨_, mem_trace_checkBalance hmem⟩

/-- The group has odd order, so only the neutral element is its own negative. -/
theorem eq_neg_self_iff {p : G} : p = -p ↔ p = 0 := by
  constructor
  · intro h
    have hdouble : 2 • p = 0 := by
      rw [two_nsmul]
      nth_rewrite 2 [h]
      exact add_neg_cancel p
    have horder : groupOrder • p = 0 := G1Group.order_nsmul p
    have hodd : groupOrder = groupOrder / 2 * 2 + 1 := by decide
    rwa [hodd, add_nsmul, mul_nsmul', hdouble, nsmul_zero, one_nsmul, zero_add] at horder
  · rintro rfl
    simp

/-- **The sign of the first commitment.**  The coinstake check asks for a signature under
the fee minus all commitments exactly when there is a fee, or no commitment, or the first
commitment is the neutral element: without a fee the first commitment is added. -/
theorem stake_key_eq_stakeElement_iff (b : Bls G) (tx : CTransaction G) (fOnlyRecover : Bool)
    (nMixFee : Int) (hfee0 : 0 ≤ nMixFee) (hfee1 : nMixFee < 2 ^ 63) (key : G)
    (ret : Option Bool)
    (hmem : .verify tx key ret ∈ (verifyBLSCTBalanceOutputs b tx fOnlyRecover nMixFee).trace) :
    key = stakeElement b tx nMixFee ↔
      nMixFee ≠ 0 ∨ ∀ o ∈ (provenOutputs tx).head?, firstCommitment o = 0 := by
  obtain ⟨ret', hkey⟩ := verifyBLSCTBalanceOutputs_key hmem
  obtain ⟨rfl, rfl⟩ : key = mixFeeTerm b nMixFee +
      stakeTerms (decide (nMixFee = 0)) (provenOutputs tx) ∧ ret = ret' := by
    injection hkey with _ hkey hret
    exact ⟨hkey, hret⟩
  rw [mixFeeTerm_eq hfee0 hfee1, stakeElement, sub_eq_add_neg]
  by_cases hfee : nMixFee = 0
  · cases hproven : provenOutputs tx with
    | nil => simp [hfee, stakeTerms]
    | cons o l =>
      simp only [hfee, decide_true, stakeTerms, if_true, zero_zsmul, zero_add, List.map_cons,
        List.sum_cons, neg_add, List.head?_cons, Option.mem_some_iff, ne_eq, not_true_eq_false,
        false_or, forall_eq', sub_eq_add_neg, add_left_inj, eq_neg_self_iff]
  · simp [hfee, stakeTerms_false]

/-- A proof with one value commitment. -/
def provenOutput (commitment : ZMod groupOrder) : CTxOut (ZMod groupOrder) :=
  { nValue := 0, scriptPubKey := [op1], ephemeralKey := [1], outputKey := toBE 48 1,
    bp := some { BulletproofsRangeproof.empty with V := [commitment] } }

/-- A coinstake with one private output. -/
def privateStake : CTransaction (ZMod groupOrder) :=
  { nVersion := 0x20, vin := [coinInput 0], vchBalanceSig := [1],
    vout := [{ nValue := 0 }, provenOutput 1] }

theorem stake_key_privateStake_fee :
    let trace := (verifyBLSCTBalanceOutputs (fixedBls true) privateStake false 7).trace
    ∃ key, .verify privateStake key (some true) ∈ trace ∧
      key = stakeElement (fixedBls true) privateStake 7 := by
  refine ⟨_, List.mem_singleton.mpr rfl, ?_⟩
  exact (stake_key_eq_stakeElement_iff (fixedBls true) privateStake false 7 (by decide)
    (by decide) _ (some true) (List.mem_singleton.mpr rfl)).mpr (.inl (by decide))

/-- Without a fee the only commitment is added instead of subtracted. -/
theorem stake_key_privateStake_zero :
    privateStake.isCoinStake = true ∧
      ∃ key, .verify privateStake key (some true) ∈
          (verifyBLSCTBalanceOutputs (fixedBls true) privateStake false 0).trace ∧
        key ≠ stakeElement (fixedBls true) privateStake 0 := by
  refine ⟨rfl, _, List.mem_singleton.mpr rfl, ?_⟩
  decide +kernel

end Navcoin
