import Navcoin.Validation.Conservation

/-!
# Who pays for a public amount

`VerifyBLSCT` counts an output with a range proof by its commitment and ignores its public
amount, while `CheckTxInputs` adds that amount when the output is spent.

* `signedElement_setValue`: what the signed element becomes when one public amount changes;
* `publicValue_charged_iff`: every positive public amount is charged to the transaction that
  creates it exactly when no output has both a positive amount and a range proof.
-/

namespace Navcoin

variable {G : Type}

/-- The transaction with another public amount in output `j`. -/
def setValue (tx : CTransaction G) (j : Nat) (v : Int) : CTransaction G :=
  { tx with vout := tx.vout.modify j fun o => { o with nValue := v } }

variable [G1Group G] [DecidableEq G]

/-- The element that `VerifyBLSCT` checks the balance signature against. -/
def signedElement (b : Bls G) (tx : CTransaction G) (view : CStateView G) (nMixFee : Int) :
    Except Failure G :=
  (collectBLSCT b tx view (BlsctChecks.of tx false) nMixFee).map fun s =>
    s.balKey.total + inverse s.balKeyOut.total

/-- The element contains the amount of output `j`, negated, as a multiple of the generator of
`t`: as a function of that amount it is a constant minus the multiple. -/
def ChargesValue (b : Bls G) (tx : CTransaction G) (view : CStateView G) (nMixFee : Int)
    (j : Nat) (t : TokenId) : Prop :=
  ∃ rest : G, ∀ v : Int, 0 ≤ v → v ≤ maxMoney →
    signedElement b (setValue tx j v) view nMixFee = .ok (rest - v • b.valueGen t)

/-! ## Changing one amount -/

variable {b : Bls G} {view : CStateView G} {f : BlsctChecks}
variable {s s' : BlsctLocals G} {o : CTxOut G} {tx : CTransaction G}

theorem addProgram_setValue (h : addProgram b view o s = .ok s') (t : BlsctLocals G) (v : Int) :
    ∃ t', addProgram b view { o with nValue := v } t = .ok t' := by
  unfold addProgram at h ⊢
  cases hdata : o.vData.isEmpty with
  | true => simp
  | false =>
  simp only [hdata, Bool.false_eq_true, if_false] at h ⊢
  cases hact : (Predicate.ofVch b.toCrypto o.vData).action <;> simp only [hact] at h ⊢
  case err => cases h
  case mint =>
    rw [Except.bind_eq_ok_iff] at h
    obtain ⟨minted, hminted, _⟩ := h
    simp [hminted, Except.bind_eq_ok_iff, pure, Except.pure]
  case burn =>
    split at h
    · cases h
    · next hscript => exact ⟨_, by rw [if_neg hscript]⟩
  all_goals exact ⟨_, rfl⟩

variable {j : Nat}

omit [DecidableEq G] in
theorem addValue_setValue (h : addValue b f s o j = .ok s') (t : BlsctLocals G) (v : Int) :
    ∃ t', addValue b f t { o with nValue := v } j = .ok t' := by
  have hproof : ({ o with nValue := v } : CTxOut G).hasRangeProof = o.hasRangeProof := rfl
  unfold addValue at h ⊢
  simp only [hproof] at h ⊢
  cases hp : o.hasRangeProof with
  | false =>
    simp only [Bool.false_eq_true, if_false]
    split <;> exact ⟨_, rfl⟩
  | true =>
    simp only [hp, if_true] at h ⊢
    split at h
    · cases h
    · next heph =>
      simp only [if_neg heph]
      split at h
      · next hrange =>
        simp only [if_pos hrange]
        cases hkey : b.fromBytes o.outputKey with
        | error what => simp [hkey] at h
        | ok key => exact ⟨_, rfl⟩
      · next hrange => exact ⟨_, by rw [if_neg hrange]⟩

omit [DecidableEq G] in
theorem addEphemeral_setValue (h : addEphemeral b f s o = .ok s') (t : BlsctLocals G) (v : Int) :
    ∃ t', addEphemeral b f t { o with nValue := v } = .ok t' := by
  unfold addEphemeral at h ⊢
  split at h
  · next hcheck =>
    rw [if_pos hcheck]
    cases hkey : b.fromBytes o.ephemeralKey with
    | error what => simp [hkey] at h
    | ok key => exact ⟨_, rfl⟩
  · next hcheck => exact ⟨t, by rw [if_neg hcheck]⟩

/-- Whether an output passes depends neither on its amount nor on the sums so far. -/
theorem addOutput_setValue (h : addOutput b view f s (o, j) = .ok s') (t : BlsctLocals G)
    (v : Int) :
    ∃ t', addOutput b view f t ({ o with nValue := v }, j) = .ok t' := by
  simp only [addOutput, Except.bind_eq_ok_iff] at h ⊢
  obtain ⟨s1, hprog, s2, hval, heph⟩ := h
  obtain ⟨t1, hprog'⟩ := addProgram_setValue hprog t v
  obtain ⟨t2, hval'⟩ := addValue_setValue hval t1 v
  obtain ⟨t3, heph'⟩ := addEphemeral_setValue heph t2 v
  exact ⟨t3, t1, hprog', t2, hval', heph'⟩

/-- The two entries differ in the amount at most. -/
def SameButValue (e e' : CTxOut G × Nat) : Prop := ∃ v, e' = ({ e.1 with nValue := v }, e.2)

omit [G1Group G] [DecidableEq G] in
theorem sameButValue_refl (e : CTxOut G × Nat) : SameButValue e e := ⟨e.1.nValue, rfl⟩

omit [G1Group G] [DecidableEq G] in
theorem zipIdx_modify_sameButValue (v : Int) :
    ∀ (l : List (CTxOut G)) (j k : Nat), List.Forall₂ SameButValue (l.zipIdx k)
      ((l.modify j fun o => { o with nValue := v }).zipIdx k) := by
  intro l
  induction l with
  | nil =>
    simp
  | cons o l ih =>
    intro j k
    cases j with
    | zero =>
      exact .cons ⟨v, rfl⟩ (List.forall₂_same.mpr fun e _ => sameButValue_refl e)
    | succ j =>
      exact .cons (sameButValue_refl _) (ih j (k + 1))

omit [DecidableEq G] in
/-- Changing one entry changes one summand. -/
theorem sum_map_modify {α : Type} (F : α → G) (g : α → α) {a : α} :
    ∀ {l : List α} {j : Nat}, l[j]? = some a →
      ((l.modify j g).map F).sum = (l.map F).sum - F a + F (g a) := by
  intro l
  induction l with
  | nil =>
    intro j h
    simp at h
  | cons x l ih =>
    intro j h
    cases j with
    | zero =>
      obtain rfl : x = a := by simpa using h
      simp only [List.modify_zero_cons, List.map_cons, List.sum_cons]
      abel
    | succ j =>
      rw [List.modify_succ_cons, List.map_cons, List.sum_cons, ih (by simpa using h),
        List.map_cons, List.sum_cons]
      abel

/-- **Changing one public amount.**  The signed element loses the old value term of the output
and gains the new one, both negated. -/
theorem signedElement_setValue {nMixFee : Int} {key : G} (hflag : tx.isBLSCT = true)
    (ho : tx.vout[j]? = some o) (h : signedElement b tx view nMixFee = .ok key) (v : Int) :
    signedElement b (setValue tx j v) view nMixFee =
      .ok (key + outputTerm b o - outputTerm b { o with nValue := v }) := by
  have hbal : (BlsctChecks.of tx false).fCheckBalance = true := by
    simpa [BlsctChecks.of, CTransaction.isBLSCT, or_comm] using hflag
  obtain ⟨s, hs, hkey⟩ : ∃ s, collectBLSCT b tx view (BlsctChecks.of tx false) nMixFee = .ok s ∧
      s.balKey.total + inverse s.balKeyOut.total = key := by
    unfold signedElement at h
    cases hrun : collectBLSCT b tx view (BlsctChecks.of tx false) nMixFee with
    | error e => simp [hrun, Except.map] at h
    | ok s => exact ⟨s, rfl, by simpa [hrun, Except.map] using h⟩
  -- the run on the changed transaction succeeds as well
  obtain ⟨t, ht⟩ : ∃ t, collectBLSCT b (setValue tx j v) view (BlsctChecks.of tx false) nMixFee =
      .ok t := by
    unfold collectBLSCT at hs ⊢
    rw [Except.bind_eq_ok_iff] at hs
    obtain ⟨s1, hin, hout⟩ := hs
    obtain ⟨t, hout'⟩ := Except.foldlM_ok_of_forall₂
      (fun e e' s s' t hsame hstep => by
        obtain ⟨v, rfl⟩ := hsame
        exact addOutput_setValue hstep t v)
      (zipIdx_modify_sameButValue v tx.vout j 0) s1 s s1 hout
    exact ⟨t, by rw [Except.bind_eq_ok_iff]; exact ⟨s1, hin, hout'⟩⟩
  obtain ⟨hcredit, hdebit⟩ := collectBLSCT_sums hbal hs
  obtain ⟨hcredit', hdebit'⟩ := collectBLSCT_sums hbal ht
  have hmint : ((setValue tx j v).vout.map (mintTerm b view)).sum =
      (tx.vout.map (mintTerm b view)).sum := by
    rw [setValue, sum_map_modify _ _ ho]
    exact sub_add_cancel _ _
  have hvalue : ((setValue tx j v).vout.map fun o => burnTerm b o + outputTerm b o).sum =
      (tx.vout.map fun o => burnTerm b o + outputTerm b o).sum - outputTerm b o +
        outputTerm b { o with nValue := v } := by
    rw [setValue, sum_map_modify _ _ ho]
    change _ - (burnTerm b o + outputTerm b o) + (burnTerm b o + _) = _
    abel
  have hsum : t.balKey.total + inverse t.balKeyOut.total =
      key + outputTerm b o - outputTerm b { o with nValue := v } := by
    rw [← hkey, hcredit', hdebit', hcredit, hdebit, hmint, hvalue, inverse_eq_neg, inverse_eq_neg]
    change _ + (tx.vin.map (spentTerm b view)).sum + _ + _ = _
    abel
  change (collectBLSCT b (setValue tx j v) view (BlsctChecks.of tx false) nMixFee).map _ = _
  rw [ht, Except.map, hsum]

/-! ## Charged amounts -/

/-- An amount is charged exactly when the output has no range proof. -/
theorem chargesValue_iff {nMixFee : Int} {key : G} (hflag : tx.isBLSCT = true)
    (ho : tx.vout[j]? = some o) (h : signedElement b tx view nMixFee = .ok key)
    (hgen : b.valueGen o.tokenId ≠ 0) :
    ChargesValue b tx view nMixFee j o.tokenId ↔ o.hasRangeProof = false := by
  have hchange := signedElement_setValue hflag ho h
  have hproof : ∀ v, ({ o with nValue := v } : CTxOut G).hasRangeProof = o.hasRangeProof :=
    fun _ => rfl
  constructor
  · rintro ⟨rest, hrest⟩
    by_contra hp
    rw [Bool.not_eq_false] at hp
    -- with a proof the element does not depend on the amount
    have hconst : ∀ v, signedElement b (setValue tx j v) view nMixFee = .ok key := by
      intro v
      have hterm : outputTerm b { o with nValue := v } = outputTerm b o := by
        simp only [outputTerm, hproof, hp, if_true]
        rfl
      rw [hchange v, hterm, add_sub_cancel_right]
    have hzero := (hconst 0).symm.trans (hrest 0 (le_refl 0) (by decide))
    have hone := (hconst 1).symm.trans (hrest 1 (by decide) (by decide))
    simp only [Except.ok.injEq, zero_zsmul, sub_zero, one_zsmul] at hzero hone
    rw [← hzero, eq_comm, sub_eq_self] at hone
    exact hgen hone
  · intro hp
    refine ⟨key + outputTerm b o, fun v hv0 hv1 => ?_⟩
    have hmax : maxMoney < 2 ^ 63 := by decide
    have hterm : outputTerm b { o with nValue := v } = v • b.valueGen o.tokenId := by
      rw [outputTerm_eq fun _ => ⟨hv0, hv1.trans_lt hmax⟩, commitment, hproof, hp]
      rfl
    rw [hchange v, hterm]

/-- The balance signature of an accepted private transaction was checked under its signed
element. -/
theorem signedElement_of_accepted {nd : Node G} {nSpendHeight : Int} {fXNavSer : Bool}
    {allowedInPrivate : Int} {u : Unit} (hflag : tx.isBLSCT = true) (hcs : tx.isCoinStake = false)
    (hin : (checkTxInputs nd tx view nSpendHeight fXNavSer allowedInPrivate).result = .ok u) :
    ∃ key, signedElement nd.toBls tx view allowedInPrivate = .ok key ∧
      .verify tx key (some true) ∈
        (checkTxInputs nd tx view nSpendHeight fXNavSer allowedInPrivate).trace := by
  obtain ⟨hverify, htrace⟩ := (checkTxInputs_ok hin).2.2 hflag hcs
  obtain ⟨_, s, hs, hevent, _⟩ := verifyBLSCT_ok hflag hverify
  exact ⟨_, by rw [signedElement, hs, Except.map], htrace _ hevent⟩

/-- **Which amounts are paid for.**  An accepted private transaction is checked against its
signed element, and that element charges every positive public amount exactly when no output
with a positive amount has a range proof. -/
theorem publicValue_charged_iff (nd : Node G) (tx : CTransaction G) (view : CStateView G)
    (nSpendHeight : Int) (fXNavSer : Bool) (allowedInPrivate : Int)
    (hflag : tx.isBLSCT = true) (hcs : tx.isCoinStake = false)
    (hin : (checkTxInputs nd tx view nSpendHeight fXNavSer allowedInPrivate).result = .ok ())
    (hgen : ∀ o ∈ tx.vout, nd.valueGen o.tokenId ≠ 0) :
    (∃ key, signedElement nd.toBls tx view allowedInPrivate = .ok key ∧
        .verify tx key (some true) ∈
          (checkTxInputs nd tx view nSpendHeight fXNavSer allowedInPrivate).trace) ∧
      ((∀ j o, tx.vout[j]? = some o → 0 < o.nValue →
          ChargesValue nd.toBls tx view allowedInPrivate j o.tokenId) ↔
        ∀ o ∈ tx.vout, 0 < o.nValue → o.hasRangeProof = false) := by
  obtain ⟨key, hkey, hevent⟩ := signedElement_of_accepted hflag hcs hin
  refine ⟨⟨key, hkey, hevent⟩, ?_⟩
  constructor
  · intro hcharged o ho hpos
    obtain ⟨j, hj⟩ := List.getElem?_of_mem ho
    exact (chargesValue_iff hflag hj hkey (hgen o ho)).mp (hcharged j o hj hpos)
  · intro hproofs j o hj hpos
    have ho := List.mem_of_getElem? hj
    exact (chargesValue_iff hflag hj hkey (hgen o ho)).mpr (hproofs o ho hpos)

theorem publicValue_charged_unsignedSpend :
    ChargesValue (fixedNode true).toBls unsignedSpend (coinView [keyedOutput 3]) 0 0 {} :=
  (publicValue_charged_iff (fixedNode true) unsignedSpend (coinView [keyedOutput 3]) 10 true 0
    (by decide) (by decide) (by decide +kernel) (by decide +kernel)).2.mpr (by decide) 0
    { nValue := 3, scriptPubKey := [op1] } (by decide) (by decide)

/-- A commitment and a public amount in one output. -/
def doubleOutput : CTxOut (ZMod groupOrder) := { provenOutput 1 with nValue := 3 }

/-- Creates it from an output of amount zero. -/
def doubleTx : CTransaction (ZMod groupOrder) :=
  { nVersion := 0x20, vin := [coinInput 0], vchBalanceSig := [1], vout := [doubleOutput] }

/-- The amount three is not charged to the accepted transaction that creates the output, and a
transparent transaction that spends the output may create three native units from it. -/
theorem publicValue_uncharged_doubleTx :
    let nd := fixedNode true
    let spender : CTransaction (ZMod groupOrder) := publicTx 1 [publicOutput 3 {}]
    (doubleTx.isBLSCT = true ∧ doubleTx.isCoinStake = false ∧
      checkTransaction nd doubleTx = .ok () ∧
      (checkTxInputs nd doubleTx (coinView [publicOutput 0 {}]) 10 true 0).result = .ok ()) ∧
      ¬ ChargesValue nd.toBls doubleTx (coinView [publicOutput 0 {}]) 0 0 doubleOutput.tokenId ∧
      checkTransaction nd spender = .ok () ∧
      (checkTxInputs nd spender (coinView [doubleOutput]) 10 true 0).result = .ok () := by
  intro nd spender
  have haccepted : (checkTxInputs nd doubleTx (coinView [publicOutput 0 {}]) 10 true 0).result =
      .ok () := by decide +kernel
  refine ⟨⟨by decide, by decide, by decide +kernel, haccepted⟩, ?_, by decide +kernel,
    by decide +kernel⟩
  obtain ⟨key, hkey, _⟩ := signedElement_of_accepted (by decide) (by decide) haccepted
  intro hcharged
  have hgen : nd.valueGen doubleOutput.tokenId ≠ 0 := by decide +kernel
  exact absurd ((chargesValue_iff (by decide) (by decide) hkey hgen).mp hcharged) (by decide)

end Navcoin
