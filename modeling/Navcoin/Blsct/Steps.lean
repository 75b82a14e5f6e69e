import Navcoin.Blsct.Verification

/-!
# What one round of the loops of `VerifyBLSCT` does

Each step function is taken apart once: what it reads, what it adds to the two sums and
which signer it adds.  The results about whole runs use these lemmas only.

* `addInput_ok`, `addProgram_ok`, `addValue_ok`, `addEphemeral_ok`, `addOutput_ok`:
  the outcome of a step that does not fail;
* `collectBLSCT_sums`, `collectBLSCT_signers`: the sums and the signers after both loops;
* `mem_trace_verifyBLSCT` and `verifyBLSCT_ok`: the library calls of a run.
-/

namespace Navcoin

variable {nMixFee : Int}

/-! ## The signature checks -/

section Checks

variable {G : Type} {b : Bls G}
variable {tx : CTransaction G}

/-- A balance check makes at most one call of the library. -/
theorem mem_trace_checkBalance {key : G} {w : Event G} (h : w ∈ (checkBalance b tx key).trace) :
    w = .verify tx key (b.verify key balanceMsg tx.vchBalanceSig) := by
  simp only [checkBalance, Traced.mem_trace_bind, Traced.trace_rejectIf, List.not_mem_nil,
    false_or, Traced.trace_emit, List.mem_singleton] at h
  obtain ⟨_, _, _, _, hemit | ⟨_, _, htail⟩⟩ := h
  · exact hemit
  · cases hret : b.verify key balanceMsg tx.vchBalanceSig <;> simp [hret] at htail

/-- It passes only when that call returns true. -/
theorem checkBalance_ok {key : G} {u : Unit} (h : (checkBalance b tx key).result = .ok u) :
    Event.verify tx key (some true) ∈ (checkBalance b tx key).trace := by
  simp only [checkBalance, Traced.bind_eq_ok_iff, Traced.result_rejectIf,
    Except.rejectIf_eq_ok_iff] at h
  obtain ⟨_, hsig, _, hvalid, _, _, hret⟩ := h
  cases hv : b.verify key balanceMsg tx.vchBalanceSig with
  | none => simp [hv] at hret
  | some ok =>
    cases ok with
    | false => simp [hv] at hret
    | true => simp [checkBalance, Traced.mem_trace_bind, hsig, hvalid, hv]

theorem mem_trace_checkSignature {signers : List (G × Bytes)} {w : Event G}
    (h : w ∈ (checkSignature b tx signers).trace) :
    w = .aggregateVerify tx signers
      (b.aggregateVerify (signers.map Prod.fst) (signers.map Prod.snd) tx.vchTxSig) := by
  simp only [checkSignature, Traced.mem_trace_bind, Traced.trace_rejectIf, List.not_mem_nil,
    false_or, Traced.trace_emit, List.mem_singleton] at h
  obtain ⟨_, _, _, _, hemit | ⟨_, _, htail⟩⟩ := h
  · exact hemit
  · cases hret : b.aggregateVerify (signers.map Prod.fst) (signers.map Prod.snd) tx.vchTxSig <;>
      simp [hret] at htail

theorem checkSignature_ok {signers : List (G × Bytes)} {u : Unit}
    (h : (checkSignature b tx signers).result = .ok u) :
    Event.aggregateVerify tx signers (some true) ∈ (checkSignature b tx signers).trace := by
  simp only [checkSignature, Traced.bind_eq_ok_iff, Traced.result_rejectIf,
    Except.rejectIf_eq_ok_iff] at h
  obtain ⟨_, hsig, _, hvalid, _, _, hret⟩ := h
  cases hv : b.aggregateVerify (signers.map Prod.fst) (signers.map Prod.snd) tx.vchTxSig with
  | none => simp [hv] at hret
  | some ok =>
    cases ok with
    | false => simp [hv] at hret
    | true => simp [checkSignature, Traced.mem_trace_bind, hsig, hvalid, hv]

end Checks

/-! ## The locals -/

variable {G : Type} [G1Group G]

namespace BlsctLocals

variable (s : BlsctLocals G) (t : G) (key : G) (hash : Uint256)

@[simp] theorem total_addIn : (s.addIn t).balKey.total = s.balKey.total + t :=
  RunningSum.total_push s.balKey t

@[simp] theorem balKeyOut_addIn : (s.addIn t).balKeyOut = s.balKeyOut := rfl
@[simp] theorem signers_addIn : (s.addIn t).signers = s.signers := rfl

@[simp] theorem total_addOut : (s.addOut t).balKeyOut.total = s.balKeyOut.total + t :=
  RunningSum.total_push s.balKeyOut t

@[simp] theorem balKey_addOut : (s.addOut t).balKey = s.balKey := rfl
@[simp] theorem signers_addOut : (s.addOut t).signers = s.signers := rfl

@[simp] theorem balKey_addSigner : (s.addSigner key hash).balKey = s.balKey := rfl
@[simp] theorem balKeyOut_addSigner : (s.addSigner key hash).balKeyOut = s.balKeyOut := rfl
@[simp] theorem signers_addSigner :
    (s.addSigner key hash).signers = s.signers ++ [(key, writeUint256 hash)] := rfl

variable (tokenId : TokenId) (j : Nat) (bp : BulletproofsRangeproof G)

@[simp] theorem balKey_addProof : (s.addProof tokenId j bp t).balKey = s.balKey := rfl
@[simp] theorem balKeyOut_addProof : (s.addProof tokenId j bp t).balKeyOut = s.balKeyOut := rfl
@[simp] theorem signers_addProof : (s.addProof tokenId j bp t).signers = s.signers := rfl

end BlsctLocals

/-! ## Terms -/

variable [DecidableEq G]

/-- What the program of an output adds to the credit side. -/
def mintTerm (b : Bls G) (view : CStateView G) (o : CTxOut G) : G :=
  let program := Predicate.ofVch b.toCrypto o.vData
  if !o.vData.isEmpty && program.action = .mint then
    match mintedAmount b view program with
    | .ok minted => minted.2 • b.valueGen minted.1
    | .error _ => 0
  else 0

/-- What the program of an output adds to the debit side. -/
def burnTerm (b : Bls G) (o : CTxOut G) : G :=
  let program := Predicate.ofVch b.toCrypto o.vData
  if !o.vData.isEmpty && program.action = .burn then
    program.number.toNat • b.valueGen o.tokenId
  else 0

/-- What the value of an output adds to the debit side. -/
def outputTerm (b : Bls G) (o : CTxOut G) : G :=
  if o.hasRangeProof then firstCommitment o
  else if o.nValue > 0 then toUint64 o.nValue • b.valueGen o.tokenId
  else 0

/-- The signers that the program of an output adds. -/
def programSigners (b : Bls G) (o : CTxOut G) : List (G × Bytes) :=
  let program := Predicate.ofVch b.toCrypto o.vData
  if !o.vData.isEmpty && program.isKeyed then
    [(program.key, writeUint256 (o.getHash b.toCrypto))]
  else []

/-! ## Steps -/

variable {b : Bls G} {view : CStateView G} {f : BlsctChecks} {s s' : BlsctLocals G}
variable {tx : CTransaction G}

omit [DecidableEq G] in
/-- An input that passes adds its term and, when signatures are checked, its signer. -/
theorem addInput_ok {i : CTxIn} (h : addInput b view f s i = .ok s')
    (hbal : f.fCheckBalance = true) :
    ∃ o, view.getOutputFor i = some o ∧
      s'.balKey.total = s.balKey.total + inputTerm b o ∧
      s'.balKeyOut = s.balKeyOut ∧
      (f.fCheckBLSSignature = false → s'.signers = s.signers) ∧
      (f.fCheckBLSSignature = true → ∃ key, b.fromBytes o.spendingKey = .ok key ∧
        s'.signers = s.signers ++ [(key, writeUint256 (i.getHash b.toCrypto))]) := by
  simp only [addInput, hbal, Bool.true_or, if_true] at h
  cases ho : view.getOutputFor i with
  | none =>
    simp only [ho] at h
    cases h
  | some o =>
    refine ⟨o, rfl, ?_⟩
    simp only [ho] at h
    cases hsig : f.fCheckBLSSignature with
    | false =>
      simp only [hsig, Bool.false_eq_true, if_false, Except.ok.injEq] at h
      subst h
      simp
    | true =>
      cases hkey : b.fromBytes o.spendingKey with
      | error what =>
        simp only [hsig, hkey, if_true] at h
        cases h
      | ok key =>
        simp only [hsig, hkey, if_true, Except.ok.injEq] at h
        subst h
        simp

variable {o : CTxOut G}

/-- A program that passes adds its minted or burned amount and its signer. -/
theorem addProgram_ok (h : addProgram b view o s = .ok s') :
    s'.balKey.total = s.balKey.total + mintTerm b view o ∧
      s'.balKeyOut.total = s.balKeyOut.total + burnTerm b o ∧
      s'.signers = s.signers ++ programSigners b o := by
  unfold addProgram at h
  cases hdata : o.vData.isEmpty with
  | true =>
    simp only [hdata, if_true, Except.ok.injEq] at h
    subst h
    simp [mintTerm, burnTerm, programSigners, hdata]
  | false =>
  simp only [hdata, Bool.false_eq_true, if_false] at h
  cases hact : (Predicate.ofVch b.toCrypto o.vData).action <;> simp only [hact] at h
  case mint =>
    cases hm : mintedAmount b view (Predicate.ofVch b.toCrypto o.vData) with
    | error e =>
      rw [hm] at h
      cases h
    | ok minted =>
      rw [hm] at h
      cases h
      simp [mintTerm, burnTerm, programSigners, Predicate.isKeyed, hact, hm, hdata]
  case burn =>
    split at h
    · cases h
    · cases h
      simp [mintTerm, burnTerm, programSigners, Predicate.isKeyed, hact, hdata]
  case err => cases h
  all_goals
    cases h
    simp [mintTerm, burnTerm, programSigners, Predicate.isKeyed, hact, hdata]

omit [DecidableEq G] in
theorem addValue_ok {j : Nat} (hbal : f.fCheckBalance = true) (h : addValue b f s o j = .ok s') :
    s'.balKey = s.balKey ∧
      s'.balKeyOut.total = s.balKeyOut.total + outputTerm b o ∧
      s'.signers = s.signers := by
  simp only [addValue, hbal, if_true] at h
  split at h
  · next hproof =>
    split at h
    · cases h
    · split at h
      · split at h
        · cases h
        · cases h
          simp [outputTerm, hproof]
      · cases h
        simp [outputTerm, hproof]
  · next hproof =>
    simp only [Bool.true_and, decide_eq_true_eq] at h
    split at h
    · next hpos =>
      cases h
      simp [outputTerm, hproof, hpos]
    · next hpos =>
      cases h
      simp [outputTerm, hproof, hpos]

omit [DecidableEq G] in
theorem addEphemeral_ok (h : addEphemeral b f s o = .ok s') :
    s'.balKey = s.balKey ∧ s'.balKeyOut = s.balKeyOut ∧ s.signers <+: s'.signers := by
  unfold addEphemeral at h
  split at h
  · split at h
    · cases h
    · cases h
      exact ⟨rfl, rfl, List.prefix_append _ _⟩
  · cases h
    exact ⟨rfl, rfl, List.prefix_refl _⟩

/-- One output adds its minted amount to one sum, and its burned amount and value to the
other. -/
theorem addOutput_ok {e : CTxOut G × Nat} (hbal : f.fCheckBalance = true)
    (h : addOutput b view f s e = .ok s') :
    s'.balKey.total = s.balKey.total + mintTerm b view e.1 ∧
      s'.balKeyOut.total = s.balKeyOut.total + (burnTerm b e.1 + outputTerm b e.1) ∧
      s.signers ++ programSigners b e.1 <+: s'.signers := by
  unfold addOutput at h
  rw [Except.bind_eq_ok_iff] at h
  obtain ⟨s1, hprog, h⟩ := h
  rw [Except.bind_eq_ok_iff] at h
  obtain ⟨s2, hval, heph⟩ := h
  obtain ⟨hin, hout, hsigners⟩ := addProgram_ok hprog
  obtain ⟨hin', hout', hsigners'⟩ := addValue_ok hbal hval
  obtain ⟨hin'', hout'', hprefix⟩ := addEphemeral_ok heph
  refine ⟨?_, ?_, ?_⟩
  · rw [hin'', hin', hin]
  · rw [hout'', hout', hout, add_assoc]
  · rwa [← hsigners, ← hsigners']

/-! ## The loops -/

/-- What an input counts for, through the view. -/
def spentTerm (b : Bls G) (view : CStateView G) (i : CTxIn) : G :=
  ((view.getOutputFor i).map (inputTerm b)).getD 0

/-- The fee term: absent when the fee is zero. -/
def mixFeeTerm (b : Bls G) (nMixFee : Int) : G :=
  if nMixFee ≠ 0 then mixFeeScalar nMixFee • b.valueGen {} else 0

omit [DecidableEq G] in
/-- The sums and the signers after the loop over the inputs. -/
theorem foldlM_addInput_ok {vin : List CTxIn} (hbal : f.fCheckBalance = true)
    (h : vin.foldlM (addInput b view f) s = .ok s') :
    s'.balKey.total = s.balKey.total + (vin.map (spentTerm b view)).sum ∧
      s'.balKeyOut = s.balKeyOut ∧
      (f.fCheckBLSSignature = true → ∀ i ∈ vin, ∃ o key, view.getOutputFor i = some o ∧
        b.fromBytes o.spendingKey = .ok key ∧
        (key, writeUint256 (i.getHash b.toCrypto)) ∈ s'.signers) := by
  let P : List CTxIn → BlsctLocals G → Prop := fun done t =>
    t.balKey.total = s.balKey.total + (done.map (spentTerm b view)).sum ∧
      t.balKeyOut = s.balKeyOut ∧
      (f.fCheckBLSSignature = true → ∀ i ∈ done, ∃ o key, view.getOutputFor i = some o ∧
        b.fromBytes o.spendingKey = .ok key ∧
        (key, writeUint256 (i.getHash b.toCrypto)) ∈ t.signers)
  have step : ∀ done t i t', P done t → addInput b view f t i = .ok t' → P (done ++ [i]) t' := by
    rintro done t i t' ⟨hsum, hout, hsig⟩ hstep
    obtain ⟨o, ho, hterm, hout', _, hsigner⟩ := addInput_ok hstep hbal
    refine ⟨?_, hout'.trans hout, ?_⟩
    · rw [hterm, hsum]
      simp [spentTerm, ho, add_assoc]
    · intro hon i' hi'
      obtain ⟨key, hkey, hsigners⟩ := hsigner hon
      rcases List.mem_append.mp hi' with hmem | hmem
      · obtain ⟨o', key', ho', hkey', hmem'⟩ := hsig hon i' hmem
        exact ⟨o', key', ho', hkey', by rw [hsigners]; exact List.mem_append_left _ hmem'⟩
      · rw [List.mem_singleton.mp hmem]
        exact ⟨o, key, ho, hkey, by rw [hsigners]; simp⟩
  have hrun := Except.foldlM_ok_invariant P (addInput b view f) step vin [] s s' (by simp [P]) h
  simpa [P] using hrun

/-- The sums and the signers after the loop over the outputs. -/
theorem foldlM_addOutput_ok {vout : List (CTxOut G × Nat)} (hbal : f.fCheckBalance = true)
    (h : vout.foldlM (addOutput b view f) s = .ok s') :
    s'.balKey.total = s.balKey.total + (vout.map fun e => mintTerm b view e.1).sum ∧
      s'.balKeyOut.total =
        s.balKeyOut.total + (vout.map fun e => burnTerm b e.1 + outputTerm b e.1).sum ∧
      s.signers <+: s'.signers ∧
      (∀ e ∈ vout, ∀ p ∈ programSigners b e.1, p ∈ s'.signers) := by
  let P : List (CTxOut G × Nat) → BlsctLocals G → Prop := fun done t =>
    t.balKey.total = s.balKey.total + (done.map fun e => mintTerm b view e.1).sum ∧
      t.balKeyOut.total =
        s.balKeyOut.total + (done.map fun e => burnTerm b e.1 + outputTerm b e.1).sum ∧
      s.signers <+: t.signers ∧
      (∀ e ∈ done, ∀ p ∈ programSigners b e.1, p ∈ t.signers)
  have step : ∀ done t e t', P done t → addOutput b view f t e = .ok t' →
      P (done ++ [e]) t' := by
    rintro done t e t' ⟨hin, hout, hprefix, hsig⟩ hstep
    obtain ⟨hin', hout', hsigners⟩ := addOutput_ok hbal hstep
    have hgrow : t.signers <+: t'.signers := (List.prefix_append _ _).trans hsigners
    refine ⟨?_, ?_, hprefix.trans hgrow, ?_⟩
    · rw [hin', hin]
      simp [add_assoc]
    · rw [hout', hout]
      simp [add_assoc]
    · intro e' he' p hp
      rcases List.mem_append.mp he' with hmem | hmem
      · exact hgrow.mem (hsig e' hmem p hp)
      · rw [List.mem_singleton.mp hmem] at hp
        exact hsigners.mem (List.mem_append_right _ hp)
  have hrun := Except.foldlM_ok_invariant P (addOutput b view f) step vout [] s s'
    (by simp [P]) h
  simpa [P] using hrun

/-- The two sums before the first call of the library. -/
theorem collectBLSCT_sums (hbal : f.fCheckBalance = true)
    (h : collectBLSCT b tx view f nMixFee = .ok s) :
    s.balKey.total = mixFeeTerm b nMixFee + (tx.vin.map (spentTerm b view)).sum +
        (tx.vout.map (mintTerm b view)).sum ∧
      s.balKeyOut.total = (tx.vout.map fun o => burnTerm b o + outputTerm b o).sum := by
  unfold collectBLSCT at h
  rw [Except.bind_eq_ok_iff] at h
  obtain ⟨s1, hin, hout⟩ := h
  obtain ⟨hsum, hsumOut, _⟩ := foldlM_addInput_ok hbal hin
  obtain ⟨hsum', hsumOut', _⟩ := foldlM_addOutput_ok hbal hout
  have hvout : tx.vout.zipIdx.map Prod.fst = tx.vout := List.zipIdx_map_fst 0 tx.vout
  have hmint : (tx.vout.zipIdx.map fun e => mintTerm b view e.1).sum =
      (tx.vout.map (mintTerm b view)).sum := by
    conv_rhs => rw [← hvout, List.map_map]
    rfl
  have hdebit : (tx.vout.zipIdx.map fun e => burnTerm b e.1 + outputTerm b e.1).sum =
      (tx.vout.map fun o => burnTerm b o + outputTerm b o).sum := by
    conv_rhs => rw [← hvout, List.map_map]
    rfl
  refine ⟨?_, ?_⟩
  · rw [hsum', hsum, hmint]
    by_cases hfee : nMixFee = 0 <;> simp [mixFeeTerm, hfee]
  · rw [hsumOut', hsumOut, hdebit]
    by_cases hfee : nMixFee = 0 <;> simp [hfee]

/-- The signers before the first call of the library: the spending key of every input
when signatures are checked, and the key of every keyed program in any case. -/
theorem collectBLSCT_signers (hbal : f.fCheckBalance = true)
    (h : collectBLSCT b tx view f nMixFee = .ok s) :
    (f.fCheckBLSSignature = true → ∀ i ∈ tx.vin, ∃ o key, view.getOutputFor i = some o ∧
        b.fromBytes o.spendingKey = .ok key ∧
        (key, writeUint256 (i.getHash b.toCrypto)) ∈ s.signers) ∧
      ∀ o ∈ tx.vout, ∀ p ∈ programSigners b o, p ∈ s.signers := by
  unfold collectBLSCT at h
  rw [Except.bind_eq_ok_iff] at h
  obtain ⟨s1, hin, hout⟩ := h
  obtain ⟨_, _, hinputs⟩ := foldlM_addInput_ok hbal hin
  obtain ⟨_, _, hgrow, hprograms⟩ := foldlM_addOutput_ok hbal hout
  refine ⟨?_, ?_⟩
  · intro hon i hi
    obtain ⟨o, key, ho, hkey, hmem⟩ := hinputs hon i hi
    exact ⟨o, key, ho, hkey, hgrow.mem hmem⟩
  · intro o ho p hp
    have hmem : o ∈ tx.vout.zipIdx.map Prod.fst := by rwa [List.zipIdx_map_fst 0 tx.vout]
    obtain ⟨e, he, rfl⟩ := List.mem_map.mp hmem
    exact hprograms e he p hp

/-! ## Runs -/

/-- Every call that `VerifyBLSCT` makes: the balance signature under the difference of the
two sums, and the aggregate signature of the collected signers. -/
theorem mem_trace_verifyBLSCT {fOnlyRecover : Bool} {w : Event G}
    (h : w ∈ (verifyBLSCT b tx view fOnlyRecover nMixFee).trace) :
    ∃ s, collectBLSCT b tx view (BlsctChecks.of tx fOnlyRecover) nMixFee = .ok s ∧
      ((BlsctChecks.of tx fOnlyRecover).fCheckBalance = true ∧
          (∃ ret, w = .verify tx (s.balKey.total + inverse s.balKeyOut.total) ret) ∨
        (BlsctChecks.of tx fOnlyRecover).fCheckBLSSignature = true ∧
          ∃ ret, w = .aggregateVerify tx s.signers ret) := by
  simp only [verifyBLSCT, Traced.mem_trace_bind, Traced.trace_rejectIf, List.not_mem_nil,
    false_or] at h
  obtain ⟨_, _, h⟩ := h
  split at h
  · simp only [Traced.mem_trace_bind, Traced.trace_ofExcept, Traced.result_ofExcept,
      Traced.mem_trace_onlyIf, List.not_mem_nil, false_or, and_false] at h
    obtain ⟨s, hs, _, _, ⟨hbal, hmem⟩ | ⟨_, _, hsig, hmem⟩⟩ := h
    · exact ⟨s, hs, .inl ⟨hbal, _, mem_trace_checkBalance hmem⟩⟩
    · exact ⟨s, hs, .inr ⟨hsig, _, mem_trace_checkSignature hmem⟩⟩
  · simp at h

/-- What an accepting run of `VerifyBLSCT` has verified. -/
theorem verifyBLSCT_ok {u : Unit} (hflag : tx.isBLSCT = true)
    (h : (verifyBLSCT b tx view false nMixFee).result = .ok u) : view.haveInputs tx = true ∧
      ∃ s, collectBLSCT b tx view (BlsctChecks.of tx false) nMixFee = .ok s ∧
        .verify tx (s.balKey.total + inverse s.balKeyOut.total) (some true) ∈
          (verifyBLSCT b tx view false nMixFee).trace ∧
        (tx.isBLSInput = true → .aggregateVerify tx s.signers (some true) ∈
          (verifyBLSCT b tx view false nMixFee).trace) := by
  have hany : (tx.isBLSInput || tx.isCTOutput) = true := by
    rwa [Bool.or_comm]
  have hcond : ((BlsctChecks.of tx false).fCheckRange || (BlsctChecks.of tx false).fCheckBalance
      || (BlsctChecks.of tx false).fCheckBLSSignature) = true := by
    simp [BlsctChecks.of, hany]
  have hbalance : (BlsctChecks.of tx false).fCheckBalance = true := by
    simp [BlsctChecks.of, hany]
  simp only [verifyBLSCT, Traced.bind_eq_ok_iff, Traced.result_rejectIf,
    Except.rejectIf_eq_ok_iff, hcond, if_true, Traced.result_ofExcept,
    Traced.onlyIf_eq_ok_iff] at h
  obtain ⟨_, hinputs, s, hs, _, hrange, _, hbal, hsig⟩ := h
  refine ⟨by simpa using hinputs, s, hs, ?_⟩
  simp only [verifyBLSCT, Traced.mem_trace_bind, hcond, if_true, Traced.result_rejectIf,
    Except.rejectIf_eq_ok_iff, Traced.result_ofExcept, Traced.onlyIf_eq_ok_iff,
    Traced.mem_trace_onlyIf]
  constructor
  · have hmem := checkBalance_ok (hbal hbalance)
    exact .inr ⟨(), hinputs, .inr ⟨s, hs, .inr ⟨(), hrange, .inl ⟨hbalance, hmem⟩⟩⟩⟩
  · intro hon
    have hsigned : (BlsctChecks.of tx false).fCheckBLSSignature = true := by
      simp [BlsctChecks.of, hon]
    have hmem := checkSignature_ok (hsig hsigned)
    exact .inr ⟨(), hinputs, .inr ⟨s, hs, .inr ⟨(), hrange, .inr ⟨(), hbal, hsigned, hmem⟩⟩⟩⟩

end Navcoin
