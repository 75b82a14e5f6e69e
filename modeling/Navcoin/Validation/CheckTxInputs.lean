import Navcoin.Blsct.Balance
import Navcoin.Validation.CheckTransaction

/-!
# `Consensus::CheckTxInputs`

The checks of a transaction against the outputs it spends.  A transaction without a BLS flag
has to spend at least as much as it creates; any other, unless it is a coinstake, is handed to
`VerifyBLSCT`.

* `checkTxInputs_ok`: what acceptance guarantees;
* `checkTxInputs_of_public`: when a transparent transaction is accepted;
* `spendingKeys_signed_iff`: when the keys of spent private outputs have signed.
-/

namespace Navcoin

variable {G : Type}
variable {vin : List CTxIn} {spent : List (CTxOut G)}

/-- The test for a private previous output, before and after the new serialisation. -/
def spendsBLS (fXNavSer : Bool) (o : CTxOut G) : Bool :=
  (!fXNavSer && o.isBLSCT) || (fXNavSer && !o.spendingKey.isEmpty)

structure InputLocals where
  nValueIn : Int := 0
  fHasBLSInput : Bool := false
  deriving DecidableEq, Repr

/-- The loop over `tx.vin`. -/
def checkTxInput (nd : Node G) (view : CStateView G) (nSpendHeight : Int) (fXNavSer : Bool)
    (s : InputLocals) (e : CTxIn × Nat) : Except Failure InputLocals :=
  match view.coins e.1.prevout.hash with
  | none => .error .assertion
  | some coins =>
    match coins.vout[e.1.prevout.n.toNat]? with
    | none => .error .assertion
    | some o => do
      let bls := spendsBLS fXNavSer o
      Except.rejectIf (bls && !s.fHasBLSInput && 0 < e.2) (invalid "bad-mix-bls-inputs")
      let fHasBLSInput := s.fHasBLSInput || bls
      Except.rejectIf (fHasBLSInput && !bls) (invalid "bad-mix-bls-inputs")
      let depth := nSpendHeight - coins.nHeight
      Except.rejectIf ((coins.fCoinBase || coins.fCoinStake) && !nd.fTestNet &&
        depth < nd.nCoinbaseMaturity && 0 < depth)
        (invalid "bad-txns-premature-spend-of-coinbase")
      let nValueIn := s.nValueIn + o.nValue
      Except.rejectIf (!moneyRange o.nValue || !moneyRange nValueIn)
        (dos100 "bad-txns-inputvalues-outofrange")
      pure { nValueIn := nValueIn, fHasBLSInput := fHasBLSInput }

/-- The value check of a transparent transaction; `GetValueOut` may throw. -/
def checkFee (tx : CTransaction G) (nValueIn : Int) : Except Failure Unit :=
  match tx.getValueOut with
  | .error _ => .error .exception
  | .ok nValueOut => do
    Except.rejectIf (nValueIn < nValueOut) (dos100 "bad-txns-in-belowout")
    Except.rejectIf (nValueIn - nValueOut < 0) (dos100 "bad-txns-fee-negative")
    Except.rejectIf (!moneyRange (nValueIn - nValueOut)) (dos100 "bad-txns-fee-outofrange")

/-- `catch(...) { return false; }` -/
def catchAll {ω α : Type} (x : Traced ω Failure α) : Traced ω Failure α :=
  match x.result with
  | .error .exception => ⟨x.trace, .error .returnFalse⟩
  | _ => x

@[simp] theorem trace_catchAll {ω α : Type} (x : Traced ω Failure α) :
    (catchAll x).trace = x.trace := by
  unfold catchAll
  split <;> rfl

@[simp] theorem catchAll_eq_ok_iff {ω α : Type} (x : Traced ω Failure α) (a : α) :
    (catchAll x).result = .ok a ↔ x.result = .ok a := by
  unfold catchAll
  split
  · simp_all
  · rfl

/-! ## One input -/

variable {nd : Node G} {view : CStateView G} {nSpendHeight : Int} {fXNavSer : Bool}

/-- The entry can be spent at this height. -/
def CCoins.Matured (coins : CCoins G) (nd : Node G) (nSpendHeight : Int) : Prop :=
  (coins.fCoinBase || coins.fCoinStake) = true → nSpendHeight - coins.nHeight ≤ 0 ∨
    nd.nCoinbaseMaturity ≤ nSpendHeight - coins.nHeight

/-- An input passes only when it spends an available output with an amount in range, and the entry
is mature. -/
theorem checkTxInput_ok {s s' : InputLocals} {e : CTxIn × Nat}
    (h : checkTxInput nd view nSpendHeight fXNavSer s e = .ok s') :
    (∃ o, view.getOutputFor e.1 = some o ∧ (0 ≤ o.nValue ∧ o.nValue ≤ maxMoney) ∧
      s'.nValueIn = s.nValueIn + o.nValue) ∧
    ∃ coins, view.coins e.1.prevout.hash = some coins ∧
      (nd.fTestNet = false → coins.Matured nd nSpendHeight) := by
  unfold checkTxInput at h
  cases hcoins : view.coins e.1.prevout.hash with
  | none => simp [hcoins] at h
  | some coins =>
  simp only [hcoins] at h
  cases ho : coins.vout[e.1.prevout.n.toNat]? with
  | none => simp [ho] at h
  | some o =>
  simp only [ho, Except.bind_eq_ok_iff, Except.rejectIf_eq_ok_iff, exists_and_left, exists_const,
    Except.pure_eq_ok_iff] at h
  obtain ⟨_, _, hdepth, hrange, rfl⟩ := h
  simp only [Bool.or_eq_true, Bool.not_eq_true', not_or, Bool.not_eq_false,
    moneyRange_iff] at hrange
  have hlive := CTxOut.isNull_of_nonneg hrange.1.1
  refine ⟨⟨o, ?_, hrange.1, rfl⟩, coins, rfl, fun hmain hgenerated => ?_⟩
  · simp [CStateView.getOutputFor, CCoins.isAvailable, hcoins, ho, hlive]
  · simp only [hgenerated, hmain, Bool.not_false, Bool.and_self, Bool.true_and,
      Bool.and_eq_true, decide_eq_true_eq, not_and, not_lt] at hdepth
    omega

/-- The loop adds up the amounts of the outputs spent, each of them in range. -/
theorem foldlM_checkTxInput_ok {vin : List (CTxIn × Nat)} {s' : InputLocals}
    (h : vin.foldlM (checkTxInput nd view nSpendHeight fXNavSer) {} = .ok s') :
    (∀ e ∈ vin, (∃ o, view.getOutputFor e.1 = some o ∧ 0 ≤ o.nValue ∧ o.nValue ≤ maxMoney) ∧
      ∃ coins, view.coins e.1.prevout.hash = some coins ∧
        (nd.fTestNet = false → coins.Matured nd nSpendHeight)) ∧
      s'.nValueIn = ((vin.filterMap fun e => view.getOutputFor e.1).map CTxOut.nValue).sum := by
  let P : List (CTxIn × Nat) → InputLocals → Prop := fun done t =>
    (∀ e ∈ done, (∃ o, view.getOutputFor e.1 = some o ∧ 0 ≤ o.nValue ∧ o.nValue ≤ maxMoney) ∧
      ∃ coins, view.coins e.1.prevout.hash = some coins ∧
        (nd.fTestNet = false → coins.Matured nd nSpendHeight)) ∧
      t.nValueIn = ((done.filterMap fun e => view.getOutputFor e.1).map CTxOut.nValue).sum
  refine Except.foldlM_ok_invariant P _ ?_ vin [] {} s' (by simp [P]) h
  rintro done t e t' ⟨hall, hsum⟩ hstep
  obtain ⟨⟨o, ho, hrange, hvalue⟩, hmature⟩ := checkTxInput_ok hstep
  refine ⟨?_, ?_⟩
  · refine List.forall_mem_append.mpr ⟨hall, ?_⟩
    exact List.forall_mem_singleton.mpr ⟨⟨o, ho, hrange⟩, hmature⟩
  · rw [hvalue, hsum]
    simp [ho]

/-- The input spends `o`, a public output of an ordinary transaction. -/
def SpendsPublic (view : CStateView G) (i : CTxIn) (o : CTxOut G) : Prop :=
  ∃ coins, view.coins i.prevout.hash = some coins ∧
    coins.vout[i.prevout.n.toNat]? = some o ∧
    (coins.fCoinBase = false ∧ coins.fCoinStake = false) ∧ o.isBLSCT = false ∧ 0 ≤ o.nValue

theorem SpendsPublic.getOutputFor {i : CTxIn} {o : CTxOut G}
    (h : SpendsPublic view i o) : view.getOutputFor i = some o := by
  obtain ⟨coins, hcoins, ho, _, _, hvalue⟩ := h
  simp [CStateView.getOutputFor, CCoins.isAvailable, hcoins, ho, CTxOut.isNull_of_nonneg hvalue]

section Public

variable (h : List.Forall₂ (SpendsPublic view) vin spent)
include h

theorem spentOutputs_of_public : vin.filterMap view.getOutputFor = spent := by
  induction h with
  | nil => rfl
  | cons hi _ ih => rw [List.filterMap_cons_some hi.getOutputFor, ih]

theorem haveInputs_of_public : ∀ i ∈ vin, (view.getOutputFor i).isSome = true := by
  induction h with
  | nil => simp
  | cons hi _ ih => exact List.forall_mem_cons.mpr ⟨by simp [hi.getOutputFor], ih⟩

theorem sum_nonneg_of_public : 0 ≤ (spent.map CTxOut.nValue).sum := by
  induction h with
  | nil => simp
  | cons hi _ ih =>
    obtain ⟨_, _, _, _, _, hvalue⟩ := hi
    simp only [List.map_cons, List.sum_cons]
    omega

/-- Public outputs are added up without any further condition, up to the maximal amount. -/
theorem foldlM_checkTxInput_of_public :
    ∀ (k : Nat) (n : Int), 0 ≤ n → n + (spent.map CTxOut.nValue).sum ≤ maxMoney →
      (vin.zipIdx k).foldlM (checkTxInput nd view nSpendHeight fXNavSer) { nValueIn := n } =
        .ok { nValueIn := n + (spent.map CTxOut.nValue).sum } := by
  induction h with
  | nil =>
    simp [pure, Except.pure]
  | @cons i o vin spent hi hrest ih =>
    intro k n hn htotal
    obtain ⟨coins, hcoins, ho, hcb, hpublic, hvalue⟩ := hi
    have hsum := sum_nonneg_of_public hrest
    simp only [List.map_cons, List.sum_cons] at htotal ⊢
    have hbls : spendsBLS fXNavSer o = false := by
      simp only [CTxOut.isBLSCT, Bool.or_eq_false_iff, Bool.not_eq_false'] at hpublic
      simp [spendsBLS, CTxOut.isBLSCT, hpublic]
    have hrange : moneyRange o.nValue = true ∧ moneyRange (n + o.nValue) = true := by
      simp only [moneyRange_iff]
      omega
    rw [List.zipIdx_cons, List.foldlM_cons, Except.bind_eq_ok_iff]
    refine ⟨{ nValueIn := n + o.nValue }, ?_, ?_⟩
    · simp [checkTxInput, hcoins, ho, hbls, hcb, hrange, Except.bind_eq_ok_iff, pure, Except.pure]
    · rw [ih (k + 1) (n + o.nValue) (by omega) (by omega), add_assoc]

end Public

theorem checkFee_ok {tx : CTransaction G} {nValueIn : Int} {u : Unit}
    (h : checkFee tx nValueIn = .ok u) : (tx.vout.map CTxOut.nValue).sum ≤ nValueIn := by
  unfold checkFee at h
  cases hout : tx.getValueOut with
  | error what => simp [hout] at h
  | ok nValueOut =>
    simp only [hout, Except.bind_eq_ok_iff, Except.rejectIf_eq_ok_iff] at h
    rw [← (CTransaction.getValueOut_eq_ok hout).1]
    omega

/-- `GetValueOut` does not throw on amounts in range. -/
theorem getValueOut_of_outputs {tx : CTransaction G} (hout : ∀ o ∈ tx.vout, OutputOk tx o)
    (htotal : (tx.vout.map CTxOut.nValue).sum ≤ maxMoney) :
    tx.getValueOut = .ok (tx.vout.map CTxOut.nValue).sum := by
  have hloop : ∀ (l : List (CTxOut G)) (n : Int), (∀ o ∈ l, OutputOk tx o) → 0 ≤ n →
      n + (l.map CTxOut.nValue).sum ≤ maxMoney →
      l.foldlM CTransaction.addValueOut n = .ok (n + (l.map CTxOut.nValue).sum) := by
    intro l
    induction l with
    | nil =>
      simp [pure, Except.pure]
    | cons o l ih =>
      intro n hl hn htotal
      obtain ⟨ho, hrest⟩ := List.forall_mem_cons.mp hl
      have hsum := sum_nValue_nonneg hrest
      have hvalue := ho.inRange
      simp only [List.map_cons, List.sum_cons] at htotal ⊢
      have hrange : moneyRange o.nValue = true ∧ moneyRange (n + o.nValue) = true := by
        simp only [moneyRange_iff]
        omega
      rw [List.foldlM_cons, Except.bind_eq_ok_iff]
      refine ⟨n + o.nValue, by simp [CTransaction.addValueOut, hrange], ?_⟩
      rw [ih (n + o.nValue) hrest (by omega) (by omega), add_assoc]
  simpa [CTransaction.getValueOut] using
    hloop tx.vout 0 hout (le_refl 0) (by simpa using htotal)

variable [G1Group G] [DecidableEq G]

def checkTxInputs (nd : Node G) (tx : CTransaction G) (view : CStateView G) (nSpendHeight : Int)
    (fXNavSer : Bool) (allowedInPrivate : Int) : Traced (Event G) Failure Unit := do
  Traced.rejectIf (view.haveInputs tx = false) (.reject 0 0 "")
  let s ← Traced.ofExcept
    (tx.vin.zipIdx.foldlM (checkTxInput nd view nSpendHeight fXNavSer) {})
  if tx.isBLSCT then
    Traced.onlyIf (tx.isCoinStake = false)
      (catchAll (verifyBLSCT nd.toBls tx view false allowedInPrivate))
  else
    Traced.onlyIf (tx.isCoinBase = false ∧ tx.isCoinStake = false)
      (Traced.ofExcept (checkFee tx s.nValueIn))

/-! ## Acceptance -/

variable {nd : Node G} {tx : CTransaction G} {view : CStateView G} {nSpendHeight : Int}
  {fXNavSer : Bool} {allowedInPrivate : Int}

/-- **What `CheckTxInputs` guarantees.** -/
theorem checkTxInputs_ok {u : Unit}
    (h : (checkTxInputs nd tx view nSpendHeight fXNavSer allowedInPrivate).result = .ok u) :
    (∀ i ∈ tx.vin, ∃ o, view.getOutputFor i = some o ∧ 0 ≤ o.nValue ∧ o.nValue ≤ maxMoney) ∧
      (tx.isBLSCT = false → tx.isCoinBase = false → tx.isCoinStake = false →
        (tx.vout.map CTxOut.nValue).sum ≤ ((spentOutputs view tx).map CTxOut.nValue).sum) ∧
      (tx.isBLSCT = true → tx.isCoinStake = false →
        (verifyBLSCT nd.toBls tx view false allowedInPrivate).result = .ok u ∧
        ∀ w ∈ (verifyBLSCT nd.toBls tx view false allowedInPrivate).trace,
          w ∈ (checkTxInputs nd tx view nSpendHeight fXNavSer allowedInPrivate).trace) := by
  have hrun := h
  simp only [checkTxInputs, Traced.bind_eq_ok_iff, Traced.result_rejectIf,
    Except.rejectIf_eq_ok_iff, Traced.result_ofExcept] at hrun
  obtain ⟨_, hhave, s, hloop, htail⟩ := hrun
  obtain ⟨hinputs, hsum⟩ := foldlM_checkTxInput_ok hloop
  have hfst : tx.vin.zipIdx.map Prod.fst = tx.vin := List.zipIdx_map_fst 0 tx.vin
  have hspent : (tx.vin.zipIdx.filterMap fun e => view.getOutputFor e.1) =
      spentOutputs view tx := by
    rw [spentOutputs, ← hfst, List.filterMap_map, hfst]
    rfl
  refine ⟨?_, ?_, ?_⟩
  · intro i hi
    rw [← hfst] at hi
    obtain ⟨e, he, rfl⟩ := List.mem_map.mp hi
    exact (hinputs e he).1
  · intro hflag hcb hcs
    simp only [hflag, Bool.false_eq_true, if_false, Traced.onlyIf_eq_ok_iff,
      Traced.result_ofExcept] at htail
    rw [← hspent, ← hsum]
    exact checkFee_ok (htail ⟨hcb, hcs⟩)
  · intro hflag hcs
    simp only [hflag, if_true, Traced.onlyIf_eq_ok_iff, catchAll_eq_ok_iff] at htail
    refine ⟨htail hcs, ?_⟩
    intro w hw
    simp only [checkTxInputs, Traced.mem_trace_bind, Traced.result_rejectIf,
      Except.rejectIf_eq_ok_iff, Traced.result_ofExcept]
    refine .inr ⟨(), hhave, .inr ⟨s, hloop, ?_⟩⟩
    rw [if_pos hflag, Traced.mem_trace_onlyIf, trace_catchAll]
    exact ⟨hcs, hw⟩

/-- Every call to the library is made for a transaction with a flag that is no coinstake. -/
theorem mem_trace_checkTxInputs {w : Event G}
    (h : w ∈ (checkTxInputs nd tx view nSpendHeight fXNavSer allowedInPrivate).trace) :
    tx.isBLSCT = true ∧ tx.isCoinStake = false ∧
      w ∈ (verifyBLSCT nd.toBls tx view false allowedInPrivate).trace := by
  simp only [checkTxInputs, Traced.mem_trace_bind, Traced.trace_rejectIf, List.not_mem_nil,
    false_or, Traced.trace_ofExcept] at h
  obtain ⟨_, _, s, _, h⟩ := h
  split at h
  · next hflag =>
    rw [Traced.mem_trace_onlyIf, trace_catchAll] at h
    exact ⟨hflag, h⟩
  · rw [Traced.mem_trace_onlyIf] at h
    exact absurd h.2 List.not_mem_nil

/-- **When a transparent transaction is accepted**: it spends public outputs and at least as
much as it creates. -/
theorem checkTxInputs_of_public (hflag : tx.isBLSCT = false) (hout : ∀ o ∈ tx.vout, OutputOk tx o)
    (hspent : List.Forall₂ (SpendsPublic view) tx.vin spent)
    (htotal : (spent.map CTxOut.nValue).sum ≤ maxMoney)
    (hle : (tx.vout.map CTxOut.nValue).sum ≤ (spent.map CTxOut.nValue).sum) :
    (checkTxInputs nd tx view nSpendHeight fXNavSer allowedInPrivate).result = .ok () := by
  have hhave : view.haveInputs tx = true := by
    rw [CStateView.haveInputs, List.all_eq_true.mpr (haveInputs_of_public hspent), Bool.or_true]
  have hloop : tx.vin.zipIdx.foldlM (checkTxInput nd view nSpendHeight fXNavSer) {} =
      .ok { nValueIn := 0 + (spent.map CTxOut.nValue).sum } :=
    foldlM_checkTxInput_of_public hspent 0 0 (le_refl 0) (by simpa using htotal)
  have hnonneg := sum_nValue_nonneg hout
  have hvalue := getValueOut_of_outputs hout (by omega)
  have hfee : checkFee tx (0 + (spent.map CTxOut.nValue).sum) = .ok () := by
    simp only [checkFee, hvalue, Except.bind_eq_ok_iff, Except.rejectIf_eq_ok_iff,
      exists_and_left, exists_const, Bool.not_eq_true', Bool.not_eq_false, moneyRange_iff]
    omega
  simp only [checkTxInputs, Traced.bind_eq_ok_iff, Traced.result_rejectIf,
    Except.rejectIf_eq_ok_iff, Traced.result_ofExcept]
  refine ⟨(), by simp [hhave], _, hloop, ?_⟩
  rw [if_neg (by simp [hflag]), Traced.onlyIf_eq_ok_iff]
  intro _
  exact hfee

/-! ## Spending keys -/

/-- **Who signs for private inputs.**  Every key of a spent private output is among the
signers of an accepted aggregate signature exactly when no private output is spent, or the
transaction has the input flag and is no coinstake. -/
theorem spendingKeys_signed_iff (nd : Node G) (tx : CTransaction G) (view : CStateView G)
    (nSpendHeight allowedInPrivate : Int)
    (hin : (checkTxInputs nd tx view nSpendHeight true allowedInPrivate).result = .ok ()) :
    (∀ i ∈ tx.vin, ∀ o, view.getOutputFor i = some o → o.spendingKey ≠ [] →
        tx.isBLSInput = true ∧ ∃ key signers, nd.fromBytes o.spendingKey = .ok key ∧
          (key, writeUint256 (i.getHash nd.toCrypto)) ∈ signers ∧
          .aggregateVerify tx signers (some true) ∈
            (checkTxInputs nd tx view nSpendHeight true allowedInPrivate).trace) ↔
      (∀ i ∈ tx.vin, ∀ o, view.getOutputFor i = some o → o.spendingKey = []) ∨
        tx.isBLSInput = true ∧ tx.isCoinStake = false := by
  constructor
  · intro hsigned
    by_cases hnone : ∀ i ∈ tx.vin, ∀ o, view.getOutputFor i = some o → o.spendingKey = []
    · exact .inl hnone
    · push Not at hnone
      obtain ⟨i, hi, o, ho, hkey⟩ := hnone
      obtain ⟨hflag, _, _, _, _, hevent⟩ := hsigned i hi o ho hkey
      exact .inr ⟨hflag, (mem_trace_checkTxInputs hevent).2.1⟩
  · rintro (hnone | ⟨hflag, hcs⟩) i hi o ho hkey
    · exact absurd (hnone i hi o ho) hkey
    · have hbls : tx.isBLSCT = true := by simp [CTransaction.isBLSCT, hflag]
      obtain ⟨hverify, htrace⟩ := (checkTxInputs_ok hin).2.2 hbls hcs
      obtain ⟨_, s, hs, _, hagg⟩ := verifyBLSCT_ok hbls hverify
      have hbal : (BlsctChecks.of tx false).fCheckBalance = true := by
        simp [BlsctChecks.of, hflag]
      have hsig : (BlsctChecks.of tx false).fCheckBLSSignature = true := by
        simp [BlsctChecks.of, hflag]
      obtain ⟨o', key, ho', hparse, hmem⟩ := (collectBLSCT_signers hbal hs).1 hsig i hi
      obtain rfl : o = o' := Option.some.inj (ho.symm.trans ho')
      exact ⟨hflag, key, s.signers, hparse, hmem, htrace _ (hagg hflag)⟩

/-- A private output of the given amount: its script is `OP_1`, so only its spending key
protects it. -/
def keyedOutput (nValue : Int) : CTxOut (ZMod groupOrder) :=
  { nValue := nValue, scriptPubKey := [op1], spendingKey := toBE 48 5 }

/-- A transaction that spends it and signs for it. -/
def signedSpend : CTransaction (ZMod groupOrder) :=
  { nVersion := 0x30, vin := [coinInput 0], vchBalanceSig := [1], vchTxSig := [1],
    vout := [{ nValue := 3, scriptPubKey := [op1] }] }

/-- The same transaction with the output flag only. -/
def unsignedSpend : CTransaction (ZMod groupOrder) :=
  { signedSpend with nVersion := 0x20, vchTxSig := [] }

/-- A coinstake with both flags. -/
def unsignedStake : CTransaction (ZMod groupOrder) :=
  { signedSpend with vout := [{ nValue := 0 }, { nValue := 3, scriptPubKey := [op1] }] }

theorem spendingKeys_signed_signedSpend :
    ∃ key signers, (fixedNode true).fromBytes (keyedOutput 3).spendingKey = .ok key ∧
      (key, writeUint256 ((coinInput 0).getHash (fixedNode true).toCrypto)) ∈ signers ∧
      .aggregateVerify signedSpend signers (some true) ∈
        (checkTxInputs (fixedNode true) signedSpend (coinView [keyedOutput 3]) 10 true 0).trace :=
  ((spendingKeys_signed_iff (fixedNode true) signedSpend (coinView [keyedOutput 3]) 10 0
    (by decide +kernel)).mpr (.inr (by decide)) (coinInput 0) (by decide) (keyedOutput 3)
    (by decide +kernel) (by decide)).2

/-- The transaction is accepted although every aggregate signature is refused. -/
def AcceptedUnsigned (tx : CTransaction (ZMod groupOrder)) : Prop :=
  tx.isCoinBase = false ∧ checkTransaction (fixedNode false) tx = .ok () ∧
    (checkTxInputs (fixedNode false) tx (coinView [keyedOutput 3]) 10 true 0).result = .ok () ∧
    coinInput 0 ∈ tx.vin ∧
    (coinView [keyedOutput 3]).getOutputFor (coinInput 0) = some (keyedOutput 3) ∧
    (keyedOutput 3).spendingKey ≠ [] ∧
    ∀ signers, .aggregateVerify tx signers (some true) ∉
      (checkTxInputs (fixedNode false) tx (coinView [keyedOutput 3]) 10 true 0).trace

theorem spendingKeys_unsigned_accepted :
    AcceptedUnsigned unsignedSpend ∧ AcceptedUnsigned unsignedStake := by
  suffices h : ∀ tx ∈ [unsignedSpend, unsignedStake], AcceptedUnsigned tx from
    ⟨h _ (by simp), h _ (by simp)⟩
  intro tx htx
  refine ⟨?_, ?_, ?_, ?_, by decide +kernel, by decide, ?_⟩
  · revert tx; decide
  · revert tx; decide +kernel
  · revert tx; decide +kernel
  · revert tx; decide
  · intro signers hmem
    obtain ⟨_, hcs, hverify⟩ := mem_trace_checkTxInputs hmem
    obtain ⟨s, _, ⟨_, ret, hw⟩ | ⟨hsig, ret, hw⟩⟩ := mem_trace_verifyBLSCT hverify
    · cases hw
    · simp only [List.mem_cons, List.not_mem_nil, or_false] at htx
      rcases htx with rfl | rfl
      · exact absurd hsig (by decide)
      · exact absurd hcs (by decide)

end Navcoin
