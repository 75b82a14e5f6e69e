import Navcoin.Blsct.Verification

/-!
# `CheckTransaction`

The checks of a transaction that need no context.

* `checkTransaction_ok`: everything an accepted transaction satisfies;
* `checkTransaction_of_txOk`: the same conditions suffice when no output carries a
  private key, so that the set of private outputs is never consulted.
-/

namespace Navcoin

/-- The validating node: the curve library, the chain parameters and the build of the
standard library. -/
structure Node (G : Type) extends Bls G where
  /-- `vBlsOut.count(txout)` after inserting the given outputs.  The comparison of outputs is
  not an order, so the standard leaves the answer open. -/
  setCount : List (CTxOut G) → CTxOut G → Bool
  fTestNet : Bool
  nCoinbaseMaturity : Int

def maxBlockBaseSize : Nat := 2000000

variable {G : Type}
variable {tx : CTransaction G} {vout : List (CTxOut G)}

/-- The loop over the outputs, with the running total. -/
def checkOutput (tx : CTransaction G) (nValueOut : Int) (txout : CTxOut G) :
    Except Failure Int := do
  Except.rejectIf (txout.isEmpty && !tx.isCoinBase && !tx.isCoinStake) (.reject 100 0 "")
  Except.rejectIf (txout.nValue < 0) (dos100 "bad-txns-vout-negative")
  Except.rejectIf (txout.nValue > maxMoney) (dos100 "bad-txns-vout-toolarge")
  Except.rejectIf (moneyRange (nValueOut + txout.nValue) = false)
    (dos100 "bad-txns-txouttotal-toolarge")
  Except.rejectIf (!txout.vData.isEmpty && !tx.isCTOutput) (dos100 "tx-wrong-version-blsct-out")
  pure (nValueOut + txout.nValue)

/-- The loop over the inputs, with the outpoints seen. -/
def checkInputFresh (vInOutPoints : List COutPoint) (txin : CTxIn) :
    Except Failure (List COutPoint) := do
  Except.rejectIf (txin.prevout ∈ vInOutPoints) (dos100 "bad-txns-inputs-duplicate")
  pure (txin.prevout :: vInOutPoints)

/-- The loop over the private outputs, with those inserted. -/
def checkOutputFresh (nd : Node G) (vBlsOut : List (CTxOut G)) (txout : CTxOut G) :
    Except Failure (List (CTxOut G)) :=
  if !txout.isBLSCT then .ok vBlsOut
  else do
    Except.rejectIf (nd.setCount vBlsOut txout) (dos100 "bad-txns-ctout-duplicate")
    pure (txout :: vBlsOut)

/-- The last check: the script of a coinbase, or the outpoints of anything else. -/
def checkPrevouts (tx : CTransaction G) : Except Failure Unit :=
  if tx.isCoinBase then
    tx.vin.head?.toList.forM fun i =>
      Except.rejectIf (i.scriptSig.length < 2 ∨ i.scriptSig.length > 100) (dos100 "bad-cb-length")
  else
    tx.vin.forM fun i => Except.rejectIf i.prevout.isNull (.reject 10 0x10 "bad-txns-prevout-null")

def checkTransaction [Zero G] (nd : Node G) (tx : CTransaction G) : Except Failure Unit := do
  Except.rejectIf tx.vin.isEmpty (.reject 10 0x10 "bad-txns-vin-empty")
  Except.rejectIf tx.vout.isEmpty (.reject 10 0x10 "bad-txns-vout-empty")
  Except.rejectIf ((tx.serialize nd.toCrypto).length > maxBlockBaseSize)
    (dos100 "bad-txns-oversize")
  Except.rejectIf (tx.isCTOutput && tx.vchBalanceSig.isEmpty ||
    !tx.isCTOutput && (tx.hasCTOutput || !tx.vchBalanceSig.isEmpty))
    (dos100 "bad-ctout-version-flag")
  Except.rejectIf (tx.isBLSInput && (tx.vchBalanceSig.isEmpty || tx.vchTxSig.isEmpty) ||
    !tx.isBLSInput && !tx.vchTxSig.isEmpty) (dos100 "bad-blsinput-version-flag")
  Except.rejectIf (tx.isCoinBase && (tx.isBLSInput || tx.isCTOutput))
    (dos100 "bad-blsct-coinbase")
  let _ ← tx.vout.foldlM (checkOutput tx) 0
  let _ ← tx.vin.foldlM checkInputFresh []
  let _ ← tx.vout.foldlM (checkOutputFresh nd) []
  checkPrevouts tx

/-! ## What an accepted transaction satisfies -/

/-- The conditions on one output. -/
structure OutputOk (tx : CTransaction G) (o : CTxOut G) : Prop where
  notEmpty : o.isEmpty = true → tx.isCoinBase = true ∨ tx.isCoinStake = true
  inRange : 0 ≤ o.nValue ∧ o.nValue ≤ maxMoney
  data : o.vData.isEmpty = false → tx.isCTOutput = true

/-- The conditions on the transaction, but for the set of private outputs. -/
structure TxOk [Zero G] (nd : Node G) (tx : CTransaction G) : Prop where
  vin : tx.vin ≠ []
  vout : tx.vout ≠ []
  size : (tx.serialize nd.toCrypto).length ≤ maxBlockBaseSize
  balanceSig : tx.vchBalanceSig.isEmpty = !tx.isCTOutput
  proofs : tx.hasCTOutput = true → tx.isCTOutput = true
  ctOfInput : tx.isBLSInput = true → tx.isCTOutput = true
  txSig : tx.vchTxSig.isEmpty = !tx.isBLSInput
  coinBase : tx.isCoinBase = true → tx.isBLSCT = false
  outputs : ∀ o ∈ tx.vout, OutputOk tx o
  total : (tx.vout.map CTxOut.nValue).sum ≤ maxMoney
  fresh : (tx.vin.map CTxIn.prevout).Nodup
  prevouts : checkPrevouts tx = .ok ()

/-- The running total of amounts in range never decreases. -/
theorem sum_nValue_nonneg (h : ∀ o ∈ vout, OutputOk tx o) : 0 ≤ (vout.map CTxOut.nValue).sum := by
  apply List.sum_nonneg
  intro v hv
  obtain ⟨o, ho, rfl⟩ := List.mem_map.mp hv
  exact (h o ho).inRange.1

theorem checkOutput_ok_iff {o : CTxOut G} {s t : Int} :
    checkOutput tx s o = .ok t ↔
      OutputOk tx o ∧ (0 ≤ s + o.nValue ∧ s + o.nValue ≤ maxMoney) ∧ t = s + o.nValue := by
  simp only [checkOutput, Except.bind_eq_ok_iff, Except.rejectIf_eq_ok_iff, exists_and_left,
    exists_const, Except.pure_eq_ok_iff, Bool.not_eq_false, moneyRange_iff]
  constructor
  · rintro ⟨hempty, hneg, hlarge, hrange, hdata, rfl⟩
    refine ⟨⟨?_, by omega, ?_⟩, hrange, rfl⟩
    · intro h
      simpa [h, or_iff_not_imp_left] using hempty
    · intro h
      simpa [h] using hdata
  · rintro ⟨⟨hempty, hvalue, hdata⟩, hrange, rfl⟩
    refine ⟨?_, by omega, by omega, hrange, ?_, rfl⟩
    · cases h : o.isEmpty with
      | false => simp
      | true => simpa [or_iff_not_imp_left] using hempty h
    · cases h : o.vData.isEmpty with
      | true => simp
      | false => simpa using hdata h

/-- The outputs pass exactly when each passes and the total stays in range. -/
theorem foldlM_checkOutput_ok_iff {s t : Int} (hs : 0 ≤ s ∧ s ≤ maxMoney) :
    vout.foldlM (checkOutput tx) s = .ok t ↔
      (∀ o ∈ vout, OutputOk tx o) ∧ t ≤ maxMoney ∧ t = s + (vout.map CTxOut.nValue).sum := by
  induction vout generalizing s with
  | nil =>
    simp only [List.foldlM_nil, Except.pure_eq_ok_iff, List.not_mem_nil,
      false_imp_iff, implies_true, List.map_nil, List.sum_nil, add_zero, true_and]
    constructor
    · rintro rfl
      exact ⟨hs.2, rfl⟩
    · rintro ⟨_, rfl⟩
      rfl
  | cons o vout ih =>
    simp only [List.foldlM_cons, Except.bind_eq_ok_iff, checkOutput_ok_iff, List.map_cons,
      List.sum_cons, List.forall_mem_cons]
    constructor
    · rintro ⟨_, ⟨ho, hrange, rfl⟩, hrest⟩
      obtain ⟨hall, hle, rfl⟩ := (ih hrange).mp hrest
      exact ⟨⟨ho, hall⟩, hle, by omega⟩
    · rintro ⟨⟨ho, hall⟩, hle, rfl⟩
      -- the rest adds nothing negative, so the total bounds every running total
      have hrest := sum_nValue_nonneg hall
      have hvalue := ho.inRange
      have hrange : 0 ≤ s + o.nValue ∧ s + o.nValue ≤ maxMoney := by omega
      exact ⟨_, ⟨ho, hrange, rfl⟩, (ih hrange).mpr ⟨hall, hle, by omega⟩⟩

/-- The inputs pass exactly when no outpoint repeats. -/
theorem foldlM_checkInputFresh_ok_iff {vin : List CTxIn} {seen : List COutPoint} :
    (∃ t, vin.foldlM checkInputFresh seen = .ok t) ↔
      (vin.map CTxIn.prevout).Nodup ∧ ∀ i ∈ vin, i.prevout ∉ seen := by
  induction vin generalizing seen with
  | nil => simp [pure, Except.pure]
  | cons i vin ih =>
    have hstep : (∃ t, (i :: vin).foldlM checkInputFresh seen = .ok t) ↔
        i.prevout ∉ seen ∧ ∃ t, vin.foldlM checkInputFresh (i.prevout :: seen) = .ok t := by
      simp [checkInputFresh, Except.bind_eq_ok_iff, pure, Except.pure]
    rw [hstep, ih, List.forall_mem_cons]
    simp only [List.map_cons, List.nodup_cons, List.mem_map, not_exists, not_and,
      List.mem_cons, not_or]
    constructor
    · rintro ⟨hi, hnodup, hrest⟩
      exact ⟨⟨fun x hx => (hrest x hx).1, hnodup⟩, hi, fun x hx => (hrest x hx).2⟩
    · rintro ⟨⟨hne, hnodup⟩, hi, hrest⟩
      exact ⟨hi, hnodup, fun x hx => ⟨hne x hx, hrest x hx⟩⟩

/-- Without private outputs their set is never consulted. -/
theorem foldlM_checkOutputFresh_of_public (nd : Node G) (h : ∀ o ∈ vout, o.isBLSCT = false)
    (s : List (CTxOut G)) :
    vout.foldlM (checkOutputFresh nd) s = .ok s := by
  induction vout with
  | nil => rfl
  | cons o vout ih =>
    obtain ⟨ho, hrest⟩ := List.forall_mem_cons.mp h
    rw [List.foldlM_cons, Except.bind_eq_ok_iff]
    exact ⟨s, by simp [checkOutputFresh, ho], ih hrest⟩

/-- **What `CheckTransaction` guarantees.** -/
theorem checkTransaction_ok [Zero G] {nd : Node G} {u : Unit} (h : checkTransaction nd tx = .ok u) :
    TxOk nd tx := by
  simp only [checkTransaction, Except.bind_eq_ok_iff, Except.rejectIf_eq_ok_iff,
    exists_and_left, exists_const] at h
  obtain ⟨hvin, hvout, hsize, hct, hbls, hcb, t, hout, seen, hin, _, _, hprev⟩ := h
  obtain ⟨houtputs, hle, rfl⟩ := (foldlM_checkOutput_ok_iff (by decide)).mp hout
  constructor
  case outputs => exact houtputs
  case total => simpa using hle
  case fresh => exact (foldlM_checkInputFresh_ok_iff.mp ⟨seen, hin⟩).1
  case prevouts => exact hprev
  case size => omega
  case vin => simpa using hvin
  case vout => simpa using hvout
  case coinBase =>
    intro h
    simpa [h, CTransaction.isBLSCT, and_comm] using hcb
  all_goals
    cases hflag : tx.isCTOutput <;> cases hin : tx.isBLSInput <;>
      simp_all

/-- **When `CheckTransaction` accepts**, for a transaction without private outputs. -/
theorem checkTransaction_of_txOk [Zero G] {nd : Node G} (h : TxOk nd tx)
    (hpublic : ∀ o ∈ tx.vout, o.isBLSCT = false) :
    checkTransaction nd tx = .ok () := by
  simp only [checkTransaction, Except.bind_eq_ok_iff, Except.rejectIf_eq_ok_iff,
    exists_and_left, exists_const]
  have hout : tx.vout.foldlM (checkOutput tx) 0 = .ok (tx.vout.map CTxOut.nValue).sum :=
    (foldlM_checkOutput_ok_iff (by decide)).mpr ⟨h.outputs, h.total, by simp⟩
  obtain ⟨seen, hin⟩ := foldlM_checkInputFresh_ok_iff.mpr
    ⟨h.fresh, fun i _ => List.not_mem_nil⟩
  refine ⟨by simpa using h.vin, by simpa using h.vout, by simpa using h.size, ?_, ?_, ?_,
    _, hout, seen, hin, [], foldlM_checkOutputFresh_of_public nd hpublic [], h.prevouts⟩
  · have hproofs := h.proofs
    cases hflag : tx.isCTOutput <;> simp_all [h.balanceSig]
  · have hct := h.ctOfInput
    cases hflag : tx.isBLSInput <;> simp_all [h.balanceSig, h.txSig]
  · intro hcb
    simp only [Bool.and_eq_true] at hcb
    have hflags := h.coinBase hcb.1
    simp_all [CTransaction.isBLSCT]

/-- A main-net node over the library for concrete runs. -/
def fixedNode (answer : Bool) : Node (ZMod groupOrder) :=
  { fixedBls answer with
    setCount := fun known o => known.any (CTxOut.eq o)
    fTestNet := false
    nCoinbaseMaturity := 50 }

end Navcoin
