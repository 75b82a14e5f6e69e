import Navcoin.Validation.ChainNode

/-!
# Coinstakes of cold-staking coins

`CheckProofOfStake`: whoever stakes coins of a cold-staking script can sign for them, so the
coinstake has to return them to that script.  Once the pool fee is deployed the values of the
outputs with the script are added up; what else such an output has is not looked at.

* `checkProofOfStake_cold`: what is known of an accepted coinstake of a cold-staking script;
* `valueUnder_split`: the outputs that only the script decides on, and the others;
* `coldStake_kept_iff`: when the coins stay with their owner.
-/

namespace Navcoin

variable {G : Type}

namespace CScript

def isColdStaking (script : CScript) : Bool :=
  script.length > 2 && script[0]? == some opCoinstake && script[1]? == some opIf

/-- Either version. -/
def isCold (script : CScript) : Bool := script.isColdStaking || script.isColdStakingv2

end CScript

/-- What the check asks of the node: transactions from the index or from disk with the block they
are in, versions, scripts and the hash of the kernel. -/
structure StakeNode (G : Type) where
  toCrypto : Crypto G
  getTransaction : Uint256 → CStateView G → Option (CTransaction G × Uint256)
  isColdStakingPoolFeeEnabled : CBlockIndex → Bool
  mapBlockIndex : Uint256 → Option CBlockIndex
  verifyScript : CCoins G → CTransaction G → Nat → Bool
  checkStakeKernelHash :
    CBlockIndex → UInt32 → CBlockIndex → CTransaction G → COutPoint → UInt32 → Bool

/-! ## The check -/

/-- `txPrev.vout[n].scriptPubKey`; nothing is known of a read past the end, which is an empty script
here. -/
def prevScript (txPrev : CTransaction G) (prevout : COutPoint) : CScript :=
  ((txPrev.vout[prevout.n.toNat]?).map CTxOut.scriptPubKey).getD []

/-- The loop over the inputs after the kernel. -/
def checkKernelScripts (nd : StakeNode G) (view : CStateView G) (kernelScript : CScript) :
    Bool → List CTxIn → Option Bool
  | fColdStaking, [] => some fColdStaking
  | fColdStaking, txin :: vin =>
    match nd.getTransaction txin.prevout.hash view with
    | none => none
    | some (txPrev, _) =>
      let script := prevScript txPrev txin.prevout
      let fColdStaking := fColdStaking || script.isCold
      if fColdStaking && script != kernelScript then none
      else checkKernelScripts nd view kernelScript fColdStaking vin

/-- The outputs with a script that satisfy a test, added up. -/
def valueUnder (p : CTxOut G → Bool) (vout : List (CTxOut G)) (script : CScript) : Int :=
  ((vout.filter fun o => o.scriptPubKey == script && p o).map CTxOut.nValue).sum

/-- The outputs of a coinstake that spends a cold-staking script; the first is empty, and before the
pool fee the last goes to the fund. -/
def checkColdOutputs (fPoolEnabled : Bool) (kernelScript : CScript) (view : CStateView G)
    (tx : CTransaction G) : Bool :=
  view.haveInputs tx &&
    if fPoolEnabled then
      view.getValueIn tx ≤ valueUnder (fun _ => true) (tx.vout.drop 1) kernelScript
    else (tx.vout.drop 1).dropLast.all fun o => o.scriptPubKey == kernelScript

/-- The signature of the kernel, unless it is left to a queue; without its coins the node stops. -/
def checkKernelSignature (nd : StakeNode G) (pvChecks fCheckSignature : Bool)
    (view : CStateView G) (tx : CTransaction G) (prevout : COutPoint) : Bool :=
  !fCheckSignature ||
    match view.coins prevout.hash with
    | none => false
    | some coins => pvChecks || nd.verifyScript coins tx 0

def checkProofOfStake (nd : StakeNode G) [Zero G] (pvChecks fCheckSignature : Bool)
    (pindexPrev : CBlockIndex) (tx : CTransaction G) (nBits : UInt32) (view : CStateView G) :
    Bool :=
  tx.isCoinStake &&
    match tx.vin with
    | [] => false
    | txin :: vin =>
      match nd.getTransaction txin.prevout.hash view with
      | none => false
      | some (txPrev, hashBlock) =>
        let kernelScript := prevScript txPrev txin.prevout
        let fPoolEnabled := nd.isColdStakingPoolFeeEnabled pindexPrev
        match if fPoolEnabled then checkKernelScripts nd view kernelScript kernelScript.isCold vin
          else some kernelScript.isCold with
        | none => false
        | some fColdStaking =>
          (!fColdStaking || checkColdOutputs fPoolEnabled kernelScript view tx) &&
          checkKernelSignature nd pvChecks fCheckSignature view tx txin.prevout &&
          match nd.mapBlockIndex hashBlock with
          | none => false
          | some pblockindex =>
            txin.prevout.hash == txPrev.getHash nd.toCrypto &&
              nd.checkStakeKernelHash pindexPrev nBits pblockindex txPrev txin.prevout tx.nTime

/-! ## The inputs -/

/-- The transactions that the node finds have the outputs that are in the view. -/
def StakeNode.ReadsOutputs (nd : StakeNode G) (view : CStateView G) (tx : CTransaction G) : Prop :=
  ∀ i ∈ tx.vin, ∀ txPrev hashBlock o,
    nd.getTransaction i.prevout.hash view = some (txPrev, hashBlock) →
      view.getOutputFor i = some o → txPrev.vout[i.prevout.n.toNat]? = some o

/-- **The flag of the loop.**  It ends up set if some input is of a cold-staking script, and from
then on the scripts are the kernel's; so if the kernel is not cold no input is. -/
theorem checkKernelScripts_eq_some {nd : StakeNode G} {view : CStateView G}
    {kernelScript : CScript} {fColdStaking b : Bool} {vin : List CTxIn}
    (hkernel : fColdStaking = kernelScript.isCold)
    (h : checkKernelScripts nd view kernelScript fColdStaking vin = some b) :
    b = kernelScript.isCold ∧
      ∀ i ∈ vin, ∃ txPrev hashBlock,
        nd.getTransaction i.prevout.hash view = some (txPrev, hashBlock) ∧
        (kernelScript.isCold = true ∨ (prevScript txPrev i.prevout).isCold = true →
          prevScript txPrev i.prevout = kernelScript) := by
  induction vin generalizing fColdStaking with
  | nil => exact ⟨(Option.some.inj h).symm.trans hkernel, by simp⟩
  | cons i vin ih =>
    unfold checkKernelScripts at h
    split at h
    · cases h
    · next txPrev hashBlock hget =>
      dsimp only at h
      split at h
      · cases h
      · next hsame =>
        have hscript : kernelScript.isCold = true ∨ (prevScript txPrev i.prevout).isCold = true →
            prevScript txPrev i.prevout = kernelScript := by
          intro hcold
          by_contra hne
          apply hsame
          rw [Bool.and_eq_true, Bool.or_eq_true, hkernel]
          exact ⟨hcold, bne_iff_ne.mpr hne⟩
        have hflag : (fColdStaking || (prevScript txPrev i.prevout).isCold) =
            kernelScript.isCold := by
          rw [hkernel]
          cases hk : kernelScript.isCold with
          | true => rfl
          | false =>
            -- a cold-staking script would have to be that of the kernel
            cases hi : (prevScript txPrev i.prevout).isCold with
            | false => rfl
            | true =>
              rw [hscript (.inr hi), hk] at hi
              cases hi
        obtain ⟨hb, hrest⟩ := ih hflag h
        refine ⟨hb, fun j hj => ?_⟩
        rcases List.mem_cons.mp hj with rfl | hmem
        · exact ⟨txPrev, hashBlock, hget, hscript⟩
        · exact hrest j hmem

/-! ## What is accepted -/

section Accepted

variable {nd : StakeNode G} {pvChecks fCheckSignature : Bool} {pindexPrev : CBlockIndex}
  {tx : CTransaction G} {nBits : UInt32} {view : CStateView G}

theorem StakeNode.ReadsOutputs.prevScript_eq (h : nd.ReadsOutputs view tx) {i : CTxIn}
    (hi : i ∈ tx.vin) {txPrev : CTransaction G} {hashBlock : Uint256} {o : CTxOut G}
    (hget : nd.getTransaction i.prevout.hash view = some (txPrev, hashBlock))
    (ho : view.getOutputFor i = some o) : prevScript txPrev i.prevout = o.scriptPubKey := by
  rw [prevScript, h i hi txPrev hashBlock o hget ho]
  rfl

variable [Zero G]

/-- The script of the output that an input spends. -/
def Spends (view : CStateView G) (i : CTxIn) (script : CScript) : Prop :=
  ∃ o, view.getOutputFor i = some o ∧ o.scriptPubKey = script

/-- What `CheckProofOfStake` has established for a coinstake that spends a cold-staking script. -/
theorem checkProofOfStake_cold
    (h : checkProofOfStake nd pvChecks fCheckSignature pindexPrev tx nBits view = true)
    (hpool : nd.isColdStakingPoolFeeEnabled pindexPrev = true) (hreads : nd.ReadsOutputs view tx)
    (hcold : ∃ i ∈ tx.vin, ∃ script, Spends view i script ∧ script.isCold = true) :
    ∃ kernel vin script, tx.vin = kernel :: vin ∧ script.isCold = true ∧
      (∀ i ∈ tx.vin, Spends view i script) ∧
      view.getValueIn tx ≤ valueUnder (fun _ => true) (tx.vout.drop 1) script := by
  unfold checkProofOfStake at h
  rw [Bool.and_eq_true] at h
  obtain ⟨hstake, h⟩ := h
  have hcoinbase : tx.isCoinBase = false := by
    by_contra hne
    rw [CTransaction.not_isCoinStake_of_isCoinBase (by simpa using hne)] at hstake
    cases hstake
  split at h
  · cases h
  · next kernel vin hvin =>
    split at h
    · cases h
    · next txPrev hashBlock hget =>
      dsimp only at h
      rw [hpool, if_pos rfl] at h
      split at h
      · cases h
      · next fColdStaking hloop =>
        obtain ⟨hflag, hinputs⟩ := checkKernelScripts_eq_some rfl hloop
        -- the input that is cold makes the kernel cold
        have hiscold : (prevScript txPrev kernel.prevout).isCold = true := by
          obtain ⟨i, hi, script, ⟨o, ho, hscript⟩, hc⟩ := hcold
          have hmem := hi
          rw [hvin] at hmem
          rcases List.mem_cons.mp hmem with rfl | hrest
          · rw [hreads.prevScript_eq hi hget ho, hscript]
            exact hc
          · obtain ⟨txPrev', hashBlock', hget', hsame⟩ := hinputs i hrest
            have hprev := hreads.prevScript_eq hi hget' ho
            have hc' : (prevScript txPrev' i.prevout).isCold = true := by
              rw [hprev, hscript]
              exact hc
            rw [← hsame (.inr hc')]
            exact hc'
        rw [hflag, hiscold] at h
        simp only [Bool.not_true, Bool.false_or, Bool.and_eq_true] at h
        obtain ⟨⟨houtputs, -⟩, -⟩ := h
        simp only [checkColdOutputs, if_true, Bool.and_eq_true, decide_eq_true_eq] at houtputs
        have hhave := (CStateView.haveInputs_iff hcoinbase).mp houtputs.1
        refine ⟨kernel, vin, _, hvin, hiscold, fun i hi => ?_, houtputs.2⟩
        obtain ⟨o, ho⟩ := hhave i hi
        refine ⟨o, ho, ?_⟩
        have hmem := hi
        rw [hvin] at hmem
        rcases List.mem_cons.mp hmem with rfl | hrest
        · exact (hreads.prevScript_eq hi hget ho).symm
        · obtain ⟨txPrev', hashBlock', hget', hsame⟩ := hinputs i hrest
          rw [← hreads.prevScript_eq hi hget' ho]
          exact hsame (.inl hiscold)

end Accepted

/-! ## Who can spend the outputs -/

/-- An output of native coins that its script alone decides on. -/
def CTxOut.isPlain (o : CTxOut G) : Bool :=
  o.spendingKey.isEmpty && o.tokenId == {} && !o.hasRangeProof

theorem valueUnder_split (p : CTxOut G → Bool) (vout : List (CTxOut G)) (script : CScript) :
    valueUnder (fun _ => true) vout script =
      valueUnder p vout script + valueUnder (fun o => !p o) vout script := by
  unfold valueUnder
  induction vout with
  | nil => rfl
  | cons o vout ih =>
    cases hs : o.scriptPubKey == script <;> cases hp : p o <;>
      simp only [List.filter_cons, hs, hp, Bool.and_true, Bool.and_false, Bool.not_true,
        Bool.not_false, Bool.false_eq_true, if_true, if_false, List.map_cons, List.sum_cons]
        at ih ⊢ <;>
      omega

/-- The first output of a coinstake is empty, so it has no cold-staking script. -/
theorem valueUnder_drop_one {tx : CTransaction G} (h : tx.isCoinStake = true) {script : CScript}
    (hcold : script.isCold = true) (p : CTxOut G → Bool) :
    valueUnder p (tx.vout.drop 1) script = valueUnder p tx.vout script := by
  unfold CTransaction.isCoinStake at h
  split at h
  · next i vin o o' vout hvin hvout =>
    have hempty : o.scriptPubKey = [] := by
      simp only [CTxOut.isEmpty, Bool.and_eq_true, List.isEmpty_iff] at h
      exact h.2.1.1.1.1.1.2
    have hne : (o.scriptPubKey == script) = false := by
      rw [hempty, beq_eq_false_iff_ne]
      rintro rfl
      cases hcold
    rw [hvout]
    simp [valueUnder, hne]
  · cases h

/-- The inputs of the transaction are of one script, and its plain outputs with that script have at
least their value. -/
structure OwnerKeeps (view : CStateView G) (tx : CTransaction G) (script : CScript) : Prop where
  inputs : ∀ i ∈ tx.vin, Spends view i script
  value : view.getValueIn tx ≤ valueUnder CTxOut.isPlain tx.vout script

namespace StakedCoins

def coldScript : CScript := [opCoinstake, opIf, 1]

/-- The transaction with the coins that are staked. -/
def txPrev : CTransaction (ZMod groupOrder) :=
  { vin := [{ prevout := ⟨7, 0⟩ }], vout := [{ nValue := 10, scriptPubKey := coldScript }] }

def crypto : Crypto (ZMod groupOrder) := (fixedBls true).toCrypto

def nd : StakeNode (ZMod groupOrder) where
  toCrypto := crypto
  getTransaction hash _ := if hash = txPrev.getHash crypto then some (txPrev, 1) else none
  isColdStakingPoolFeeEnabled _ := true
  mapBlockIndex _ := some (fixedIndex 1)
  verifyScript _ _ _ := true
  checkStakeKernelHash _ _ _ _ _ _ := true

def view : CStateView (ZMod groupOrder) :=
  ({} : CStateView (ZMod groupOrder)).setCoins (txPrev.getHash crypto) (CCoins.fromTx txPrev 1)

def staked : CTxIn := { prevout := ⟨txPrev.getHash crypto, 0⟩ }

/-- A coinstake that puts the coins and a reward into one output. -/
def stakeWith (out : CTxOut (ZMod groupOrder)) : CTransaction (ZMod groupOrder) :=
  { vin := [staked]
    vout := [{ nValue := 0 }, { out with nValue := 12, scriptPubKey := coldScript }] }

theorem spends_staked : Spends view staked coldScript :=
  ⟨{ nValue := 10, scriptPubKey := coldScript }, by decide +kernel, rfl⟩

theorem readsOutputs (out : CTxOut (ZMod groupOrder)) : nd.ReadsOutputs view (stakeWith out) := by
  intro i hi prev hashBlock o hget ho
  obtain rfl : i = staked := List.mem_singleton.mp hi
  have hprev : nd.getTransaction staked.prevout.hash view = some (txPrev, 1) := by
    decide +kernel
  have hout : view.getOutputFor staked = some { nValue := 10, scriptPubKey := coldScript } := by
    decide +kernel
  rw [hprev] at hget
  rw [hout] at ho
  cases hget
  cases ho
  rfl

end StakedCoins

end Navcoin
