import Navcoin.Validation.CheckTxInputs

/-!
# What a transparent transaction conserves

`CheckTxInputs` compares the total value of the inputs with the total value of the outputs,
whatever assets they are amounts of.  So a transparent transaction conserves every asset when
only one asset occurs in it, and for any other mix of assets there is an accepted transaction
that creates one asset from another.
-/

namespace Navcoin

variable {G : Type}

/-- The public amount of asset `t` in a list of outputs. -/
def assetValue (l : List (CTxOut G)) (t : TokenId) : Int :=
  AssetFlow.net (l.map fun o => (o.tokenId, o.nValue)) t

/-! ## Public outputs of one unit -/

/-- An output without keys. -/
def publicOutput (nValue : Int) (t : TokenId) : CTxOut G :=
  { nValue := nValue, scriptPubKey := [op1], tokenId := t }

/-- Public outputs of the given assets, with one unit in the marked one. -/
def oneUnit (before : List TokenId) (t : TokenId) (after : List TokenId) : List (CTxOut G) :=
  before.map (publicOutput 0) ++ publicOutput 1 t :: after.map (publicOutput 0)

variable {before after : List TokenId} {t : TokenId}

theorem mem_oneUnit {o : CTxOut G} (h : o ∈ oneUnit before t after) :
    ∃ v t', o = publicOutput v t' ∧ 0 ≤ v ∧ v ≤ 1 := by
  simp only [oneUnit, List.mem_append, List.mem_map, List.mem_cons] at h
  rcases h with ⟨t', _, rfl⟩ | rfl | ⟨t', _, rfl⟩
  · exact ⟨0, t', rfl, le_refl 0, by decide⟩
  · exact ⟨1, t, rfl, by decide, le_refl 1⟩
  · exact ⟨0, t', rfl, le_refl 0, by decide⟩

@[simp] theorem tokenId_oneUnit :
    (oneUnit before t after : List (CTxOut G)).map CTxOut.tokenId = before ++ t :: after := by
  simp [oneUnit, publicOutput, Function.comp_def]

@[simp] theorem nValue_oneUnit :
    ((oneUnit before t after : List (CTxOut G)).map CTxOut.nValue).sum = 1 := by
  simp [oneUnit, publicOutput, Function.comp_def]

@[simp] theorem length_oneUnit :
    (oneUnit before t after : List (CTxOut G)).length = (before ++ t :: after).length := by
  simp [oneUnit]

theorem assetValue_oneUnit (i : TokenId) :
    assetValue (oneUnit before t after : List (CTxOut G)) i = if t = i then 1 else 0 := by
  have hzero : ∀ l : List TokenId,
      AssetFlow.net (l.map fun x => (x, (0 : Int))) i = 0 := by
    intro l
    induction l with
    | nil => rfl
    | cons x l ih => simpa using ih
  simp [assetValue, oneUnit, publicOutput, Function.comp_def, hzero]

/-! ## A transaction for every mix of assets -/

/-- Inputs that spend the first outputs of `coinView`. -/
def coinInputs (n : Nat) : List CTxIn := (List.range n).map fun k => coinInput (UInt32.ofNat k)

/-- Spends the first outputs of `coinView` and creates `vout`. -/
def publicTx (n : Nat) (vout : List (CTxOut G)) : CTransaction G :=
  { nVersion := 1, vin := coinInputs n, vout := vout }

theorem publicTx_flags (n : Nat) (vout : List (CTxOut G)) :
    (publicTx n vout).isBLSCT = false ∧ (publicTx n vout).isBLSInput = false := by
  simp [CTransaction.isBLSCT, CTransaction.isCTOutput, CTransaction.isBLSInput, publicTx,
    txBlsInputFlag, txBlsCtFlag]

theorem coinInputs_spend {l : List (CTxOut G)} (hlen : l.length < 2 ^ 32)
    (hl : ∀ o ∈ l, o.isBLSCT = false ∧ 0 ≤ o.nValue) :
    List.Forall₂ (SpendsPublic (coinView l)) (coinInputs l.length) l := by
  rw [List.forall₂_iff_get]
  refine ⟨by simp [coinInputs], ?_⟩
  intro k hk hk'
  have hindex : (UInt32.ofNat k).toNat = k := by
    simp only [UInt32.toNat_ofNat']
    omega
  refine ⟨{ vout := l }, ?_, ?_, ⟨rfl, rfl⟩, hl _ (List.get_mem l _)⟩
  · simp [coinInputs, coinInput, coinView]
  · simp [coinInputs, coinInput, hindex]

theorem nodup_coinInputs {n : Nat} (hn : n < 2 ^ 32) :
    ((coinInputs n).map CTxIn.prevout).Nodup := by
  rw [coinInputs, List.map_map]
  refine List.Nodup.map_on ?_ List.nodup_range
  intro a ha b hb hab
  have ha' := List.mem_range.mp ha
  have hb' := List.mem_range.mp hb
  have heq : (UInt32.ofNat a).toNat = (UInt32.ofNat b).toNat := by
    simp only [Function.comp_apply, coinInput, COutPoint.mk.injEq, true_and] at hab
    rw [hab]
  simp only [UInt32.toNat_ofNat'] at heq
  omega

theorem length_writeCompactSize_le (n : Nat) : (writeCompactSize n).length ≤ 9 := by
  unfold writeCompactSize
  split_ifs <;> simp

theorem length_serialize_publicOutput [Zero G] (c : Crypto G) (v : Int) (t : TokenId) :
    ((publicOutput v t).serialize c).length ≤ 58 := by
  have hscript : (writeVector [op1]).length = 2 := by decide
  simp only [CTxOut.serialize, publicOutput, CTxOut.isBLSCT, CTxOut.hasRangeProof,
    List.length_append, hscript, List.isEmpty_nil, if_true, Bool.not_true, Bool.or_self,
    Bool.false_eq_true, if_false, List.append_nil]
  split
  · by_cases hv : 0 < v <;> by_cases ht : t.token = 0#256 <;>
      by_cases hs : t.subid = 0xffffffffffffffff <;>
      simp [hv, ht, hs, writeAmount, writeUint256, writeUint64]
  · simp [writeAmount]

theorem length_serialize_coinInput (n : UInt32) : (coinInput n).serialize.length = 41 := by
  have hscript : (writeVector []).length = 1 := by decide
  simp [CTxIn.serialize, COutPoint.serialize, coinInput, hscript, writeUint256]

theorem length_flatMap_le {α : Type} (f : α → Bytes) (b : Nat) :
    ∀ l : List α, (∀ a ∈ l, (f a).length ≤ b) → (l.flatMap f).length ≤ b * l.length := by
  intro l
  induction l with
  | nil => simp
  | cons a l ih =>
    intro h
    obtain ⟨ha, hl⟩ := List.forall_mem_cons.mp h
    have hrest := ih hl
    rw [List.flatMap_cons, List.length_append, List.length_cons, Nat.mul_succ]
    omega

theorem length_serialize_publicTx [Zero G] (c : Crypto G) (n : Nat) {vout : List (CTxOut G)}
    (h : ∀ o ∈ vout, ∃ v t, o = publicOutput v t) :
    ((publicTx n vout).serialize c).length ≤ 41 * n + 58 * vout.length + 30 := by
  have hvin : ((coinInputs n).flatMap CTxIn.serialize).length ≤ 41 * n := by
    have hle := length_flatMap_le CTxIn.serialize 41 (coinInputs n) (by
      intro i hi
      obtain ⟨k, _, rfl⟩ := List.mem_map.mp hi
      exact (length_serialize_coinInput _).le)
    simpa [coinInputs] using hle
  have hvout : (vout.flatMap (CTxOut.serialize c)).length ≤ 58 * vout.length := by
    refine length_flatMap_le _ 58 vout ?_
    intro o ho
    obtain ⟨v, t, rfl⟩ := h o ho
    exact length_serialize_publicOutput c v t
  have hn := length_writeCompactSize_le (coinInputs n).length
  have hm := length_writeCompactSize_le vout.length
  have hold : ¬ (2 : Int) ≤ (publicTx n vout).nVersion.toInt := by
    simp [publicTx]
  obtain ⟨hflag, hinput⟩ := publicTx_flags n vout
  simp only [CTransaction.serialize, List.length_append, length_toLE, if_neg hold, hflag, hinput,
    Bool.false_eq_true, if_false, List.length_nil]
  simp only [publicTx]
  omega

theorem assetValue_of_single {l : List (CTxOut G)} {x : TokenId}
    (h : ∀ t ∈ l.map CTxOut.tokenId, t = x) (t : TokenId) :
    assetValue l t = if x = t then (l.map CTxOut.nValue).sum else 0 := by
  have hassets : ∀ f ∈ l.map fun o => (o.tokenId, o.nValue), f.1 = x := by
    intro f hf
    obtain ⟨o, ho, rfl⟩ := List.mem_map.mp hf
    exact h _ (List.mem_map_of_mem ho)
  rw [assetValue, AssetFlow.net_of_single hassets, List.map_map]
  rfl

variable [G1Group G] [DecidableEq G]

/-- One unit of `x` goes in and one unit of `y` comes out. -/
theorem publicTx_accepted (nd : Node G) (nSpendHeight : Int) (fXNavSer : Bool)
    (allowedInPrivate : Int) {before after before' after' : List TokenId} (x y : TokenId)
    (hsize : 41 * (before ++ x :: after).length + 58 * (before' ++ y :: after').length ≤ 1999900) :
    let spent : List (CTxOut G) := oneUnit before x after
    let tx := publicTx spent.length (oneUnit before' y after')
    (tx.isBLSCT = false ∧ tx.isCoinBase = false ∧ tx.isCoinStake = false) ∧
      checkTransaction nd tx = .ok () ∧
      (checkTxInputs nd tx (coinView spent) nSpendHeight fXNavSer allowedInPrivate).result =
        .ok () ∧
      spentOutputs (coinView spent) tx = spent := by
  intro spent tx
  have hspentOk : ∀ o ∈ spent, o.isBLSCT = false ∧ 0 ≤ o.nValue := by
    intro o ho
    obtain ⟨v, t, rfl, hv, _⟩ := mem_oneUnit ho
    exact ⟨rfl, hv⟩
  have hlen : spent.length = (before ++ x :: after).length := length_oneUnit
  have hshort : spent.length < 2 ^ 32 := by omega
  have hspends := coinInputs_spend hshort hspentOk
  obtain ⟨hflag, hinput⟩ := publicTx_flags spent.length (oneUnit before' y after' : List (CTxOut G))
  have houtput : tx.isCTOutput = false := by
    have h := hflag
    rw [CTransaction.isBLSCT, Bool.or_eq_false_iff] at h
    exact h.1
  have hvout : ∀ o ∈ tx.vout, ∃ v t, o = publicOutput v t ∧ 0 ≤ v ∧ v ≤ 1 := fun o ho =>
    mem_oneUnit ho
  have hprevouts : ∀ i ∈ tx.vin, i.prevout.isNull = false := by
    intro i hi
    obtain ⟨k, _, rfl⟩ := List.mem_map.mp hi
    rfl
  have hcb : tx.isCoinBase = false := by
    unfold CTransaction.isCoinBase
    split
    · next i hi => exact hprevouts i (by simp [hi])
    · rfl
  have hcs : tx.isCoinStake = false := by
    unfold CTransaction.isCoinStake
    split
    · next i rest o o' rest' _ ho =>
      obtain ⟨v, t, rfl, _⟩ := hvout o (by simp [ho])
      simp [CTxOut.isEmpty, publicOutput]
    · rfl
  have houtputs : ∀ o ∈ tx.vout, OutputOk tx o := by
    intro o ho
    obtain ⟨v, t, rfl, hv0, hv1⟩ := hvout o ho
    have hmax : (1 : Int) ≤ maxMoney := by decide
    exact ⟨by simp [CTxOut.isEmpty, publicOutput], ⟨hv0, hv1.trans hmax⟩, by simp [publicOutput]⟩
  have hok : TxOk nd tx := by
    constructor
    case vin =>
      intro h
      have hzero := congrArg List.length h
      simp [tx, publicTx, coinInputs, spent] at hzero
    case vout => simp [tx, publicTx, oneUnit]
    case size =>
      have hle : (tx.serialize nd.toCrypto).length ≤ 41 * spent.length + 58 * tx.vout.length + 30 :=
        length_serialize_publicTx nd.toCrypto spent.length fun o ho => by
          obtain ⟨v, t, h, _⟩ := hvout o ho
          exact ⟨v, t, h⟩
      have hlen' : tx.vout.length = (before' ++ y :: after').length := length_oneUnit
      simp only [maxBlockBaseSize]
      omega
    case balanceSig => rw [houtput]; rfl
    case txSig => rw [hinput]; rfl
    case ctOfInput =>
      intro h
      exact absurd h (by rw [hinput]; decide)
    case proofs =>
      intro h
      obtain ⟨o, ho, hproof⟩ := List.any_eq_true.mp h
      obtain ⟨v, t, rfl, _⟩ := hvout o ho
      simp [CTxOut.hasRangeProof, publicOutput] at hproof
    case coinBase => exact fun _ => hflag
    case outputs => exact houtputs
    case total =>
      simp only [tx, publicTx, nValue_oneUnit]
      decide
    case fresh => exact nodup_coinInputs hshort
    case prevouts =>
      rw [checkPrevouts, if_neg (by simp [hcb]), Except.forM_eq_ok_iff]
      intro i hi
      simp [hprevouts i hi]
  refine ⟨⟨hflag, hcb, hcs⟩, ?_, ?_, spentOutputs_of_public hspends⟩
  · refine checkTransaction_of_txOk hok ?_
    intro o ho
    obtain ⟨v, t, rfl, _⟩ := hvout o ho
    rfl
  · refine checkTxInputs_of_public hflag houtputs hspends ?_ ?_
    · rw [nValue_oneUnit]
      decide
    · exact (nValue_oneUnit.trans nValue_oneUnit.symm).le

/-! ## Conservation -/

/-- **Which mixes of assets are conserved.**  For the assets `ins` of the spent outputs and the
assets `outs` of the outputs, every accepted transparent transaction conserves each asset
exactly when the spent outputs and the outputs are all of one asset.  The size condition leaves
room for one input and one output per entry. -/
theorem conserves_assets_iff (nd : Node G) (ins outs : List TokenId)
    (hsize : 41 * ins.length + 58 * outs.length ≤ 1999900) :
    (∀ (tx : CTransaction G) (view : CStateView G) (nSpendHeight : Int) (fXNavSer : Bool)
        (allowedInPrivate : Int),
      (tx.isBLSCT = false ∧ tx.isCoinBase = false ∧ tx.isCoinStake = false) →
      checkTransaction nd tx = .ok () →
      (checkTxInputs nd tx view nSpendHeight fXNavSer allowedInPrivate).result = .ok () →
      (spentOutputs view tx).map CTxOut.tokenId = ins → tx.vout.map CTxOut.tokenId = outs →
      ∀ t, assetValue tx.vout t ≤ assetValue (spentOutputs view tx) t) ↔
    ∀ x ∈ ins, ∀ y ∈ outs, x = y := by
  constructor
  · intro hconserves x hx y hy
    obtain ⟨before, after, rfl⟩ := List.append_of_mem hx
    obtain ⟨before', after', rfl⟩ := List.append_of_mem hy
    obtain ⟨hkind, htx, hin, hspent⟩ := publicTx_accepted nd 0 true 0 x y hsize
    have hle := hconserves _ _ 0 true 0 hkind htx hin (by rw [hspent, tokenId_oneUnit])
      tokenId_oneUnit y
    rw [hspent, publicTx, assetValue_oneUnit, assetValue_oneUnit, if_pos rfl] at hle
    by_contra hne
    rw [if_neg hne] at hle
    exact absurd hle (by decide)
  · rintro hsame tx view nSpendHeight fXNavSer allowedInPrivate ⟨hflag, hcb, hcs⟩ htx hin
      rfl rfl t
    have hle := (checkTxInputs_ok hin).2.1 hflag hcb hcs
    -- both lists are non-empty, so one asset is the asset of all
    obtain ⟨o, ho⟩ := List.exists_mem_of_ne_nil _ (checkTransaction_ok htx).vout
    obtain ⟨i, hi⟩ := List.exists_mem_of_ne_nil _ (checkTransaction_ok htx).vin
    obtain ⟨spent, hspent, _⟩ := (checkTxInputs_ok hin).1 i hi
    have hmem : spent ∈ spentOutputs view tx := List.mem_filterMap.mpr ⟨i, hi, hspent⟩
    have hins : ∀ x ∈ (spentOutputs view tx).map CTxOut.tokenId, x = o.tokenId := fun x hx =>
      hsame x hx _ (List.mem_map_of_mem ho)
    have houts : ∀ y ∈ tx.vout.map CTxOut.tokenId, y = o.tokenId := fun y hy =>
      (hsame _ (List.mem_map_of_mem hmem) y hy).symm.trans (hins _ (List.mem_map_of_mem hmem))
    rw [assetValue_of_single houts, assetValue_of_single hins]
    split
    · exact hle
    · exact le_refl 0

/-- One native output is spent and one created. -/
theorem conserves_assets_native :
    let tx : CTransaction (ZMod groupOrder) := publicTx 1 [publicOutput 2 {}]
    assetValue tx.vout {} ≤ assetValue (spentOutputs (coinView [publicOutput 3 {}]) tx) {} :=
  (conserves_assets_iff (fixedNode true) [{}] [{}] (by decide)).mpr (by decide) _ _ 10 true 0
    (by decide) (by decide +kernel) (by decide +kernel) (by decide +kernel) (by decide) {}

/-- A unit of a token becomes a unit of the native coin. -/
theorem conserves_assets_token_to_native :
    let tx : CTransaction (ZMod groupOrder) := publicTx 1 [publicOutput 1 {}]
    let view := coinView [publicOutput 1 { token := 7 }]
    (tx.isBLSCT = false ∧ tx.isCoinBase = false ∧ tx.isCoinStake = false) ∧
      checkTransaction (fixedNode true) tx = .ok () ∧
      (checkTxInputs (fixedNode true) tx view 10 true 0).result = .ok () ∧
      assetValue (spentOutputs view tx) {} < assetValue tx.vout {} := by
  decide +kernel

end Navcoin
