import Navcoin.Undo.Database
import Navcoin.Validation.UndoneCoins

/-!
# Coins that are alike

Entries of the coins that agree in their outputs, height and coinbase flag, but not necessarily in
their coinstake flag and version.  Connecting a block, taking it back and a flush to the database
respect this relation, and so does `CheckTxInputs` where the coinstake flag does not matter.

* `entryAlike_apply`, `entryAlike_revert`: events on entries that are alike;
* `entryAlike_reload`, `entryAlike_restored`: an entry after a flush and after its block was taken
  back;
* `checkTxInputs_congr`: `CheckTxInputs` on coins that are alike.
-/

namespace Navcoin

variable {G : Type}

abbrev CoinMap (G : Type) := Uint256 → Option (CCoins G)

/-! ## Entries -/

section Entries

theorem CCoins.Tidy.empty : ({} : CCoins G).Tidy := ⟨rfl, by simp⟩

variable [Zero G] [DecidableEq G]

/-- Both entries are missing or without outputs, or they are alike. -/
structure EntryAlike (x y : Option (CCoins G)) : Prop where
  left : ∀ a, x = some a → a.Tidy
  right : ∀ b, y = some b → b.Tidy
  live : Option.Rel CCoins.Alike (liveEntry x) (liveEntry y)

variable {x y z : Option (CCoins G)} {a b : CCoins G}

theorem EntryAlike.symm (h : EntryAlike x y) : EntryAlike y x := by
  obtain ⟨hleft, hright, hlive⟩ := h
  refine ⟨hright, hleft, ?_⟩
  generalize liveEntry x = u, liveEntry y = v at hlive ⊢
  cases hlive with
  | some hab => exact .some hab.symm
  | none => exact .none

theorem EntryAlike.trans (h : EntryAlike x y) (h' : EntryAlike y z) : EntryAlike x z := by
  obtain ⟨hleft, _, hlive⟩ := h
  obtain ⟨_, hright, hlive'⟩ := h'
  refine ⟨hleft, hright, ?_⟩
  generalize liveEntry x = u, liveEntry y = v, liveEntry z = w at hlive hlive' ⊢
  cases hlive with
  | none =>
    cases hlive'
    exact .none
  | some hab =>
    cases hlive' with
    | some hbd => exact .some (hab.trans hbd)

theorem EntryAlike.refl (h : ∀ a, x = some a → a.Tidy) : EntryAlike x x := by
  refine ⟨h, h, ?_⟩
  cases liveEntry x with
  | none => exact .none
  | some a => exact .some (.refl a)

theorem EntryAlike.of_alike (ha : a.Tidy) (hb : b.Tidy) (h : a.Alike b) :
    EntryAlike (some a) (some b) := by
  refine ⟨fun _ hsome => ?_, fun _ hsome => ?_, ?_⟩
  · cases hsome
    exact ha
  · cases hsome
    exact hb
  · rw [liveEntry_some, liveEntry_some, h.isPruned]
    split
    · exact .none
    · exact .some h

theorem EntryAlike.of_dead (hx : ∀ a, x = some a → a.Tidy) (hy : ∀ b, y = some b → b.Tidy)
    (hdead : liveEntry x = none) (hdead' : liveEntry y = none) : EntryAlike x y :=
  ⟨hx, hy, by rw [hdead, hdead']; exact .none⟩

omit [Zero G] [DecidableEq G] in
theorem liveEntry_eq_some : liveEntry x = some a ↔ x = some a ∧ a.isPruned = false := by
  simp [liveEntry, Option.filter_eq_some_iff]

/-- An entry with an unspent output has one that is alike. -/
theorem EntryAlike.exists_of_live (h : EntryAlike (some a) y) (hlive : a.isPruned = false) :
    ∃ b, y = some b ∧ a.Alike b ∧ b.Tidy ∧ b.isPruned = false := by
  have hrel := h.live
  rw [liveEntry_eq_some.mpr ⟨rfl, hlive⟩] at hrel
  cases hy : liveEntry y with
  | none =>
    rw [hy] at hrel
    cases hrel
  | some b =>
    rw [hy] at hrel
    cases hrel with
    | some hab =>
    obtain ⟨hsome, hb⟩ := liveEntry_eq_some.mp hy
    exact ⟨b, hsome, hab, h.right b hsome, hb⟩

/-! ### Events -/

variable {c : Crypto G} {nHeight : Int}

theorem CCoins.Alike.spend (h : a.Alike b) (ha : a.Tidy) (hb : b.Tidy) (n : UInt32) :
    (a.spend n).Alike (b.spend n) := by
  refine ⟨h.fCoinBase, h.nHeight, fun i => ?_⟩
  rw [ha.out_spend, hb.out_spend]
  split
  · exact CTxOut.eq_self _
  · exact h.out i

theorem CCoins.Alike.applyUndo {u : CTxInUndo G} (h : (a.restart u).Alike (b.restart u))
    (ha : a.Tidy) (hb : b.Tidy) (hout : u.txout.isNull = false) (n : UInt32) :
    (a.applyUndo u n).1.Alike (b.applyUndo u n).1 := by
  refine ⟨h.fCoinBase, h.nHeight, fun i => ?_⟩
  rw [ha.out_applyUndo hout, hb.out_applyUndo hout]
  split
  · exact CTxOut.eq_self _
  · exact h.out i

/-- **An event on entries that are alike.** -/
theorem entryAlike_apply {e : CoinEvent G}
    (htidy : ∀ tx, e = .create tx → (CCoins.fromTx tx nHeight).Tidy)
    (x y d : Option (CCoins G)) (u : CTxInUndo G) (h : EntryAlike x y)
    (happly : (coinJournal c nHeight).apply e x = some (d, u)) :
    ∃ d' u', (coinJournal c nHeight).apply e y = some (d', u') ∧ EntryAlike d d' := by
  cases e with
  | spend o =>
    obtain ⟨a, rfl, havail, hnull, rfl, rfl⟩ := spend_eq_some happly
    obtain ⟨b, rfl, hab, hb, _⟩ := h.exists_of_live (CCoins.isPruned_of_out hnull)
    have ha := h.left a rfl
    rw [hab.isAvailable] at havail
    refine ⟨some (b.spend o.n), b.undoOf o.n, if_pos havail, ?_⟩
    exact .of_alike (ha.spend o.n) (hb.spend o.n) (hab.spend ha hb o.n)
  | create tx =>
    cases happly
    refine ⟨some (CCoins.fromTx tx nHeight), {}, rfl, .refl fun a ha => ?_⟩
    cases ha
    exact htidy tx rfl

/-- **Taking an event back** from entries that are alike, where the second is as expected. -/
theorem entryAlike_revert (j : CoinEvent G × CTxInUndo G) (x y : Option (CCoins G))
    (hout : ∀ o, j.1 = .spend o → j.2.txout.isNull = false) (h : EntryAlike x y)
    (hclean : ((coinJournal c nHeight).revert j.1 j.2 y).2 = true) :
    EntryAlike ((coinJournal c nHeight).revert j.1 j.2 x).1
      ((coinJournal c nHeight).revert j.1 j.2 y).1 := by
  obtain ⟨e, u⟩ := j
  cases e with
  | create tx =>
    refine .refl fun a ha => ?_
    cases ha
    exact .empty
  | spend o =>
    have hnull : u.txout.isNull = false := hout o rfl
    have hrevert : ∀ x : Option (CCoins G), (coinJournal c nHeight).revert (.spend o) u x =
        (some ((x.getD {}).applyUndo u o.n).1, ((x.getD {}).applyUndo u o.n).2) := fun _ => rfl
    have htidy : ∀ {x : Option (CCoins G)}, (∀ a, x = some a → a.Tidy) → (x.getD {}).Tidy := by
      intro x hx
      cases x with
      | none => exact .empty
      | some a => exact hx a rfl
    have ha := htidy h.left
    have hb := htidy h.right
    simp only [hrevert] at hclean ⊢
    refine .of_alike (ha.applyUndo hnull o.n) (hb.applyUndo hnull o.n)
      (CCoins.Alike.applyUndo ?_ ha hb hnull o.n)
    unfold CCoins.restart
    split
    · next hzero =>
      -- without a height the entry has to be there
      simp only [CCoins.applyUndo, hzero, if_true, Bool.and_eq_true, Bool.not_eq_true'] at hclean
      cases y with
      | none => exact absurd hclean.1 (by simp [CCoins.isPruned])
      | some b =>
        obtain ⟨a, rfl, hab, _⟩ := h.symm.exists_of_live hclean.1
        exact hab.symm
    · exact .refl _

/-! ### The database -/

/-- What holds of the entries of a node, in memory and in the database. -/
structure CCoins.Stored (c : Crypto G) (k : PubKeys) (coins : CCoins G) : Prop
  extends CCoins.Kept coins, CCoins.Storable c k coins

variable {k : PubKeys}

theorem CCoins.Stored.of_alike (h : b.Stored c k) (hab : a.Alike b) (ha : a.Tidy) :
    a.Stored c k := by
  have hcompared := fun i => CTxOut.eq_iff_compared.mp (hab.out i)
  simp only [CTxOut.compared, Prod.mk.injEq] at hcompared
  refine ⟨⟨ha, fun i hi => ?_, fun i => ?_, fun hlive => ?_⟩, fun i hi => ?_, ?_⟩
  · rw [(hcompared i).1]
    rw [hab.isNull] at hi
    exact h.inRange i hi
  · rw [(hcompared i).2.1]
    exact h.script i
  · rw [hab.isPruned] at hlive
    rw [hab.nHeight]
    exact h.nHeight hlive
  · rw [hab.isNull] at hi
    exact CTxOutCompressor.survives_congr (hab.out i) (h.survives i hi)
  · rw [(hab.forall₂ ha h.tidy).length_eq]
    exact h.length

theorem CCoins.Stored.spend (h : a.Stored c k) (n : UInt32) : (a.spend n).Stored c k := by
  have hout : ∀ i, (a.spend n).out i = {} ∨ (a.spend n).out i = a.out i := by
    intro i
    rw [h.tidy.out_spend]
    split
    · exact .inl rfl
    · exact .inr rfl
  have hholes : ∀ i, (a.out i).isNull = true → ((a.spend n).out i).isNull = true := by
    intro i hi
    rcases hout i with hhole | hsame
    · rw [hhole]
      rfl
    · rw [hsame, hi]
  have hlive : (a.spend n).isPruned = false → a.isPruned = false := by
    intro hlive
    by_contra hpruned
    have hnull := CCoins.isPruned_iff.mp (by simpa using hpruned)
    rw [CCoins.isPruned_iff.mpr fun i => hholes i (hnull i)] at hlive
    cases hlive
  refine ⟨⟨h.tidy.spend n, fun i hi => ?_, fun i => ?_, fun hl => h.nHeight (hlive hl)⟩,
    fun i hi => ?_, ?_⟩
  · rcases hout i with hhole | hsame
    · rw [hhole] at hi
      cases hi
    · rw [hsame] at hi ⊢
      exact h.inRange i hi
  · rcases hout i with hhole | hsame
    · rw [hhole]
      exact Nat.zero_le _
    · rw [hsame]
      exact h.script i
  · rcases hout i with hhole | hsame
    · rw [hhole] at hi
      cases hi
    · rw [hsame] at hi ⊢
      exact h.survives i hi
  · have hle := SparseVector.length_le rfl (h.tidy.spend n).trimmed hholes
    exact hle.trans h.length

/-- `BatchWrite`, then `GetCoins`: entries without outputs are erased, and one that is not read
back counts as missing. -/
def reloadEntry (c : Crypto G) (k : PubKeys) (x : Option (CCoins G)) : Option (CCoins G) :=
  (liveEntry x).bind fun coins =>
    ((CCoins.unserialize c k).run (coins.serialize c k)).toOption.map Prod.fst

/-- **An entry after a flush.** -/
theorem entryAlike_reload (h : ∀ a, x = some a → a.Stored c k) :
    EntryAlike (reloadEntry c k x) x ∧
      ∀ a, reloadEntry c k x = some a → a.fCoinStake = false := by
  have hx : ∀ a, x = some a → a.Tidy := fun a ha => (h a ha).tidy
  cases hlive : liveEntry x with
  | none =>
    have hnone : reloadEntry c k x = none := by rw [reloadEntry, hlive, Option.bind_none]
    rw [hnone]
    exact ⟨.of_dead (by simp) hx rfl hlive, by simp⟩
  | some a =>
    obtain ⟨rfl, ha⟩ := liveEntry_eq_some.mp hlive
    obtain ⟨a', hread, htidy, halike, hstake⟩ := (h a rfl).toStorable.exists_roundTrip ha
    have hrun := hread []
    rw [List.append_nil] at hrun
    have hsome : reloadEntry c k (some a) = some a' := by
      rw [reloadEntry, hlive, Option.bind_some, hrun]
      rfl
    rw [hsome]
    refine ⟨.of_alike htidy (hx a rfl) halike, fun b hb => ?_⟩
    cases hb
    exact hstake

/-- **An entry after its block was taken back.** -/
theorem entryAlike_restored {view : CStateView G} {m : CoinMap G} {txid : Uint256}
    {js js' : List (CoinEvent G × CTxInUndo G)} (hview : ∀ a, view.coins txid = some a → a.Tidy)
    (h : EntryRun c nHeight view m txid js) (hjs : List.Forall₂ EventBack js js') :
    EntryAlike ((coinJournal c nHeight).backAt (m txid) js').1 (view.coins txid) := by
  cases h with
  | missing hnone hm hnil =>
    subst hnil
    cases hjs
    rw [hm, hnone]
    refine .refl fun a ha => ?_
    cases ha
  | spent coins coins' outs hsome hm hkept hrun hspent =>
    obtain ⟨back, hback, hput⟩ := backAt_spends hkept.tidy hkept.nHeight hrun hjs
    rw [hm, hback, hsome]
    exact .of_alike hput.tidy hkept.tidy ⟨hput.fCoinBase, hput.nHeight, hput.out⟩
  | created tx coins' outs js₁ hdead hm hkept hcons hrun hspent =>
    subst hcons
    cases hjs with
    | cons hhead htail =>
    rw [Journal.backAt, hhead.1]
    refine .of_dead (fun a ha => ?_) hview rfl hdead
    cases ha
    exact .empty

theorem EntryAlike.stored (h : EntryAlike x y) (hy : ∀ b, y = some b → b.Stored c k) :
    ∀ a, x = some a → a.Stored c k := by
  rintro a rfl
  have ha := h.left a rfl
  cases hlive : a.isPruned with
  | false =>
    obtain ⟨b, hb, hab, _⟩ := h.exists_of_live hlive
    exact (hy b hb).of_alike hab ha
  | true =>
    have hnull := CCoins.isPruned_iff.mp hlive
    have hhole : ∀ i, a.out i = {} := fun i => ha.out_eq (hnull i)
    refine ⟨⟨ha, fun i hi => ?_, fun i => ?_, fun hl => ?_⟩, fun i hi => ?_, ?_⟩
    · rw [hnull i] at hi
      cases hi
    · rw [hhole i]
      exact Nat.zero_le _
    · rw [hlive] at hl
      cases hl
    · rw [hnull i] at hi
      cases hi
    · rw [ha.isPruned_iff.mp hlive]
      exact Nat.zero_le _

end Entries

/-! ## `CheckTxInputs` -/

variable {tx : CTransaction G}

section Verdict

/-- What `CheckTxInputs` reads of two entries is the same. -/
structure SameVerdict [Zero G] [DecidableEq G] (nd : Node G) (nSpendHeight : Int)
    (x y : Option (CCoins G)) : Prop where
  alike : EntryAlike x y
  marks : nd.fTestNet = false → ∀ a b, x = some a → y = some b →
    0 < nSpendHeight - a.nHeight → nSpendHeight - a.nHeight < nd.nCoinbaseMaturity →
      a.fCoinStake = b.fCoinStake

variable {nd : Node G} {nSpendHeight : Int} {view view' : CStateView G}

/-- Nothing is read from an entry without outputs. -/
theorem checkTxInput_of_dead {fXNavSer : Bool} {s : InputLocals} {e : CTxIn × Nat}
    (htidy : ∀ a, view.coins e.1.prevout.hash = some a → a.Tidy)
    (hdead : liveEntry (view.coins e.1.prevout.hash) = none) :
    checkTxInput nd view nSpendHeight fXNavSer s e = .error .assertion := by
  unfold checkTxInput
  cases hcoins : view.coins e.1.prevout.hash with
  | none => rfl
  | some a =>
    rw [hcoins, liveEntry_some] at hdead
    split at hdead
    · next hpruned => simp [(htidy a hcoins).isPruned_iff.mp hpruned]
    · cases hdead

theorem rel_getElem? {α : Type} {R : α → α → Prop} {l l' : List α} (h : List.Forall₂ R l l')
    (n : Nat) : Option.Rel R l[n]? l'[n]? := by
  induction h generalizing n with
  | nil => exact .none
  | cons hhead _ ih =>
    cases n with
    | zero => exact .some hhead
    | succ n => exact ih n

variable [Zero G] [DecidableEq G]

theorem spendsBLS_congr {o o' : CTxOut G} (h : o.eq o' = true) (fXNavSer : Bool) :
    spendsBLS fXNavSer o = spendsBLS fXNavSer o' ∧ o.nValue = o'.nValue := by
  have hcompared := CTxOut.eq_iff_compared.mp h
  simp only [CTxOut.compared, Prod.mk.injEq] at hcompared
  obtain ⟨hvalue, _, heph, hout, hspend, _⟩ := hcompared
  simp only [spendsBLS, CTxOut.isBLSCT, heph, hout, hspend, hvalue, and_self]

/-- The test for premature outputs sees no difference. -/
theorem SameVerdict.premature_eq {a b : CCoins G}
    (h : SameVerdict nd nSpendHeight (some a) (some b)) (hab : a.Alike b) :
    ((a.fCoinBase || a.fCoinStake) && !nd.fTestNet &&
        decide (nSpendHeight - a.nHeight < nd.nCoinbaseMaturity) &&
        decide (0 < nSpendHeight - a.nHeight)) =
      ((b.fCoinBase || b.fCoinStake) && !nd.fTestNet &&
        decide (nSpendHeight - b.nHeight < nd.nCoinbaseMaturity) &&
        decide (0 < nSpendHeight - b.nHeight)) := by
  rw [← hab.fCoinBase, ← hab.nHeight]
  cases htest : nd.fTestNet with
  | true => simp
  | false =>
    by_cases hpos : 0 < nSpendHeight - a.nHeight
    · by_cases hyoung : nSpendHeight - a.nHeight < nd.nCoinbaseMaturity
      · rw [h.marks htest a b rfl rfl hpos hyoung]
      · rw [decide_eq_false hyoung, Bool.and_false, Bool.and_false]
    · rw [decide_eq_false hpos, Bool.and_false, Bool.and_false]

/-- Two entries that give the same verdict, one by one. -/
theorem SameVerdict.cases {x y : Option (CCoins G)} (h : SameVerdict nd nSpendHeight x y) :
    (liveEntry x = none ∧ liveEntry y = none) ∨
      ∃ a b, x = some a ∧ y = some b ∧ a.isPruned = false ∧ a.Alike b ∧
        List.Forall₂ (fun o o' => o.eq o' = true) a.vout b.vout := by
  cases hlive : liveEntry x with
  | none =>
    have hrel := h.alike.live
    rw [hlive] at hrel
    generalize liveEntry y = z at hrel ⊢
    cases hrel
    exact .inl ⟨rfl, rfl⟩
  | some a =>
    obtain ⟨rfl, ha⟩ := liveEntry_eq_some.mp hlive
    obtain ⟨b, rfl, hab, hb, _⟩ := h.alike.exists_of_live ha
    exact .inr ⟨a, b, rfl, rfl, ha, hab, hab.forall₂ (h.alike.left a rfl) hb⟩

theorem checkTxInput_congr {fXNavSer : Bool} {e : CTxIn × Nat}
    (h : SameVerdict nd nSpendHeight (view.coins e.1.prevout.hash)
      (view'.coins e.1.prevout.hash)) (s : InputLocals) :
    checkTxInput nd view nSpendHeight fXNavSer s e =
      checkTxInput nd view' nSpendHeight fXNavSer s e := by
  rcases h.cases with ⟨hdead, hdead'⟩ | ⟨a, b, hx, hy, _, hab, hvout⟩
  · rw [checkTxInput_of_dead h.alike.left hdead, checkTxInput_of_dead h.alike.right hdead']
  · rw [hx, hy] at h
    have hmark := h.premature_eq hab
    have hout := rel_getElem? hvout e.1.prevout.n.toNat
    unfold checkTxInput
    rw [hx, hy]
    simp only [hmark]
    generalize a.vout[e.1.prevout.n.toNat]? = u, b.vout[e.1.prevout.n.toNat]? = v at hout ⊢
    cases hout with
    | none => rfl
    | some heq =>
      obtain ⟨hbls, hvalue⟩ := spendsBLS_congr heq fXNavSer
      simp only [hbls, hvalue]

/-- The outputs that both views give for an input compare equal. -/
theorem getOutputFor_congr {i : CTxIn}
    (h : SameVerdict nd nSpendHeight (view.coins i.prevout.hash) (view'.coins i.prevout.hash)) :
    Option.Rel (fun o o' : CTxOut G => o.eq o' = true) (view.getOutputFor i)
      (view'.getOutputFor i) := by
  have hnone : ∀ {w : CStateView G}, liveEntry (w.coins i.prevout.hash) = none →
      w.getOutputFor i = none := by
    intro w hdead
    unfold CStateView.getOutputFor
    cases hcoins : w.coins i.prevout.hash with
    | none => rfl
    | some a =>
      have havail : a.isAvailable i.prevout.n = false :=
        CStateView.not_available_of_dead hdead hcoins i.prevout.n
      simp [havail]
  rcases h.cases with ⟨hdead, hdead'⟩ | ⟨a, b, hx, hy, _, hab, hvout⟩
  · rw [hnone hdead, hnone hdead']
    exact .none
  · simp only [CStateView.getOutputFor, hx, hy, hab.isAvailable]
    split
    · exact rel_getElem? hvout _
    · exact .none

theorem haveInputs_congr (h : ∀ i ∈ tx.vin, SameVerdict nd nSpendHeight (view.coins i.prevout.hash)
      (view'.coins i.prevout.hash)) : view.haveInputs tx = view'.haveInputs tx := by
  have hsome : ∀ i ∈ tx.vin, (view.getOutputFor i).isSome = (view'.getOutputFor i).isSome := by
    intro i hi
    have hrel := getOutputFor_congr (h i hi)
    generalize view.getOutputFor i = u, view'.getOutputFor i = v at hrel ⊢
    cases hrel <;> rfl
  unfold CStateView.haveInputs
  congr 1
  rw [Bool.eq_iff_iff, List.all_eq_true, List.all_eq_true]
  exact forall₂_congr fun i hi => by rw [hsome i hi]

end Verdict

section Transaction

variable [G1Group G] [DecidableEq G]

theorem inputTerm_congr (b : Bls G) {o o' : CTxOut G} (h : o.eq o' = true) :
    inputTerm b o = inputTerm b o' := by
  have hcompared := CTxOut.eq_iff_compared.mp h
  simp only [CTxOut.compared, Prod.mk.injEq] at hcompared
  obtain ⟨hvalue, _, _, _, _, hproof, htoken, _⟩ := hcompared
  simp only [inputTerm, CTxOut.hasRangeProof_eq, firstCommitment, hproof, hvalue, htoken]

variable {nd : Node G} {nSpendHeight : Int}

/-- **`VerifyBLSCT`** reads nothing else of the coins. -/
theorem verifyBLSCT_congr {view : CStateView G} {m m' : CoinMap G}
    (h : ∀ i ∈ tx.vin, SameVerdict nd nSpendHeight (m i.prevout.hash) (m' i.prevout.hash))
    (fOnlyRecover : Bool) (nMixFee : Int) :
    verifyBLSCT nd.toBls tx (view.withCoins m) fOnlyRecover nMixFee =
      verifyBLSCT nd.toBls tx (view.withCoins m') fOnlyRecover nMixFee := by
  have hinput : ∀ f : BlsctChecks, ∀ i ∈ tx.vin, ∀ s,
      addInput nd.toBls (view.withCoins m) f s i = addInput nd.toBls (view.withCoins m') f s i := by
    intro f i hi s
    have hrel : Option.Rel (fun o o' : CTxOut G => o.eq o' = true)
        ((view.withCoins m).getOutputFor i) ((view.withCoins m').getOutputFor i) :=
      getOutputFor_congr (h i hi)
    unfold addInput
    generalize (view.withCoins m).getOutputFor i = u, (view.withCoins m').getOutputFor i = v
      at hrel ⊢
    cases hrel with
    | none => rfl
    | some heq =>
      have hspend : ∀ {o o' : CTxOut G}, o.eq o' = true → o.spendingKey = o'.spendingKey := by
        intro o o' heq
        have hcompared := CTxOut.eq_iff_compared.mp heq
        simp only [CTxOut.compared, Prod.mk.injEq] at hcompared
        exact hcompared.2.2.2.2.1
      simp only [inputTerm_congr nd.toBls heq, hspend heq]
  have hcollect : ∀ f : BlsctChecks, collectBLSCT nd.toBls tx (view.withCoins m) f nMixFee =
      collectBLSCT nd.toBls tx (view.withCoins m') f nMixFee := by
    intro f
    unfold collectBLSCT
    simp only [Except.foldlM_congr (hinput f)]
    rfl
  have hhave : (view.withCoins m).haveInputs tx = (view.withCoins m').haveInputs tx :=
    haveInputs_congr h
  simp only [verifyBLSCT, hcollect, hhave]

/-- **`CheckTxInputs` on coins that are alike.** -/
theorem checkTxInputs_congr {view : CStateView G} {m m' : CoinMap G}
    (h : ∀ i ∈ tx.vin, SameVerdict nd nSpendHeight (m i.prevout.hash) (m' i.prevout.hash))
    (fXNavSer : Bool) (allowedInPrivate : Int) :
    checkTxInputs nd tx (view.withCoins m) nSpendHeight fXNavSer allowedInPrivate =
      checkTxInputs nd tx (view.withCoins m') nSpendHeight fXNavSer allowedInPrivate := by
  have hloop : tx.vin.zipIdx.foldlM
        (checkTxInput nd (view.withCoins m) nSpendHeight fXNavSer) {} =
      tx.vin.zipIdx.foldlM (checkTxInput nd (view.withCoins m') nSpendHeight fXNavSer) {} := by
    refine Except.foldlM_congr (fun e he s => checkTxInput_congr (h e.1 ?_) s) {}
    rw [← List.zipIdx_map_fst 0 tx.vin]
    exact List.mem_map.mpr ⟨e, he, rfl⟩
  have hhave : (view.withCoins m).haveInputs tx = (view.withCoins m').haveInputs tx :=
    haveInputs_congr h
  simp only [checkTxInputs, hhave, hloop, verifyBLSCT_congr h]

end Transaction

end Navcoin
