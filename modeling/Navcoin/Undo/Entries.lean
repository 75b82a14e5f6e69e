import Navcoin.Lib.Journal
import Navcoin.Lib.SparseVector
import Navcoin.Undo.Records

/-!
# Entries of the coins database

What `UpdateCoins`, `ApplyTxInUndo` and `DisconnectBlock` do to the entry of one transaction, as
events that a journal records and takes back.

* `out_spend`, `out_applyUndo`: the outputs of an entry, position by position;
* `backAt_spends`: an entry after its spent outputs were put back;
* `txout_of_backAt`: where the output of a record ends up.
-/

namespace Navcoin

variable {G : Type}

/-! ## Outputs that compare equal -/

namespace CTxOut

variable [Zero G] {o o' : CTxOut G}

theorem hasRangeProof_eq (o : CTxOut G) : o.hasRangeProof = !o.getBulletproof.V.isEmpty := by
  unfold hasRangeProof getBulletproof
  cases o.bp <;> rfl

variable [DecidableEq G]

theorem eq_self (o : CTxOut G) : o.eq o = true := by simp [eq]

theorem isNull_of_eq (h : o'.eq o = true) : o'.isNull = o.isNull := by
  simp only [eq, Bool.and_eq_true, beq_iff_eq] at h
  obtain ⟨⟨⟨⟨⟨⟨⟨hvalue, hscript⟩, heph⟩, hout⟩, hspend⟩, _⟩, _⟩, _⟩ := h
  simp only [isNull, hvalue, hscript, heph, hout, hspend]

theorem cleared_of_eq (h : o'.eq o = true) :
    (!o'.hasRangeProof && o'.scriptPubKey.isUnspendable) =
      (!o.hasRangeProof && o.scriptPubKey.isUnspendable) := by
  simp only [eq, Bool.and_eq_true, beq_iff_eq] at h
  obtain ⟨⟨⟨⟨⟨⟨⟨_, hscript⟩, _⟩, _⟩, _⟩, hproof⟩, _⟩, _⟩ := h
  rw [hasRangeProof_eq, hasRangeProof_eq, hproof, hscript]

end CTxOut

/-! ## Entries -/

namespace CCoins

def isPruned (coins : CCoins G) : Bool := coins.vout.all CTxOut.isNull

/-- `CCoins::operator==`, which does not look at the coinstake flag. -/
def eq [Zero G] [DecidableEq G] (a b : CCoins G) : Bool :=
  (a.isPruned && b.isPruned) ||
    (a.fCoinBase == b.fCoinBase && a.nHeight == b.nHeight && a.nVersion == b.nVersion &&
      a.vout.isEqv b.vout CTxOut.eq)

/-- The record that `UpdateCoins` keeps when it spends an output. -/
def undoOf (coins : CCoins G) (nPos : UInt32) : CTxInUndo G :=
  let txout := coins.vout.getD nPos.toNat {}
  if (coins.spend nPos).vout.isEmpty then
    ⟨txout, coins.fCoinBase, BitVec.ofInt 32 coins.nHeight, coins.nVersion⟩
  else { txout }

/-- With a height the entry is cleared and filled from the record. -/
def restart (undo : CTxInUndo G) (coins : CCoins G) : CCoins G :=
  if undo.nHeight = 0 then coins
  else { fCoinBase := undo.fCoinBase, nHeight := undo.nHeight.toInt, nVersion := undo.nVersion }

/-- `ApplyTxInUndo` on the entry: what it becomes and whether it was as expected.  The holes at
the end are dropped when the modifier of the entry goes. -/
def applyUndo (undo : CTxInUndo G) (n : UInt32) (coins : CCoins G) : CCoins G × Bool :=
  let fClean := if undo.nHeight = 0 then !coins.isPruned else coins.isPruned
  let base := coins.restart undo
  let vout := base.vout ++ List.replicate (n.toNat + 1 - base.vout.length) ({} : CTxOut G)
  (cleanup { base with vout := vout.set n.toNat undo.txout }, fClean && !base.isAvailable n)

/-- The test of `DisconnectBlock` that the outputs of a transaction are those of the block.  The
version of the entry is corrected first when that of the transaction is negative. -/
def matchesBlock [Zero G] [DecidableEq G] (coins : CCoins G) (tx : CTransaction G)
    (nHeight : Int) : Bool :=
  let outsBlock := fromTx tx nHeight
  let outs := coins.clearUnspendable
  let outs := { outs with
    nVersion := if outsBlock.nVersion.toInt < 0 then outsBlock.nVersion else outs.nVersion }
  outs.vout.length == outsBlock.vout.length && outs.eq outsBlock

/-! ### Positions -/

/-- The output at a position; a hole behind the end. -/
def out (coins : CCoins G) (i : Nat) : CTxOut G := coins.vout.getD i {}

/-- Spent outputs are all the same, and none stands at the end. -/
structure Tidy (coins : CCoins G) : Prop where
  trimmed : coins.vout.rdropWhile CTxOut.isNull = coins.vout
  holes : ∀ o ∈ coins.vout, o.isNull = true → o = {}

variable {coins : CCoins G}

theorem isAvailable_eq (coins : CCoins G) (n : UInt32) :
    coins.isAvailable n = !(coins.out n.toNat).isNull := by
  unfold isAvailable out
  rw [List.getD_eq_getElem?_getD]
  cases coins.vout[n.toNat]? <;> rfl

/-- What holds of a hole and at every position holds of every output. -/
theorem forall_out_iff {P : CTxOut G → Prop} (hhole : P {}) :
    (∀ i, P (coins.out i)) ↔ ∀ o ∈ coins.vout, P o := by
  constructor
  · intro h o ho
    obtain ⟨i, hi⟩ := List.getElem?_of_mem ho
    have hout := h i
    rwa [out, List.getD_eq_getElem?_getD, hi] at hout
  · intro h i
    rw [out, List.getD_eq_getElem?_getD]
    cases hi : coins.vout[i]? with
    | none => exact hhole
    | some o => exact h o (List.mem_of_getElem? hi)

theorem isPruned_iff : coins.isPruned = true ↔ ∀ i, (coins.out i).isNull = true := by
  rw [isPruned, List.all_eq_true]
  exact (forall_out_iff (P := fun o => o.isNull = true) rfl).symm

theorem isPruned_of_out {i : Nat} (h : (coins.out i).isNull = false) : coins.isPruned = false := by
  by_contra hpruned
  have hnull := isPruned_iff.mp (by simpa using hpruned) i
  rw [h] at hnull
  cases hnull

theorem Tidy.isPruned_iff (h : coins.Tidy) : coins.isPruned = true ↔ coins.vout = [] := by
  rw [isPruned, List.all_eq_true, ← List.rdropWhile_eq_nil_iff, h.trimmed]

theorem Tidy.out_eq (h : coins.Tidy) {i : Nat} (hi : (coins.out i).isNull = true) :
    coins.out i = {} :=
  (forall_out_iff (P := fun o => o.isNull = true → o = {}) fun _ => rfl).mpr h.holes i hi

theorem tidy_cleanup (h : ∀ o ∈ coins.vout, o.isNull = true → o = {}) : coins.cleanup.Tidy := by
  refine ⟨List.rdropWhile_idempotent _ _, fun o ho => h o ?_⟩
  exact (List.rdropWhile_prefix _ (l := coins.vout)).subset ho

theorem out_cleanup (h : ∀ o ∈ coins.vout, o.isNull = true → o = {}) (i : Nat) :
    coins.cleanup.out i = coins.out i :=
  SparseVector.getD_rdropWhile h i

/-! ### Spending -/

theorem getD_set {α : Type} (l : List α) (n i : Nat) (d : α) :
    (l.set n d).getD i d = if i = n then d else l.getD i d := by
  simp only [List.getD_eq_getElem?_getD, List.getElem?_set]
  by_cases h : n = i
  · subst h
    simp only [if_true]
    split <;> rfl
  · rw [if_neg h, if_neg (Ne.symm h)]

theorem Tidy.holes_set (h : coins.Tidy) (n : Nat) :
    ∀ o ∈ coins.vout.set n {}, o.isNull = true → o = {} := by
  intro o ho hnull
  rcases List.mem_or_eq_of_mem_set ho with hmem | rfl
  · exact h.holes o hmem hnull
  · rfl

theorem Tidy.spend (h : coins.Tidy) (n : UInt32) : (coins.spend n).Tidy :=
  tidy_cleanup (h.holes_set n.toNat)

theorem Tidy.out_spend (h : coins.Tidy) (n : UInt32) (i : Nat) :
    (coins.spend n).out i = if i = n.toNat then {} else coins.out i := by
  rw [CCoins.spend, out_cleanup (h.holes_set n.toNat)]
  exact getD_set coins.vout n.toNat i {}

/-- Only the outputs differ. -/
theorem spend_frame (coins : CCoins G) (n : UInt32) :
    coins.spend n = { coins with vout := (coins.spend n).vout } := rfl

/-! ### Putting back -/

/-- The outputs before the holes at the end are dropped. -/
theorem getD_resize_set {α : Type} (l : List α) (n i : Nat) (a d : α) :
    ((l ++ List.replicate (n + 1 - l.length) d).set n a).getD i d =
      if i = n then a else l.getD i d := by
  simp only [List.getD_eq_getElem?_getD, List.getElem?_set, List.length_append,
    List.length_replicate]
  by_cases h : n = i
  · subst h
    rw [if_pos rfl, if_pos (by omega), if_pos rfl]
    rfl
  · rw [if_neg h, if_neg (Ne.symm h), List.getElem?_append]
    split
    · rfl
    · next hi =>
      rw [List.getElem?_eq_none (not_lt.mp hi), List.getElem?_replicate]
      split <;> rfl

theorem mem_resize_set {α : Type} {l : List α} {n : Nat} {a b d : α}
    (h : b ∈ (l ++ List.replicate (n + 1 - l.length) d).set n a) : b ∈ l ∨ b = d ∨ b = a := by
  rcases List.mem_or_eq_of_mem_set h with hmem | rfl
  · rcases List.mem_append.mp hmem with hl | hd
    · exact .inl hl
    · exact .inr (.inl (List.mem_replicate.mp hd).2)
  · exact .inr (.inr rfl)

theorem holes_restart (undo : CTxInUndo G) (h : coins.Tidy) (hout : undo.txout.isNull = false)
    (n : Nat) : ∀ o ∈ ((coins.restart undo).vout ++
        List.replicate (n + 1 - (coins.restart undo).vout.length) ({} : CTxOut G)).set n undo.txout,
      o.isNull = true → o = {} := by
  intro o ho hnull
  rcases mem_resize_set ho with hmem | rfl | rfl
  · unfold restart at hmem
    split at hmem
    · exact h.holes o hmem hnull
    · cases hmem
  · rfl
  · rw [hout] at hnull
    cases hnull

theorem Tidy.applyUndo (h : coins.Tidy) {undo : CTxInUndo G} (hout : undo.txout.isNull = false)
    (n : UInt32) : (coins.applyUndo undo n).1.Tidy :=
  tidy_cleanup (holes_restart undo h hout n.toNat)

theorem Tidy.out_applyUndo (h : coins.Tidy) {undo : CTxInUndo G}
    (hout : undo.txout.isNull = false) (n : UInt32) (i : Nat) :
    (coins.applyUndo undo n).1.out i =
      if i = n.toNat then undo.txout else (coins.restart undo).out i := by
  rw [CCoins.applyUndo, out_cleanup (holes_restart undo h hout n.toNat)]
  exact getD_resize_set (coins.restart undo).vout n.toNat i undo.txout {}

/-- Whatever is put back, a position holds what was put there, what was there before, or a
hole. -/
theorem out_applyUndo_or (coins : CCoins G) (undo : CTxInUndo G) (n : UInt32) (i : Nat) :
    (coins.applyUndo undo n).1.out i = (if i = n.toNat then undo.txout else coins.out i) ∨
      ((coins.applyUndo undo n).1.out i).isNull = true := by
  have hpos := getD_resize_set (coins.restart undo).vout n.toNat i undo.txout {}
  rcases SparseVector.getD_rdropWhile_or CTxOut.isNull ({} : CTxOut G)
    (((coins.restart undo).vout ++ List.replicate (n.toNat + 1 - (coins.restart undo).vout.length)
      ({} : CTxOut G)).set n.toNat undo.txout) i with hkept | hhole
  · have hout : (coins.applyUndo undo n).1.out i =
        if i = n.toNat then undo.txout else (coins.restart undo).vout.getD i {} :=
      hkept.trans hpos
    by_cases hi : i = n.toNat
    · left
      rw [hout, if_pos hi, if_pos hi]
    · rw [hout, if_neg hi]
      unfold restart
      split
      · exact .inl rfl
      · exact .inr rfl
  · right
    have hout : (coins.applyUndo undo n).1.out i = {} := hhole
    rw [hout]
    rfl

/-- The rest of the entry is as it was, or comes from the record. -/
theorem applyUndo_frame (coins : CCoins G) (undo : CTxInUndo G) (n : UInt32) :
    (coins.applyUndo undo n).1 =
      { coins.restart undo with vout := (coins.applyUndo undo n).1.vout } := rfl

end CCoins

/-! ## Events -/

inductive CoinEvent (G : Type) where
  | spend (out : COutPoint)
  | create (tx : CTransaction G)

/-- What the events of a block at height `nHeight` do to entries, and how they are taken back. -/
def coinJournal [Zero G] [DecidableEq G] (c : Crypto G) (nHeight : Int) :
    Journal Uint256 (Option (CCoins G)) (CoinEvent G) (CTxInUndo G) where
  key
    | .spend out => out.hash
    | .create tx => tx.getHash c
  apply
    | .spend out, some coins =>
      if coins.isAvailable out.n then some (some (coins.spend out.n), coins.undoOf out.n) else none
    | .spend _, none => none
    | .create tx, _ => some (some (CCoins.fromTx tx nHeight), {})
  revert
    | .spend out, undo, entry =>
      let r := (entry.getD {}).applyUndo undo out.n
      (some r.1, r.2)
    | .create tx, _, entry => (some {}, (entry.getD {}).matchesBlock tx nHeight)

/-! ## The spent outputs of one entry -/

variable {coins' back : CCoins G} {js : List (CoinEvent G × CTxInUndo G)} {outs : List COutPoint}

section Spends

variable [Zero G] [DecidableEq G] {c : Crypto G} {nHeight : Int}

theorem spend_eq_some {out : COutPoint} {entry entry' : Option (CCoins G)} {u : CTxInUndo G}
    (h : (coinJournal c nHeight).apply (.spend out) entry = some (entry', u)) :
    ∃ coins, entry = some coins ∧ coins.isAvailable out.n = true ∧
      (coins.out out.n.toNat).isNull = false ∧ entry' = some (coins.spend out.n) ∧
      u = coins.undoOf out.n := by
  cases entry with
  | none => cases h
  | some coins =>
    have hif : (if coins.isAvailable out.n then
        some (some (coins.spend out.n), coins.undoOf out.n) else none) = some (entry', u) := h
    split at hif
    · next havail =>
      cases hif
      have hout := havail
      rw [CCoins.isAvailable_eq, Bool.not_eq_true'] at hout
      exact ⟨coins, rfl, havail, hout, rfl, rfl⟩
    · cases hif

/-- What spending some outputs of an entry leaves of it. -/
structure SpentFrom (coins : CCoins G) (outs : List COutPoint) (coins' : CCoins G) : Prop where
  tidy : coins'.Tidy
  frame : coins' = { coins with vout := coins'.vout }
  out : ∀ i, coins'.out i = if ∃ o ∈ outs, o.n.toNat = i then {} else coins.out i
  available : ∀ o ∈ outs, (coins.out o.n.toNat).isNull = false
  nodup : (outs.map fun o => o.n.toNat).Nodup

variable {coins : CCoins G}

theorem spentFrom_of_runAt {entry : Option (CCoins G)} (htidy : coins.Tidy)
    (h : (coinJournal c nHeight).runAt (some coins) (outs.map .spend) = some (entry, js)) :
    ∃ coins', entry = some coins' ∧ SpentFrom coins outs coins' ∧
      ∀ j ∈ js, ∃ o ∈ outs, j.1 = .spend o ∧ j.2.txout = coins.out o.n.toNat ∧
        (j.2.nHeight = 0 ∨ j.2.nHeight = BitVec.ofInt 32 coins.nHeight) := by
  induction outs generalizing coins js with
  | nil =>
    cases h
    exact ⟨coins, rfl, ⟨htidy, rfl, by simp, by simp, by simp⟩, by simp⟩
  | cons o outs ih =>
    obtain ⟨entry₁, u, js', happly, hrun, rfl⟩ := Journal.runAt_cons_eq_some h
    obtain ⟨coins₁, hsome, _, hnull, rfl, rfl⟩ := spend_eq_some happly
    cases hsome
    obtain ⟨coins', rfl, hspent, hrecords⟩ := ih (htidy.spend o.n) hrun
    -- an output that is spent later is still there, so it is another one
    have hlater : ∀ o' ∈ outs, o'.n.toNat ≠ o.n.toNat ∧
        (coins.out o'.n.toNat).isNull = false := by
      intro o' ho'
      have hthere := hspent.available o' ho'
      rw [htidy.out_spend] at hthere
      split at hthere
      · cases hthere
      · next hne => exact ⟨hne, hthere⟩
    refine ⟨coins', rfl, ⟨hspent.tidy, ?_, ?_, ?_, ?_⟩, ?_⟩
    · rw [hspent.frame, CCoins.spend_frame]
    · intro i
      rw [hspent.out, htidy.out_spend]
      by_cases hi : i = o.n.toNat
      · subst hi
        simp
      · simp [hi, Ne.symm hi]
    · intro o' ho'
      rcases List.mem_cons.mp ho' with rfl | ho'
      · exact hnull
      · exact (hlater o' ho').2
    · rw [List.map_cons, List.nodup_cons]
      refine ⟨fun hmem => ?_, hspent.nodup⟩
      obtain ⟨o', ho', heq⟩ := List.mem_map.mp hmem
      exact (hlater o' ho').1 heq
    · intro j hj
      rcases List.mem_cons.mp hj with rfl | hj
      · refine ⟨o, List.mem_cons_self, rfl, ?_⟩
        simp only [CCoins.undoOf]
        split
        · exact ⟨rfl, .inr rfl⟩
        · exact ⟨rfl, .inl rfl⟩
      · obtain ⟨o', ho', hevent, htxout, hheight⟩ := hrecords j hj
        refine ⟨o', List.mem_cons_of_mem _ ho', hevent, ?_, hheight⟩
        rw [htxout, htidy.out_spend, if_neg (hlater o' ho').1]

/-- The entry spends down to nothing. -/
def CCoins.emptiedTo (coins coins' : CCoins G) : Bool := coins'.isPruned && !coins.isPruned

/-- An entry as it comes back: the outputs compare equal, but an entry that was emptied has lost
its coinstake flag and the sign of its version. -/
structure PutBack (coins coins' back : CCoins G) : Prop where
  tidy : back.Tidy
  out : ∀ i, (back.out i).eq (coins.out i) = true
  fCoinBase : back.fCoinBase = coins.fCoinBase
  nHeight : back.nHeight = coins.nHeight
  fCoinStake : back.fCoinStake = if coins.emptiedTo coins' then false else coins.fCoinStake
  nVersion : back.nVersion = if coins.emptiedTo coins' then varIntBack coins.nVersion
    else coins.nVersion

theorem PutBack.refl (htidy : coins.Tidy) : PutBack coins coins coins := by
  have hsame : coins.emptiedTo coins = false := by
    unfold CCoins.emptiedTo
    cases coins.isPruned <;> rfl
  exact ⟨htidy, fun i => CTxOut.eq_self _, rfl, rfl, by rw [hsame]; rfl, by rw [hsame]; rfl⟩

/-- A recorded event, with its record as it is read back. -/
def EventBack (j j' : CoinEvent G × CTxInUndo G) : Prop := j'.1 = j.1 ∧ j.2.ReadBack j'.2

theorem PutBack.isPruned (h : PutBack coins coins' back) : back.isPruned = coins.isPruned := by
  have hiff : back.isPruned = true ↔ coins.isPruned = true := by
    rw [CCoins.isPruned_iff, CCoins.isPruned_iff]
    exact forall_congr' fun i => by rw [CTxOut.isNull_of_eq (h.out i)]
  cases hb : back.isPruned <;> cases hc : coins.isPruned <;> simp_all

theorem toInt_ofInt_height {n : Int} (h : 0 < n ∧ n < 2 ^ 31) :
    (BitVec.ofInt 32 n).toInt = n ∧ BitVec.ofInt 32 n ≠ 0 ∧ (BitVec.ofInt 32 n).toNat < 2 ^ 31 := by
  have hnat : (BitVec.ofInt 32 n).toNat = n.toNat := by
    rw [BitVec.toNat_ofInt]
    omega
  refine ⟨?_, fun hzero => ?_, by omega⟩
  · rw [BitVec.toInt_eq_toNat_of_lt (by omega)]
    omega
  · rw [hzero] at hnat
    simp at hnat
    omega

omit [Zero G] [DecidableEq G] in
/-- The record is complete when the output was the last one. -/
theorem CCoins.Tidy.undoOf_eq (h : coins.Tidy) (n : UInt32) :
    coins.undoOf n = if (coins.spend n).isPruned then
      ⟨coins.out n.toNat, coins.fCoinBase, BitVec.ofInt 32 coins.nHeight, coins.nVersion⟩
    else { txout := coins.out n.toNat } := by
  have hiff : (coins.spend n).vout.isEmpty = (coins.spend n).isPruned := by
    have htidy := (h.spend n).isPruned_iff
    rw [← List.isEmpty_iff] at htidy
    exact Bool.eq_iff_iff.mpr htidy.symm
  unfold CCoins.undoOf
  rw [hiff]
  rfl

/-- **One output is put back.** -/
theorem putBack_spend {n : UInt32} {u' : CTxInUndo G} (htidy : coins.Tidy)
    (hheight : 0 < coins.nHeight ∧ coins.nHeight < 2 ^ 31)
    (havail : (coins.out n.toNat).isNull = false) (hu : (coins.undoOf n).ReadBack u')
    (hlast : (coins.spend n).isPruned = true → coins'.isPruned = true)
    (hback : PutBack (coins.spend n) coins' back) :
    PutBack coins coins' (back.applyUndo u' n).1 ∧ (back.applyUndo u' n).2 = true := by
  have hlive : coins.isPruned = false := CCoins.isPruned_of_out havail
  have htxout : u'.txout.eq (coins.out n.toNat) = true := by
    have heq := hu.txout
    rw [htidy.undoOf_eq] at heq
    split at heq <;> exact heq
  have hout : u'.txout.isNull = false := by rw [CTxOut.isNull_of_eq htxout, havail]
  have hpos := fun i => hback.tidy.out_applyUndo hout n i
  rw [htidy.undoOf_eq] at hu
  cases hpruned : (coins.spend n).isPruned with
  | true =>
    obtain ⟨hint, hzero, _⟩ := toInt_ofInt_height hheight
    rw [if_pos hpruned] at hu
    have hu' : u'.nHeight ≠ 0 := by
      rw [hu.nHeight]
      exact hzero
    have hrestart : back.restart u' =
        { fCoinBase := coins.fCoinBase, nHeight := coins.nHeight,
          nVersion := varIntBack coins.nVersion } := by
      rw [CCoins.restart, if_neg hu', hu.fCoinBase, hu.nHeight, hu.nVersion, if_neg hzero, hint]
    have hemptied : coins.emptiedTo coins' = true := by
      rw [CCoins.emptiedTo, hlast hpruned, hlive]
      rfl
    have hframe := back.applyUndo_frame u' n
    rw [hrestart] at hframe
    refine ⟨⟨hback.tidy.applyUndo hout n, fun i => ?_, ?_, ?_, ?_, ?_⟩, ?_⟩
    · rw [hpos]
      by_cases hi : i = n.toNat
      · rw [if_pos hi, hi]
        exact htxout
      · have hnull := CCoins.isPruned_iff.mp hpruned i
        rw [htidy.out_spend, if_neg hi] at hnull
        rw [if_neg hi, hrestart, htidy.out_eq hnull]
        exact CTxOut.eq_self _
    · rw [hframe]
    · rw [hframe]
    · rw [hframe, if_pos hemptied]
    · rw [hframe, if_pos hemptied]
    · have hempty : back.isPruned = true := by rw [hback.isPruned, hpruned]
      simp only [CCoins.applyUndo, if_neg hu', hempty, hrestart, Bool.true_and]
      rfl
  | false =>
    rw [if_neg (by simp [hpruned])] at hu
    have hu' : u'.nHeight = 0 := hu.nHeight
    have hrestart : back.restart u' = back := if_pos hu'
    have hemptied : coins.emptiedTo coins' = (coins.spend n).emptiedTo coins' := by
      rw [CCoins.emptiedTo, CCoins.emptiedTo, hlive, hpruned]
    have hframe := back.applyUndo_frame u' n
    rw [hrestart] at hframe
    refine ⟨⟨hback.tidy.applyUndo hout n, fun i => ?_, ?_, ?_, ?_, ?_⟩, ?_⟩
    · rw [hpos, hrestart]
      by_cases hi : i = n.toNat
      · rw [if_pos hi, hi]
        exact htxout
      · have heq := hback.out i
        rw [htidy.out_spend, if_neg hi] at heq
        rw [if_neg hi]
        exact heq
    · rw [hframe]
      exact hback.fCoinBase
    · rw [hframe]
      exact hback.nHeight
    · rw [hframe, hemptied]
      exact hback.fCoinStake
    · rw [hframe, hemptied]
      exact hback.nVersion
    · have hthere : back.isPruned = false := by rw [hback.isPruned, hpruned]
      have hspent : back.isAvailable n = false := by
        rw [CCoins.isAvailable_eq, CTxOut.isNull_of_eq (hback.out n.toNat), htidy.out_spend,
          if_pos rfl]
        rfl
      simp only [CCoins.applyUndo, if_pos hu', hrestart, hthere, hspent]
      rfl

/-- **All outputs are put back**, the one spent last first. -/
theorem backAt_spends {js' : List (CoinEvent G × CTxInUndo G)} (htidy : coins.Tidy)
    (hheight : coins.isPruned = false → 0 < coins.nHeight ∧ coins.nHeight < 2 ^ 31)
    (h : (coinJournal c nHeight).runAt (some coins) (outs.map .spend) = some (some coins', js))
    (hjs : List.Forall₂ EventBack js js') :
    ∃ back, (coinJournal c nHeight).backAt (some coins') js' = (some back, true) ∧
      PutBack coins coins' back := by
  induction outs generalizing coins js js' with
  | nil =>
    cases h
    cases hjs
    exact ⟨coins', rfl, .refl htidy⟩
  | cons o outs ih =>
    obtain ⟨entry₁, u, js₁, happly, hrun, rfl⟩ := Journal.runAt_cons_eq_some h
    obtain ⟨coins₁, hsome, _, hnull, rfl, rfl⟩ := spend_eq_some happly
    cases hsome
    cases hjs with
    | cons hhead htail =>
    rename_i j' js₁'
    have hheight := hheight (CCoins.isPruned_of_out hnull)
    obtain ⟨back, hrest, hback⟩ := ih (htidy.spend o.n) (fun _ => hheight) hrun htail
    obtain ⟨coins₂, hsome, hspent, _⟩ := spentFrom_of_runAt (htidy.spend o.n) hrun
    cases hsome
    have hlast : (coins.spend o.n).isPruned = true → coins'.isPruned = true := by
      intro hpruned
      rw [CCoins.isPruned_iff] at hpruned ⊢
      intro i
      rw [hspent.out]
      split
      · rfl
      · exact hpruned i
    obtain ⟨hevent, hu⟩ := hhead
    obtain ⟨hput, hclean⟩ := putBack_spend htidy hheight hnull hu hlast hback
    refine ⟨(back.applyUndo j'.2 o.n).1, ?_, hput⟩
    rw [Journal.backAt, hrest, hevent]
    show (some (back.applyUndo j'.2 o.n).1, true && (back.applyUndo j'.2 o.n).2) = _
    rw [hclean]
    rfl

end Spends

/-! ## Where a recorded output ends up -/

section Positions

variable [Zero G] [DecidableEq G] {c : Crypto G} {nHeight : Int}

/-- **Where a recorded output ends up.**  Whatever the records say, in the end the position of an
output holds what its own record says, or a hole. -/
theorem txout_of_backAt (hevents : js.map Prod.fst = outs.map .spend)
    (hnodup : (outs.map fun o => o.n.toNat).Nodup) (entry : Option (CCoins G)) {o : COutPoint}
    {u : CTxInUndo G} (hmem : (CoinEvent.spend o, u) ∈ js) :
    (((coinJournal c nHeight).backAt entry js).1.getD {}).out o.n.toNat = u.txout ∨
      ((((coinJournal c nHeight).backAt entry js).1.getD {}).out o.n.toNat).isNull = true := by
  induction outs generalizing js with
  | nil =>
    rw [List.map_nil, List.map_eq_nil_iff] at hevents
    rw [hevents] at hmem
    cases hmem
  | cons o₁ outs ih =>
    cases js with
    | nil => cases hmem
    | cons j js =>
    obtain ⟨e₁, u₁⟩ := j
    rw [List.map_cons, List.map_cons, List.cons.injEq] at hevents
    obtain ⟨he, hevents⟩ := hevents
    obtain rfl : e₁ = .spend o₁ := he
    rw [List.map_cons, List.nodup_cons] at hnodup
    let before := ((coinJournal c nHeight).backAt entry js).1.getD {}
    have hstep : (((coinJournal c nHeight).backAt entry ((CoinEvent.spend o₁, u₁) :: js)).1.getD
        {}) = (before.applyUndo u₁ o₁.n).1 := rfl
    rw [hstep]
    have hcases := before.out_applyUndo_or u₁ o₁.n o.n.toNat
    rcases List.mem_cons.mp hmem with heq | hlater
    · cases heq
      rw [if_pos rfl] at hcases
      exact hcases
    · have hin : o ∈ outs := by
        have hmap : CoinEvent.spend o ∈ js.map Prod.fst := List.mem_map.mpr ⟨_, hlater, rfl⟩
        rw [hevents, List.mem_map] at hmap
        obtain ⟨o', ho', heq⟩ := hmap
        cases heq
        exact ho'
      have hne : o.n.toNat ≠ o₁.n.toNat := fun heq =>
        hnodup.1 (List.mem_map.mpr ⟨o, hin, heq⟩)
      rw [if_neg hne] at hcases
      rcases hcases with hkept | hhole
      · rw [hkept]
        exact ih hevents hnodup.2 hlater
      · exact .inr hhole

end Positions

/-! ## The outputs of a transaction -/

section Created

variable {tx : CTransaction G} {nHeight : Int} {coins : CCoins G}

/-- The outputs that no one could spend. -/
def CTxOut.isCleared (o : CTxOut G) : Bool := !o.hasRangeProof && o.scriptPubKey.isUnspendable

theorem CCoins.clearUnspendable_eq (coins : CCoins G) : coins.clearUnspendable =
    cleanup { coins with vout := coins.vout.map fun o => if o.isCleared then {} else o } := rfl

theorem CCoins.tidy_fromTx (h : ∀ o ∈ tx.vout, o.isNull = false) : (fromTx tx nHeight).Tidy := by
  refine tidy_cleanup fun o ho hnull => ?_
  obtain ⟨o', ho', rfl⟩ := List.mem_map.mp ho
  split at hnull
  · next hcleared =>
    rw [if_pos hcleared]
  · next hkept =>
    rw [h o' ho'] at hnull
    cases hnull

theorem CCoins.isCleared_out_fromTx (tx : CTransaction G) (nHeight : Int) (i : Nat) :
    ((fromTx tx nHeight).out i).isCleared = false := by
  refine (forall_out_iff (P := fun o => o.isCleared = false) rfl).mpr (fun o ho => ?_) i
  have hmap := (List.rdropWhile_prefix CTxOut.isNull _).subset ho
  obtain ⟨o', _, rfl⟩ := List.mem_map.mp hmap
  split
  · rfl
  · next hkept => simpa [CTxOut.isCleared] using hkept

/-- Nothing is cleared of an entry without such outputs. -/
theorem CCoins.Tidy.clearUnspendable_eq_self (h : coins.Tidy)
    (hout : ∀ i, (coins.out i).isCleared = false) : coins.clearUnspendable = coins := by
  have hmap : (coins.vout.map fun o => if o.isCleared then {} else o) = coins.vout := by
    refine (List.map_congr_left fun o ho => ?_).trans (List.map_id _)
    rw [(forall_out_iff (P := fun o => o.isCleared = false) rfl).mp hout o ho]
    rfl
  rw [clearUnspendable_eq, hmap]
  show { coins with vout := coins.vout.rdropWhile CTxOut.isNull } = coins
  rw [h.trimmed]

variable [Zero G] [DecidableEq G]

theorem isEqv_iff_forall₂ {l l' : List (CTxOut G)} :
    l.isEqv l' CTxOut.eq = true ↔ List.Forall₂ (fun o o' => o.eq o' = true) l l' := by
  induction l generalizing l' with
  | nil => cases l' <;> simp [List.isEqv]
  | cons o l ih => cases l' <;> simp [List.isEqv, ih]

theorem getD_of_forall₂ {l l' : List (CTxOut G)}
    (h : List.Forall₂ (fun o o' => o.eq o' = true) l l') (i : Nat) :
    (l.getD i {}).eq (l'.getD i {}) = true := by
  induction h generalizing i with
  | nil => exact CTxOut.eq_self _
  | cons hhead _ ih =>
    cases i with
    | zero => exact hhead
    | succ i => exact ih i

theorem PutBack.forall₂ {coins : CCoins G} (h : PutBack coins coins' back) (htidy : coins.Tidy) :
    List.Forall₂ (fun o o' => o.eq o' = true) back.vout coins.vout :=
  SparseVector.forall₂_of_getD CTxOut.isNull (d := {}) rfl
    (fun _ _ => CTxOut.isNull_of_eq) h.tidy.trimmed htidy.trimmed h.out

/-- **What was put back passes for what the block created.** -/
theorem matchesBlock_of_putBack (htidy : (CCoins.fromTx tx nHeight).Tidy)
    (h : PutBack (CCoins.fromTx tx nHeight) coins' back) : back.matchesBlock tx nHeight = true := by
  have hclear : back.clearUnspendable = back := by
    refine h.tidy.clearUnspendable_eq_self fun i => ?_
    rw [CTxOut.isCleared, CTxOut.cleared_of_eq (h.out i)]
    exact CCoins.isCleared_out_fromTx tx nHeight i
  have hvout := h.forall₂ htidy
  have hversion : (if (CCoins.fromTx tx nHeight).nVersion.toInt < 0 then
      (CCoins.fromTx tx nHeight).nVersion else back.nVersion) =
        (CCoins.fromTx tx nHeight).nVersion := by
    split
    · rfl
    · next hpos =>
      rw [h.nVersion, (varIntBack_eq_iff _).mpr (by omega)]
      split <;> rfl
  simp only [CCoins.matchesBlock, hclear, CCoins.eq, hversion, h.fCoinBase, h.nHeight,
    isEqv_iff_forall₂.mpr hvout, hvout.length_eq, beq_self_eq_true, Bool.and_self, Bool.or_true]

/-- **And only that**: an output that the block created has to compare equal. -/
theorem out_of_matchesBlock (h : coins.matchesBlock tx nHeight = true) {i : Nat}
    (hi : ((CCoins.fromTx tx nHeight).out i).isNull = false) :
    (coins.out i).eq ((CCoins.fromTx tx nHeight).out i) = true := by
  have hlive : (CCoins.fromTx tx nHeight).isPruned = false := CCoins.isPruned_of_out hi
  simp only [CCoins.matchesBlock, CCoins.eq, hlive, Bool.and_false, Bool.false_or,
    Bool.and_eq_true, isEqv_iff_forall₂] at h
  have heq := getD_of_forall₂ h.2.2 i
  rcases SparseVector.getD_rdropWhile_or CTxOut.isNull ({} : CTxOut G)
    (coins.vout.map fun o => if o.isCleared then {} else o) i with hkept | hhole
  · have hout : coins.clearUnspendable.vout.getD i {} =
        (coins.vout.map fun o => if o.isCleared then {} else o).getD i {} := hkept
    rw [hout, List.getD_eq_getElem?_getD, List.getElem?_map] at heq
    rw [CCoins.out, List.getD_eq_getElem?_getD]
    cases ho : coins.vout[i]? with
    | none => rwa [ho] at heq
    | some o =>
      rw [ho] at heq
      simp only [Option.map_some, Option.getD_some] at heq
      split at heq
      · have hnull := CTxOut.isNull_of_eq heq
        rw [← CCoins.out, hi] at hnull
        cases hnull
      · exact heq
  · have hout : coins.clearUnspendable.vout.getD i {} = {} := hhole
    rw [hout] at heq
    have hnull := CTxOut.isNull_of_eq heq
    rw [← CCoins.out, hi] at hnull
    cases hnull

end Created

end Navcoin
