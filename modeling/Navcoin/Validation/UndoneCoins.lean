import Navcoin.Validation.BlockEvents

/-!
# Blocks that are taken back

The coins of a view after a block was connected and disconnected again, with undo data that were
written to a file and read from it.

* `nodup_of_run`: no transaction is twice in a connected block;
* `entry_restored`, `output_of_restored`: one entry of the database;
* `disconnectBlock_restores_coins_iff`: the blocks whose coins are restored.
-/

namespace Navcoin

variable {G : Type}

/-! ## Entries as the chain keeps them -/

/-- Spent outputs are holes, none at the end; amounts, scripts and heights are those of accepted
transactions. -/
structure CCoins.Kept (coins : CCoins G) : Prop where
  tidy : coins.Tidy
  inRange : ∀ i, (coins.out i).isNull = false →
    0 ≤ (coins.out i).nValue ∧ (coins.out i).nValue ≤ maxMoney
  script : ∀ i, (coins.out i).scriptPubKey.length ≤ maxSize
  nHeight : coins.isPruned = false → 0 < coins.nHeight ∧ coins.nHeight < 2 ^ 31

def CStateView.CoinsKept (view : CStateView G) : Prop :=
  ∀ txid coins, view.coins txid = some coins → coins.Kept

/-- The entry that `HaveCoins` sees: one without outputs counts as missing. -/
def liveEntry (entry : Option (CCoins G)) : Option (CCoins G) :=
  entry.filter fun coins => !coins.isPruned

def CStateView.liveCoins (view : CStateView G) (txid : Uint256) : Option (CCoins G) :=
  liveEntry (view.coins txid)

theorem CStateView.liveCoins_eq {view : CStateView G} {m : Uint256 → Option (CCoins G)}
    (h : view.coins = m) : view.liveCoins = fun txid => liveEntry (m txid) := by
  subst h
  rfl

theorem liveEntry_some (coins : CCoins G) :
    liveEntry (some coins) = if coins.isPruned then none else some coins := by
  rw [liveEntry, Option.filter_some]
  cases coins.isPruned <;> rfl

/-- The same outputs, height, version and flags. -/
structure CCoins.Same [Zero G] [DecidableEq G] (a b : CCoins G) : Prop where
  vout : List.Forall₂ (fun o o' => o.eq o' = true) a.vout b.vout
  nHeight : a.nHeight = b.nHeight
  nVersion : a.nVersion = b.nVersion
  fCoinBase : a.fCoinBase = b.fCoinBase
  fCoinStake : a.fCoinStake = b.fCoinStake

/-- The same entries under every txid. -/
def CStateView.SameCoins [Zero G] [DecidableEq G] (a b : CStateView G) : Prop :=
  ∀ txid, Option.Rel CCoins.Same (a.liveCoins txid) (b.liveCoins txid)

/-! ## Transactions on a view without them -/

variable {coins : CCoins G} {o : COutPoint}

section Events

variable {c : Crypto G} {nHeight : Int}
variable {vtx : List (CTransaction G)} {tx : CTransaction G} {js : List (CoinEvent G × CTxInUndo G)}

theorem mem_of_create_mem (h : .create tx ∈ vtx.flatMap CTransaction.coinEvents) : tx ∈ vtx := by
  obtain ⟨tx', htx', hevent⟩ := List.mem_flatMap.mp h
  have heq : tx' = tx := by
    unfold CTransaction.coinEvents at hevent
    split at hevent <;> simp_all
  exact heq ▸ htx'

theorem exists_spends {l : List (CoinEvent G)} (h : ∀ tx, .create tx ∉ l) :
    ∃ outs : List COutPoint, l = outs.map .spend := by
  induction l with
  | nil => exact ⟨[], rfl⟩
  | cons e l ih =>
    obtain ⟨outs, rfl⟩ := ih fun tx hmem => h tx (List.mem_cons_of_mem _ hmem)
    cases e with
    | spend o => exact ⟨o :: outs, rfl⟩
    | create tx => exact absurd List.mem_cons_self (h tx)

theorem isCoinBase_congr {tx' : CTransaction G} (h : tx.vin = tx'.vin) :
    tx.isCoinBase = tx'.isCoinBase := by
  unfold CTransaction.isCoinBase
  rw [h]

/-- An entry has outputs of its transaction, or holes. -/
theorem CCoins.out_fromTx (tx : CTransaction G) (nHeight : Int) (i : Nat) :
    (CCoins.fromTx tx nHeight).out i = {} ∨ (CCoins.fromTx tx nHeight).out i ∈ tx.vout := by
  refine (CCoins.forall_out_iff (P := fun o => o = {} ∨ o ∈ tx.vout) (.inl rfl)).mpr
    (fun o ho => ?_) i
  obtain ⟨o', ho', rfl⟩ := List.mem_map.mp ((List.rdropWhile_prefix CTxOut.isNull _).subset ho)
  split
  · exact .inl rfl
  · exact .inr ho'

theorem CCoins.kept_fromTx
    (hout : ∀ o ∈ tx.vout, (0 ≤ o.nValue ∧ o.nValue ≤ maxMoney) ∧ o.scriptPubKey.length ≤ maxSize)
    (hheight : 0 < nHeight ∧ nHeight < 2 ^ 31) : (CCoins.fromTx tx nHeight).Kept := by
  have hlive : ∀ o ∈ tx.vout, o.isNull = false := fun o ho =>
    CTxOut.isNull_of_nonneg (hout o ho).1.1
  refine ⟨CCoins.tidy_fromTx hlive, fun i hi => ?_, fun i => ?_, fun _ => hheight⟩
  · rcases CCoins.out_fromTx tx nHeight i with hhole | ho
    · rw [hhole] at hi
      cases hi
    · exact (hout _ ho).1
  · rcases CCoins.out_fromTx tx nHeight i with hhole | ho
    · rw [hhole]
      exact Nat.zero_le _
    · exact (hout _ ho).2

theorem CStateView.not_available_of_dead {view : CStateView G} {txid : Uint256}
    (hdead : view.liveCoins txid = none) (hcoins : view.coins txid = some coins) (n : UInt32) :
    coins.isAvailable n = false := by
  rw [liveCoins, hcoins, liveEntry_some] at hdead
  split at hdead
  · next hpruned =>
    rw [CCoins.isAvailable_eq, CCoins.isPruned_iff.mp hpruned]
    rfl
  · cases hdead

variable [Zero G]

/-- The txid that an event creates. -/
def CoinEvent.created (c : Crypto G) : CoinEvent G → Option Uint256
  | .spend _ => none
  | .create tx => some (tx.getHash c)

theorem filterMap_created (c : Crypto G) (vtx : List (CTransaction G)) :
    (vtx.flatMap CTransaction.coinEvents).filterMap (CoinEvent.created c) =
      vtx.map fun tx => tx.getHash c := by
  induction vtx with
  | nil => rfl
  | cons tx vtx ih =>
    have hspends : ∀ vin : List CTxIn,
        (vin.map fun i => CoinEvent.spend i.prevout).filterMap (CoinEvent.created c) = [] := by
      simp [CoinEvent.created, List.filterMap_map, Function.comp_def]
    rw [List.flatMap_cons, List.filterMap_append, ih, CTransaction.coinEvents,
      List.filterMap_append]
    split
    · rfl
    · rw [hspends]
      rfl

/-- Transactions that can be connected to a view: their outputs pass `CheckTransaction`, and no
txid of theirs has unspent outputs. -/
structure FreshTxs (c : Crypto G) (nHeight : Int) (view : CStateView G)
    (vtx : List (CTransaction G)) : Prop where
  kept : view.CoinsKept
  outputs : ∀ tx ∈ vtx, ∀ o ∈ tx.vout,
    (0 ≤ o.nValue ∧ o.nValue ≤ maxMoney) ∧ o.scriptPubKey.length ≤ maxSize
  fresh : ∀ tx ∈ vtx, view.liveCoins (tx.getHash c) = none
  height : 0 < nHeight ∧ nHeight < 2 ^ 31

theorem FreshTxs.of_subset {view : CStateView G} {pre : List (CTransaction G)}
    (h : FreshTxs c nHeight view vtx) (hsub : ∀ tx ∈ pre, tx ∈ vtx) :
    FreshTxs c nHeight view pre :=
  ⟨h.kept, fun tx htx => h.outputs tx (hsub tx htx), fun tx htx => h.fresh tx (hsub tx htx),
    h.height⟩

variable [DecidableEq G]
variable {view : CStateView G} {m : Uint256 → Option (CCoins G)} {txid : Uint256}

/-- What the events of a block have done to one entry. -/
inductive EntryRun (c : Crypto G) (nHeight : Int) (view : CStateView G)
    (m : Uint256 → Option (CCoins G)) (txid : Uint256) (js : List (CoinEvent G × CTxInUndo G)) :
    Prop
  | missing (hview : view.coins txid = none) (hm : m txid = none) (hjs : js = [])
  | spent (coins coins' : CCoins G) (outs : List COutPoint) (hview : view.coins txid = some coins)
      (hm : m txid = some coins') (hkept : coins.Kept)
      (hrun : (coinJournal c nHeight).runAt (some coins) (outs.map .spend) = some (some coins', js))
      (hspent : SpentFrom coins outs coins')
  | created (tx : CTransaction G) (coins' : CCoins G) (outs : List COutPoint)
      (js' : List (CoinEvent G × CTxInUndo G)) (hview : view.liveCoins txid = none)
      (hm : m txid = some coins') (hkept : (CCoins.fromTx tx nHeight).Kept)
      (hjs : js = (.create tx, {}) :: js')
      (hrun : (coinJournal c nHeight).runAt (some (CCoins.fromTx tx nHeight)) (outs.map .spend) =
        some (some coins', js'))
      (hspent : SpentFrom (CCoins.fromTx tx nHeight) outs coins')

/-- The record of an output that was spent. -/
theorem EntryRun.of_spend (h : EntryRun c nHeight view m txid js) {u : CTxInUndo G}
    (hu : (CoinEvent.spend o, u) ∈ js) :
    ∃ start coins' outs, start.Kept ∧ m txid = some coins' ∧ SpentFrom start outs coins' ∧
      o ∈ outs ∧ u.txout = start.out o.n.toNat ∧
      (u.nHeight = 0 ∨ u.nHeight = BitVec.ofInt 32 start.nHeight) := by
  obtain ⟨start, coins', outs, js', hkept, hm, hspent, hrun, hu⟩ : ∃ start coins' outs js',
      start.Kept ∧ m txid = some coins' ∧ SpentFrom start outs coins' ∧
      (coinJournal c nHeight).runAt (some start) (outs.map .spend) = some (some coins', js') ∧
      (CoinEvent.spend o, u) ∈ js' := by
    cases h with
    | missing hview hm hjs =>
      rw [hjs] at hu
      cases hu
    | spent start coins' outs hview hm hkept hrun hspent =>
      exact ⟨start, coins', outs, js, hkept, hm, hspent, hrun, hu⟩
    | created tx coins' outs js' hview hm hkept hjs hrun hspent =>
      rw [hjs] at hu
      rcases List.mem_cons.mp hu with heq | hu
      · cases heq
      · exact ⟨_, coins', outs, js', hkept, hm, hspent, hrun, hu⟩
  obtain ⟨_, _, _, hrecords⟩ := spentFrom_of_runAt hkept.tidy hrun
  obtain ⟨o', ho', heq, hrest⟩ := hrecords _ hu
  cases heq
  exact ⟨start, coins', outs, hkept, hm, hspent, ho', hrest⟩

section Fresh

variable (hvtx : FreshTxs c nHeight view vtx) (hnodup : (vtx.map fun tx => tx.getHash c).Nodup)
  (hrun : (coinJournal c nHeight).run view.coins (vtx.flatMap CTransaction.coinEvents) =
    some (m, js))
include hvtx hnodup hrun

/-- **The events of one entry**: outputs of an entry of the view are spent, or the entry of a
transaction of the block is created and some of its outputs are spent. -/
theorem eventsAt_cases (txid : Uint256) :
    (∃ outs : List COutPoint, (coinJournal c nHeight).eventsAt txid
      (vtx.flatMap CTransaction.coinEvents) = outs.map .spend) ∨
    ∃ tx ∈ vtx, ∃ outs : List COutPoint, tx.getHash c = txid ∧
      (coinJournal c nHeight).eventsAt txid (vtx.flatMap CTransaction.coinEvents) =
        .create tx :: outs.map .spend := by
  let l := (coinJournal c nHeight).eventsAt txid (vtx.flatMap CTransaction.coinEvents)
  have hcreate : ∀ tx, CoinEvent.create tx ∈ l → tx ∈ vtx ∧ tx.getHash c = txid := by
    intro tx htx
    obtain ⟨hmem, hkey⟩ := List.mem_filter.mp htx
    exact ⟨mem_of_create_mem hmem, of_decide_eq_true hkey⟩
  by_cases hsome : ∃ tx, .create tx ∈ l
  · right
    obtain ⟨tx, htx⟩ := hsome
    have hdead : view.liveCoins txid = none := by
      rw [← (hcreate tx htx).2]
      exact hvtx.fresh tx (hcreate tx htx).1
    have hat : (coinJournal c nHeight).runAt (view.coins txid) l =
        some (m txid, (coinJournal c nHeight).recordsAt txid js) := Journal.run_at hrun txid
    have hones : (l.filterMap (CoinEvent.created c)).Nodup := by
      refine List.Nodup.sublist (List.Sublist.filterMap _ List.filter_sublist) ?_
      rw [filterMap_created]
      exact hnodup
    cases hl : l with
    | nil =>
      rw [hl] at htx
      cases htx
    | cons e l' =>
      rw [hl] at hat hones
      obtain ⟨entry, u, js', happly, _, _⟩ := Journal.runAt_cons_eq_some hat
      cases e with
      | spend o =>
        obtain ⟨coins, hcoins, havail, _⟩ := spend_eq_some happly
        rw [CStateView.not_available_of_dead hdead hcoins] at havail
        cases havail
      | create tx' =>
        obtain ⟨htx', hid'⟩ := hcreate tx' (hl ▸ List.mem_cons_self)
        obtain ⟨outs, rfl⟩ : ∃ outs : List COutPoint, l' = outs.map .spend := by
          refine exists_spends fun tx₂ htx₂ => ?_
          have hid₂ := (hcreate tx₂ (hl ▸ List.mem_cons_of_mem _ htx₂)).2
          refine (List.nodup_cons.mp hones).1 (List.mem_filterMap.mpr ⟨_, htx₂, ?_⟩)
          show some (tx₂.getHash c) = some (tx'.getHash c)
          rw [hid₂, hid']
        exact ⟨tx', htx', outs, hid', hl⟩
  · left
    exact exists_spends fun tx htx => hsome ⟨tx, htx⟩

theorem entryRun (txid : Uint256) :
    EntryRun c nHeight view m txid ((coinJournal c nHeight).recordsAt txid js) := by
  have hat := Journal.run_at hrun txid
  rcases eventsAt_cases hvtx hnodup hrun txid with ⟨outs, hevents⟩ | ⟨tx, htx, outs, hid, hevents⟩
  · rw [hevents] at hat
    cases hview : view.coins txid with
    | none =>
      rw [hview] at hat
      cases outs with
      | nil =>
        simp only [List.map_nil, Journal.runAt, Option.some.injEq, Prod.mk.injEq] at hat
        exact .missing hview hat.1.symm hat.2.symm
      | cons o outs =>
        obtain ⟨_, _, _, happly, _⟩ := Journal.runAt_cons_eq_some hat
        obtain ⟨_, hsome, _⟩ := spend_eq_some happly
        cases hsome
    | some coins =>
      rw [hview] at hat
      have hkept := hvtx.kept txid coins hview
      obtain ⟨coins', hm, hspent, _⟩ := spentFrom_of_runAt hkept.tidy hat
      rw [hm] at hat
      exact .spent coins coins' outs hview hm hkept hat hspent
  · rw [hevents] at hat
    have hdead := hvtx.fresh tx htx
    rw [hid] at hdead
    obtain ⟨entry, u, js', happly, hrest, hjs⟩ := Journal.runAt_cons_eq_some hat
    cases happly
    have hkept := CCoins.kept_fromTx (hvtx.outputs tx htx) hvtx.height
    obtain ⟨coins', hm, hspent, _⟩ := spentFrom_of_runAt hkept.tidy hrest
    rw [hm] at hrest
    exact .created tx coins' outs js' hdead hm hkept hjs hrest hspent

/-- What was spent is not there any more. -/
theorem not_available_of_spent (ho : .spend o ∈ vtx.flatMap CTransaction.coinEvents)
    (hcoins : m o.hash = some coins) : coins.isAvailable o.n = false := by
  have hevent : CoinEvent.spend o ∈
      ((coinJournal c nHeight).recordsAt o.hash js).map Prod.fst := by
    rw [Journal.map_fst_recordsAt, Journal.map_fst_of_run hrun]
    exact List.mem_filter.mpr ⟨ho, decide_eq_true rfl⟩
  obtain ⟨⟨_, u⟩, hu, rfl⟩ := List.mem_map.mp hevent
  obtain ⟨start, coins', outs, _, hm, hspent, hmem, _⟩ :=
    (entryRun hvtx hnodup hrun o.hash).of_spend hu
  rw [hcoins] at hm
  cases hm
  rw [CCoins.isAvailable_eq, hspent.out, if_pos ⟨o, hmem, rfl⟩]
  rfl

end Fresh

/-! ## No transaction twice -/

/-- **No transaction is twice in a block**: the second one would spend what the first has spent. -/
theorem nodup_of_run {coinbase : CTransaction G}
    {rest : List (CTransaction G)} (hvtx : FreshTxs c nHeight view (coinbase :: rest))
    (hrest : ∀ tx ∈ rest, tx.isCoinBase = false ∧ tx.vin ≠ [])
    (hids : ∀ tx ∈ coinbase :: rest, ∀ tx' ∈ coinbase :: rest,
      tx.getHash c = tx'.getHash c → tx.vin = tx'.vin) {m : Uint256 → Option (CCoins G)}
    (hrun : (coinJournal c nHeight).run view.coins
      ((coinbase :: rest).flatMap CTransaction.coinEvents) = some (m, js)) :
    ((coinbase :: rest).map fun tx => tx.getHash c).Nodup := by
  -- the transactions before the next one have different txids
  have hloop : ∀ post pre, rest = pre ++ post →
      ((coinbase :: pre).map fun tx => tx.getHash c).Nodup →
        ((coinbase :: rest).map fun tx => tx.getHash c).Nodup := by
    intro post
    induction post with
    | nil =>
      intro pre hsplit hnodup
      rw [hsplit, List.append_nil]
      exact hnodup
    | cons tx post ih =>
      intro pre hsplit hnodup
      have hmem : ∀ tx' ∈ coinbase :: pre, tx' ∈ coinbase :: rest := by
        intro tx' htx'
        rw [hsplit]
        exact List.mem_append_left _ htx'
      have htx : tx ∈ rest := by simp [hsplit]
      refine ih (pre ++ [tx]) (by simp [hsplit]) ?_
      rw [← List.cons_append, List.map_append, List.nodup_append]
      refine ⟨hnodup, List.nodup_singleton _, ?_⟩
      rintro id hid id' hid' rfl
      obtain ⟨tx', htx', rfl⟩ := List.mem_map.mp hid
      have hsame : tx'.vin = tx.vin := hids tx' (hmem tx' htx') tx (List.mem_cons_of_mem _ htx)
        (List.mem_singleton.mp hid')
      obtain ⟨hcb, hvin⟩ := hrest tx htx
      have hcb' : tx'.isCoinBase = false := by rw [isCoinBase_congr hsame, hcb]
      obtain ⟨i, vin, hi⟩ := List.exists_cons_of_ne_nil hvin
      -- the first input of the second one
      rw [hsplit, ← List.cons_append, List.flatMap_append, Journal.run_append] at hrun
      obtain ⟨⟨m₁, js₁⟩, hpre, hpost⟩ := Option.bind_eq_some_iff.mp hrun
      obtain ⟨⟨m₂, js₂⟩, hnext, _⟩ := Option.map_eq_some_iff.mp hpost
      rw [List.flatMap_cons, CTransaction.coinEvents, hcb, hi] at hnext
      obtain ⟨entry, u, _, happly, _⟩ := Journal.run_cons_eq_some hnext
      obtain ⟨coins, hcoins, havail, _⟩ := spend_eq_some happly
      have hspent : CoinEvent.spend i.prevout ∈
          (coinbase :: pre).flatMap CTransaction.coinEvents := by
        refine List.mem_flatMap.mpr ⟨tx', htx', ?_⟩
        simp [CTransaction.coinEvents, hcb', hsame, hi]
      rw [not_available_of_spent (hvtx.of_subset hmem) hnodup hpre hspent hcoins] at havail
      cases havail
  exact hloop rest [] rfl (List.nodup_singleton _)

/-! ## One entry -/

/-- What an emptied entry may not be, to come back as it was. -/
def CCoins.Recorded (coins : CCoins G) : Prop :=
  coins.fCoinStake = false ∧ 0 ≤ coins.nVersion.toInt

theorem same_iff_of_putBack {coins' back : CCoins G} (hkept : coins.Kept)
    (h : PutBack coins coins' back) :
    back.Same coins ↔ (coins.emptiedTo coins' = true → coins.Recorded) := by
  have hvout := h.forall₂ hkept.tidy
  constructor
  · intro hsame hemptied
    have hstake := h.fCoinStake
    have hversion := h.nVersion
    rw [if_pos hemptied] at hstake hversion
    refine ⟨by rw [← hsame.fCoinStake, hstake], (varIntBack_eq_iff _).mp ?_⟩
    rw [← hversion, hsame.nVersion]
  · intro hrec
    have hstake := h.fCoinStake
    have hversion := h.nVersion
    cases hemptied : coins.emptiedTo coins' with
    | false =>
      rw [hemptied] at hstake hversion
      exact ⟨hvout, h.nHeight, hversion, h.fCoinBase, hstake⟩
    | true =>
      obtain ⟨hfalse, hpos⟩ := hrec hemptied
      rw [if_pos hemptied] at hstake hversion
      refine ⟨hvout, h.nHeight, ?_, h.fCoinBase, by rw [hstake, hfalse]⟩
      rw [hversion, (varIntBack_eq_iff _).mpr hpos]

/-- **An entry is taken back.**  Nothing is reported, and the entry is the one of the view, unless
the block emptied it and the records could not hold its flag or version. -/
theorem entry_restored
    {js' : List (CoinEvent G × CTxInUndo G)} (h : EntryRun c nHeight view m txid js)
    (hjs : List.Forall₂ EventBack js js') :
    ((coinJournal c nHeight).backAt (m txid) js').2 = true ∧
      (Option.Rel CCoins.Same (liveEntry ((coinJournal c nHeight).backAt (m txid) js').1)
          (view.liveCoins txid) ↔
        ∀ coins, view.liveCoins txid = some coins → liveEntry (m txid) = none →
          coins.Recorded) := by
  cases h with
  | missing hview hm hnil =>
    subst hnil
    cases hjs
    rw [hm, CStateView.liveCoins, hview]
    exact ⟨rfl, iff_of_true .none (fun _ hnone => by cases hnone)⟩
  | spent coins coins' outs hview hm hkept hrun hspent =>
    obtain ⟨back, hback, hput⟩ := backAt_spends hkept.tidy hkept.nHeight hrun hjs
    rw [hm, hback, CStateView.liveCoins, hview]
    refine ⟨rfl, ?_⟩
    simp only [liveEntry_some, hput.isPruned]
    cases hpruned : coins.isPruned with
    | true => exact iff_of_true .none (fun _ hnone => by cases hnone)
    | false =>
      simp only [Bool.false_eq_true, if_false, Option.rel_some_some, Option.some.injEq,
        forall_eq', same_iff_of_putBack hkept hput, CCoins.emptiedTo, hpruned]
      cases coins'.isPruned <;> simp
  | created tx coins' outs js₁ hview hm hkept hcons hrun hspent =>
    subst hcons
    cases hjs with
    | cons hhead htail =>
    obtain ⟨back, hback, hput⟩ := backAt_spends hkept.tidy hkept.nHeight hrun htail
    rw [hm, Journal.backAt, hback, hhead.1, hview]
    refine ⟨?_, iff_of_true .none (fun _ hnone => by cases hnone)⟩
    exact matchesBlock_of_putBack hkept.tidy hput

/-- The records of an entry can be written, but for their outputs. -/
theorem record_fits (h : EntryRun c nHeight view m txid js) {u : CTxInUndo G}
    (hu : (CoinEvent.spend o, u) ∈ js) :
    u.nHeight.toNat < 2 ^ 31 ∧ (0 ≤ u.txout.nValue ∧ u.txout.nValue ≤ maxMoney) ∧
      u.txout.scriptPubKey.length ≤ maxSize := by
  obtain ⟨start, coins', outs, hkept, _, hspent, ho, htxout, hheight⟩ := h.of_spend hu
  have hlive := hspent.available o ho
  rw [htxout]
  refine ⟨?_, hkept.inRange _ hlive, hkept.script _⟩
  rcases hheight with hzero | hsome
  · rw [hzero]
    decide
  · rw [hsome]
    exact (toInt_ofInt_height (hkept.nHeight (CCoins.isPruned_of_out hlive))).2.2

/-- **Only equal outputs restore an entry**, whatever the records say otherwise. -/
theorem output_of_restored
    {js' : List (CoinEvent G × CTxInUndo G)} (h : EntryRun c nHeight view m txid js)
    (hevents : js'.map Prod.fst = js.map Prod.fst)
    (hclean : ((coinJournal c nHeight).backAt (m txid) js').2 = true)
    (hsame : Option.Rel CCoins.Same (liveEntry ((coinJournal c nHeight).backAt (m txid) js').1)
      (view.liveCoins txid)) {u u' : CTxInUndo G} (hu : (CoinEvent.spend o, u) ∈ js)
    (hu' : (CoinEvent.spend o, u') ∈ js') : u'.txout.eq u.txout = true := by
  -- where an entry `back` agrees with the start of the run, the record agrees
  have hagree : ∀ {start coins' back : CCoins G} {outs : List COutPoint}
      {js js' : List (CoinEvent G × CTxInUndo G)}, start.Kept →
      (coinJournal c nHeight).runAt (some start) (outs.map .spend) = some (some coins', js) →
      js'.map Prod.fst = outs.map .spend →
      ((coinJournal c nHeight).backAt (some coins') js').1.getD {} = back →
      (∀ i, (start.out i).isNull = false → (back.out i).eq (start.out i) = true) →
      (CoinEvent.spend o, u) ∈ js → (CoinEvent.spend o, u') ∈ js' →
        u'.txout.eq u.txout = true := by
    intro start coins' back outs js js' hkept hrun hevents hback heq hu hu'
    obtain ⟨_, _, hspent, hrecords⟩ := spentFrom_of_runAt hkept.tidy hrun
    obtain ⟨o', ho', hevent, htxout, _⟩ := hrecords _ hu
    cases hevent
    have hlive := hspent.available o ho'
    have hpos := heq o.n.toNat hlive
    rw [htxout]
    rcases txout_of_backAt hevents hspent.nodup (some coins') hu' with hsame | hhole
    · rw [hback] at hsame
      rwa [← hsame]
    · rw [hback, CTxOut.isNull_of_eq hpos, hlive] at hhole
      cases hhole
  cases h with
  | missing hview hm hnil =>
    rw [hnil] at hu
    cases hu
  | spent coins coins' outs hview hm hkept hrun hspent =>
    rw [Journal.map_fst_of_runAt hrun] at hevents
    rw [hm] at hsame
    refine hagree hkept hrun hevents rfl (fun i hi => ?_) hu hu'
    have hlive : coins.isPruned = false := CCoins.isPruned_of_out hi
    rw [CStateView.liveCoins, hview, liveEntry_some, hlive] at hsame
    cases hback : ((coinJournal c nHeight).backAt (some coins') js').1 with
    | none =>
      rw [hback] at hsame
      cases hsame
    | some back =>
      rw [hback, liveEntry_some] at hsame
      split at hsame
      · cases hsame
      · cases hsame with
        | some hsame => exact getD_of_forall₂ hsame.vout i
  | created tx coins' outs js₁ hview hm hkept hcons hrun hspent =>
    subst hcons
    cases js' with
    | nil => cases hu'
    | cons j' js₁' =>
    obtain ⟨e', v'⟩ := j'
    rw [List.map_cons, List.map_cons, List.cons.injEq, Journal.map_fst_of_runAt hrun] at hevents
    obtain ⟨he, hevents⟩ := hevents
    obtain rfl : e' = .create tx := he
    rw [hm, Journal.backAt, Bool.and_eq_true] at hclean
    rcases List.mem_cons.mp hu with heq | hu
    · cases heq
    rcases List.mem_cons.mp hu' with heq | hu'
    · cases heq
    exact hagree hkept hrun hevents rfl (fun i hi => out_of_matchesBlock hclean.2 hi) hu hu'

end Events

/-! ## A block -/

section Block

/-- The outputs of a transaction that passed `CheckTransaction`. -/
theorem TxOk.outputs_fit [Zero G] {nd : Node G} {tx : CTransaction G} (h : TxOk nd tx) :
    ∀ o ∈ tx.vout, (0 ≤ o.nValue ∧ o.nValue ≤ maxMoney) ∧ o.scriptPubKey.length ≤ maxSize := by
  intro o ho
  refine ⟨(h.outputs o ho).inRange, ?_⟩
  exact (tx.script_length_le_serialize nd.toCrypto ho).trans (h.size.trans (by decide))

variable [G1Group G] [DecidableEq G]

/-- A connected block, its undo data and the run of its events. -/
structure UndoneRun (nd : ChainNode G) (block : CBlock G) (pindex : CBlockIndex)
    (view : CStateView G) (m : Uint256 → Option (CCoins G)) (undo : CBlockUndo G) : Prop where
  vtx : ∃ coinbase rest, block.vtx = coinbase :: rest ∧ coinbase.isCoinBase = true ∧
    ∀ tx ∈ rest, tx.isCoinBase = false
  fits : block.UndoFits undo
  sizes : undo.SizesFit
  entry : ∀ txid, EntryRun nd.toCrypto pindex.nHeight view m txid
    ((coinJournal nd.toCrypto pindex.nHeight).recordsAt txid
      ((block.withUndo undo).flatMap recordedEvents))

/-- The run of a connected block. -/
theorem undoneRun_of_connect {nd : ChainNode G} {block : CBlock G} {pindex : CBlockIndex}
    {view view' : CStateView G} {undo : CBlockUndo G}
    {fCheckMerkleRoot fCheckSig fScripts : Bool}
    (hcheck : checkBlock nd.toBlockNode { block with fChecked := false } fCheckMerkleRoot fCheckSig
      fScripts = .ok ())
    (hview : view.CoinsKept) (hheight : 0 < pindex.nHeight ∧ pindex.nHeight < 2 ^ 31)
    (hfresh : ∀ tx ∈ block.vtx, view.liveCoins (tx.getHash nd.toCrypto) = none)
    (hids : ∀ tx ∈ block.vtx, ∀ tx' ∈ block.vtx,
      tx.getHash nd.toCrypto = tx'.getHash nd.toCrypto → tx.vin = tx'.vin)
    (hupdate : view.updateBlockCoins nd.toCrypto pindex.nHeight block.vtx = some (view', undo)) :
    view' = view.withCoins view'.coins ∧ UndoneRun nd block pindex view view'.coins undo := by
  have hok := checkBlock_ok rfl hcheck
  have hlength := checkBlock_length rfl hcheck
  have htxs : ∀ tx ∈ block.vtx, TxOk nd.toNode tx := hok.txs
  obtain ⟨coinbase, rest, hvtx, hcoinbase, hrest⟩ : ∃ coinbase rest,
      block.vtx = coinbase :: rest ∧ coinbase.isCoinBase = true ∧
        ∀ tx ∈ rest, tx.isCoinBase = false := hok.coinBases
  obtain ⟨hframe, hfits, hrun⟩ := run_of_updateBlockCoins _ _ hvtx hcoinbase hrest hupdate
  have hsize : ∀ tx ∈ block.vtx, (tx.serialize nd.toCrypto).length ≤ maxSize := fun tx htx =>
    (htxs tx htx).size.trans (by decide)
  have hvtxs : FreshTxs nd.toCrypto pindex.nHeight view block.vtx :=
    ⟨hview, fun tx htx => (htxs tx htx).outputs_fit, hfresh, hheight⟩
  have hnodup : (block.vtx.map fun tx => tx.getHash nd.toCrypto).Nodup := by
    rw [hvtx] at hvtxs hids hrun htxs ⊢
    exact nodup_of_run hvtxs (fun tx htx => ⟨hrest tx htx,
      (htxs tx (List.mem_cons_of_mem _ htx)).vin⟩) hids hrun
  have hfits' := hfits
  unfold CBlock.UndoFits at hfits'
  rw [hvtx, List.tail_cons] at hfits'
  refine ⟨hframe, ⟨coinbase, rest, hvtx, hcoinbase, hrest⟩, hfits, ⟨?_, fun t ht => ?_⟩,
    fun txid => entryRun hvtxs hnodup hrun txid⟩
  · simp only [hvtx, List.length_cons] at hlength
    rw [← hfits'.length_eq]
    exact le_trans (by omega) (le_trans hlength (by decide))
  · obtain ⟨i, hi, rfl⟩ := List.getElem_of_mem ht
    have hi' : i < rest.length := hfits'.length_eq ▸ hi
    have hlen : undo.vtxundo[i].vprevout.length = rest[i].vin.length := hfits'.get hi' hi
    have htx : rest[i] ∈ block.vtx := by
      rw [hvtx]
      exact List.mem_cons_of_mem _ (List.getElem_mem hi')
    rw [hlen]
    exact (rest[i].vin_length_le_serialize nd.toCrypto).trans (hsize _ htx)

variable {nd : ChainNode G} {k : PubKeys} {block : CBlock G} {pindex pprev : CBlockIndex}
  {view : CStateView G} {m : Uint256 → Option (CCoins G)} {undo undo' : CBlockUndo G}

section Undone

variable (h : UndoneRun nd block pindex view m undo)
include h

theorem UndoneRun.record_fits :
    ∀ t ∈ undo.vtxundo, ∀ u ∈ t.vprevout, u.nHeight.toNat < 2 ^ 31 ∧
      (0 ≤ u.txout.nValue ∧ u.txout.nValue ≤ maxMoney) ∧
      u.txout.scriptPubKey.length ≤ maxSize := by
  obtain ⟨coinbase, rest, hvtx, _⟩ := h.vtx
  refine forall_record hvtx h.fits fun o u hu => ?_
  exact Navcoin.record_fits (h.entry o.hash) (List.mem_filter.mpr ⟨hu, decide_eq_true rfl⟩)

/-- The coins after records that were read back. -/
theorem UndoneRun.back (hrel : undo.Related CTxInUndo.ReadBack undo') :
    ((coinJournal nd.toCrypto pindex.nHeight).back m
        ((block.withUndo undo').flatMap recordedEvents)).2 = true ∧
      ((∀ txid, Option.Rel CCoins.Same (liveEntry (((coinJournal nd.toCrypto pindex.nHeight).back m
          ((block.withUndo undo').flatMap recordedEvents)).1 txid)) (view.liveCoins txid)) ↔
        ∀ txid coins, view.liveCoins txid = some coins → liveEntry (m txid) = none →
          coins.Recorded) := by
  obtain ⟨coinbase, rest, hvtx, _⟩ := h.vtx
  have hentry := fun txid => entry_restored (h.entry txid)
    (Journal.forall₂_recordsAt (fun _ _ hj => hj.1) (eventBack_of_related hvtx hrel) txid)
  refine ⟨(Journal.back_clean_iff ..).mpr fun txid => (hentry txid).1, ?_⟩
  refine forall_congr' fun txid => ?_
  rw [Journal.back_at]
  exact (hentry txid).2

/-- The outputs of records that restore every entry. -/
theorem UndoneRun.sameOutputs (hfits : block.UndoFits undo')
    (hclean : ((coinJournal nd.toCrypto pindex.nHeight).back m
      ((block.withUndo undo').flatMap recordedEvents)).2 = true)
    (hsame : ∀ txid, Option.Rel CCoins.Same (liveEntry (((coinJournal nd.toCrypto
      pindex.nHeight).back m ((block.withUndo undo').flatMap recordedEvents)).1 txid))
        (view.liveCoins txid)) :
    undo.Related (fun u u' => u'.txout.eq u.txout = true) undo' := by
  obtain ⟨coinbase, rest, hvtx, hcoinbase, hrest⟩ := h.vtx
  refine related_of_recorded hvtx h.fits hfits fun o u u' hu hu' => ?_
  have hrestored := hsame o.hash
  rw [Journal.back_at] at hrestored
  refine output_of_restored (h.entry o.hash) ?_ ((Journal.back_clean_iff ..).mp hclean o.hash)
    hrestored (List.mem_filter.mpr ⟨hu, decide_eq_true rfl⟩)
    (List.mem_filter.mpr ⟨hu', decide_eq_true rfl⟩)
  rw [Journal.map_fst_recordsAt, Journal.map_fst_recordsAt,
    map_fst_recordedEvents hvtx hcoinbase hrest hfits,
    map_fst_recordedEvents hvtx hcoinbase hrest h.fits]

end Undone

/-- **The coins of a block that is taken back.**  After a block was connected, `DisconnectBlock`
with the undo data from disk succeeds, reports nothing and restores the coins of the view before
the block exactly when its objects and programs can be undone, every output that the block spent
survives the format of the file, and no entry that the block emptied was of a coinstake or had a
negative version. -/
theorem disconnectBlock_restores_coins_iff (hc : nd.toCrypto.EncodesElements) (hk : k.Lawful)
    {prev : Supply} {fScriptChecks fJustCheck : Bool} {r : Connected G}
    (hgenesis : block.hash ≠ nd.hashGenesisBlock)
    (hconnect : (connectBlock nd block pindex pprev prev view fScriptChecks fJustCheck).result =
      .ok r)
    {fCheckMerkleRoot fCheckSig fScripts : Bool}
    (hcheck : checkBlock nd.toBlockNode { block with fChecked := false } fCheckMerkleRoot fCheckSig
      fScripts = .ok ())
    (hview : view.CoinsKept) (hheight : 0 < pindex.nHeight ∧ pindex.nHeight < 2 ^ 31)
    (hfresh : ∀ tx ∈ block.vtx, view.liveCoins (tx.getHash nd.toCrypto) = none)
    (hids : ∀ tx ∈ block.vtx, ∀ tx' ∈ block.vtx,
      tx.getHash nd.toCrypto = tx'.getHash nd.toCrypto → tx.vin = tx'.vin) :
    ∃ undo, view.updateBlockCoins nd.toCrypto pindex.nHeight block.vtx =
        some (view.withCoins r.locals.view.coins, undo) ∧
      ∀ (after : CStateView G) (records : VoteRecords) (tail : Bytes),
        after.coins = r.locals.view.coins →
        ((∃ restored, disconnectBlock nd k records block pindex pprev
              (undoWriteToDisk nd.toCrypto k undo pprev.hashBlock ++ tail) after =
                .ok (restored, true) ∧ restored.SameCoins view) ↔
          (∃ w, undoPrograms nd block pindex pprev block.vtx after = .ok w) ∧
          (∀ t ∈ undo.vtxundo, ∀ u ∈ t.vprevout,
            CTxOutCompressor.Survives nd.toCrypto k u.txout) ∧
          ∀ txid coins, view.liveCoins txid = some coins → after.liveCoins txid = none →
            coins.fCoinStake = false ∧ 0 ≤ coins.nVersion.toInt) := by
  obtain ⟨view', undo, hupdate, hcoins⟩ := connectBlock_coins hgenesis hconnect
  obtain ⟨hframe, hrun⟩ := undoneRun_of_connect hcheck hview hheight hfresh hids hupdate
  rw [hcoins] at hframe hrun
  refine ⟨undo, by rw [hupdate, ← hframe], fun after records tail hafter => ?_⟩
  obtain ⟨coinbase, rest, hvtx, _⟩ := hrun.vtx
  unfold disconnectBlock
  constructor
  · rintro ⟨restored, hdisconnect, hsame⟩
    split at hdisconnect
    · cases hdisconnect
    · next undo' hread =>
      obtain ⟨hfits, w, hw, heq⟩ := (disconnectWith_ok_iff hvtx).mp hdisconnect
      rw [hafter, Prod.mk.injEq] at heq
      obtain ⟨rfl, hclean⟩ := heq
      have hsurvives := CBlockUndo.survives_of_sameOutputs hc hk hrun.sizes hrun.record_fits hread
        (hrun.sameOutputs hfits hclean.symm hsame)
      -- so the file holds the records themselves
      obtain ⟨undo₁, hrel, hread₁⟩ := CBlockUndo.readBack_of_writable hrun.sizes
        (fun t ht u hu => ⟨(hrun.record_fits t ht u hu).1, hsurvives t ht u hu⟩) pprev.hashBlock
      rw [hread₁] at hread
      cases hread
      refine ⟨⟨w, hw⟩, hsurvives, ?_⟩
      rw [CStateView.liveCoins_eq hafter]
      exact (hrun.back hrel).2.mp hsame
  · rintro ⟨⟨w, hw⟩, hsurvives, hrecorded⟩
    obtain ⟨undo', hrel, hread⟩ := CBlockUndo.readBack_of_writable hrun.sizes
      (fun t ht u hu => ⟨(hrun.record_fits t ht u hu).1, hsurvives t ht u hu⟩) pprev.hashBlock
    obtain ⟨hclean, hiff⟩ := hrun.back hrel
    have hdisconnect : disconnectWith nd records block pindex pprev undo' after = .ok _ :=
      (disconnectWith_ok_iff hvtx).mpr ⟨hrun.fits.of_related hrel, w, hw, rfl⟩
    rw [hafter, hclean] at hdisconnect
    rw [CStateView.liveCoins_eq hafter] at hrecorded
    rw [hread]
    exact ⟨_, hdisconnect, hiff.mpr hrecorded⟩

end Block

/-! ## A spent coinstake -/

namespace SpentStake

abbrev nd : ChainNode (ZMod groupOrder) := fixedChain true noDeployments

/-- A coinstake: its first output is empty. -/
def stake : CTransaction (ZMod groupOrder) :=
  { vin := [coinInput 1], vout := [{ nValue := 0 }, navOutput 5] }

/-- Another transaction with as many outputs. -/
def payment : CTransaction (ZMod groupOrder) :=
  { vin := [coinInput 1], vout := [navOutput 2, navOutput 5] }

/-- A view with the outputs of a transaction, under the txid one. -/
def viewOf (tx : CTransaction (ZMod groupOrder)) : CStateView (ZMod groupOrder) :=
  { coins := fun txid => if txid = 1 then some (CCoins.fromTx tx 1) else none }

/-- A block at height one hundred that spends both outputs. -/
def block : CBlock (ZMod groupOrder) :=
  { hash := 2,
    vtx := [coinbaseOf [navOutput 0] [],
      { nTime := 7, vin := [coinInput 0, coinInput 1], vout := [navOutput 5] }] }

theorem coinsKept_viewOf {tx : CTransaction (ZMod groupOrder)}
    (hout : ∀ o ∈ tx.vout, (0 ≤ o.nValue ∧ o.nValue ≤ maxMoney) ∧
      o.scriptPubKey.length ≤ maxSize) : (viewOf tx).CoinsKept := by
  intro txid coins hcoins
  unfold viewOf at hcoins
  simp only at hcoins
  split at hcoins
  · cases hcoins
    exact CCoins.kept_fromTx hout (by decide)
  · cases hcoins

theorem survives_navOutput {nValue : Int} (h : 0 ≤ nValue ∧ nValue ≤ 5) :
    CTxOutCompressor.Survives nd.toCrypto parityKeys (navOutput nValue) := by
  have hscript : (navOutput nValue).scriptPubKey.length ≤ maxScriptSize := by
    show 1 ≤ maxScriptSize
    decide
  refine (CTxOutCompressor.survives_public_iff parityKeys_lawful ?_ hscript rfl rfl).mpr
    ⟨?_, rfl, rfl⟩
  · exact ⟨h.1, le_trans h.2 (by decide)⟩
  · show nValue ≠ _
    omega

/-- The outputs of a payment come back. -/
theorem disconnectBlock_restores_coins_payment :
    ∃ r undo restored,
      (connectBlock nd block (fixedIndex 100) (fixedIndex 99) {} (viewOf payment) true false).result
        = .ok r ∧
      (viewOf payment).updateBlockCoins nd.toCrypto 100 block.vtx =
        some ((viewOf payment).withCoins r.locals.view.coins, undo) ∧
      disconnectBlock nd parityKeys (fun _ => {}) block (fixedIndex 100) (fixedIndex 99)
        (undoWriteToDisk nd.toCrypto parityKeys undo 99) r.locals.view = .ok (restored, true) ∧
      restored.SameCoins (viewOf payment) := by
  obtain ⟨r, hr, hprograms⟩ := Except.exists_of_map_eq_ok
    (f := fun r => (undoPrograms nd block (fixedIndex 100) (fixedIndex 99) block.vtx
      r.locals.view).isOk)
    (show (connectBlock nd block (fixedIndex 100) (fixedIndex 99) {} (viewOf payment) true
      false).result.map _ = .ok true by decide +kernel)
  have hrecords : ((viewOf payment).updateBlockCoins nd.toCrypto 100 block.vtx).map
      (fun p => p.2.vtxundo.map fun t => t.vprevout.map CTxInUndo.txout) =
        some [[navOutput 2, navOutput 5]] := by decide +kernel
  have hcheck : checkBlock nd.toBlockNode { block with fChecked := false } true true true =
    .ok () := by decide +kernel
  obtain ⟨undo, hundo, hall⟩ := disconnectBlock_restores_coins_iff (fixedBls_encodesElements true)
    parityKeys_lawful (by decide) hr hcheck (coinsKept_viewOf (by decide)) (by decide)
    (by decide +kernel) (by decide +kernel)
  have hundo' : (viewOf payment).updateBlockCoins nd.toCrypto 100 block.vtx =
    some ((viewOf payment).withCoins r.locals.view.coins, undo) := hundo
  rw [hundo', Option.map_some, Option.some.injEq] at hrecords
  have hsurvives : ∀ t ∈ undo.vtxundo, ∀ u ∈ t.vprevout,
      CTxOutCompressor.Survives nd.toCrypto parityKeys u.txout := by
    intro t ht u hu
    have houts : t.vprevout.map CTxInUndo.txout ∈ [[navOutput 2, navOutput 5]] :=
      hrecords ▸ List.mem_map.mpr ⟨t, ht, rfl⟩
    have hout : u.txout ∈ [navOutput 2, navOutput 5] :=
      List.mem_singleton.mp houts ▸ List.mem_map.mpr ⟨u, hu, rfl⟩
    rcases List.mem_pair.mp hout with htwo | hfive
    · rw [htwo]
      exact survives_navOutput (by decide)
    · rw [hfive]
      exact survives_navOutput (by decide)
  have hrecorded : ∀ txid coins, (viewOf payment).liveCoins txid = some coins →
      r.locals.view.liveCoins txid = none →
        coins.fCoinStake = false ∧ 0 ≤ coins.nVersion.toInt := by
    intro txid coins hcoins _
    simp only [CStateView.liveCoins, viewOf] at hcoins
    split at hcoins
    · rw [liveEntry_some] at hcoins
      split at hcoins
      · cases hcoins
      · cases hcoins
        exact ⟨rfl, by decide⟩
    · cases hcoins
  obtain ⟨restored, hrestored, hsame⟩ := (hall r.locals.view (fun _ => {}) [] rfl).mpr
    ⟨Except.exists_of_isOk hprograms, hsurvives, hrecorded⟩
  rw [List.append_nil] at hrestored
  exact ⟨r, undo, restored, hr, hundo', hrestored, hsame⟩

/-- The outputs of the coinstake come back as those of another transaction. -/
theorem coinStake_forgotten :
    ∃ r restored,
      (connectBlock nd block (fixedIndex 100) (fixedIndex 99) {} (viewOf stake) true false).result
        = .ok r ∧
      checkBlock nd.toBlockNode { block with fChecked := false } true true true = .ok () ∧
      (viewOf stake).CoinsKept ∧
      (∀ tx ∈ block.vtx, (viewOf stake).liveCoins (tx.getHash nd.toCrypto) = none) ∧
      ((viewOf stake).updateBlockCoins nd.toCrypto 100 block.vtx).bind (fun p =>
        (disconnectBlock nd parityKeys (fun _ => {}) block (fixedIndex 100) (fixedIndex 99)
          (undoWriteToDisk nd.toCrypto parityKeys p.2 99) r.locals.view).toOption) =
            some (restored, true) ∧
      ((viewOf stake).liveCoins 1).map CCoins.fCoinStake = some true ∧
      (restored.liveCoins 1).map CCoins.fCoinStake = some false := by
  obtain ⟨r, hr, hback⟩ := Except.exists_of_map_eq_ok (b := some (true, some false))
    (f := fun r => (((viewOf stake).updateBlockCoins nd.toCrypto 100 block.vtx).bind (fun p =>
        (disconnectBlock nd parityKeys (fun _ => {}) block (fixedIndex 100) (fixedIndex 99)
          (undoWriteToDisk nd.toCrypto parityKeys p.2 99) r.locals.view).toOption)).map
      fun s => (s.2, (s.1.liveCoins 1).map CCoins.fCoinStake))
    (show (connectBlock nd block (fixedIndex 100) (fixedIndex 99) {} (viewOf stake) true
      false).result.map _ = .ok _ by decide +kernel)
  obtain ⟨⟨restored, fClean⟩, hdisconnect, heq⟩ := Option.map_eq_some_iff.mp hback
  obtain ⟨hclean, hflag⟩ := Prod.mk.inj heq
  obtain rfl : fClean = true := hclean
  exact ⟨r, restored, hr, by decide +kernel, coinsKept_viewOf (by decide), by decide +kernel,
    hdisconnect, by decide +kernel, hflag⟩

end SpentStake

end Navcoin
