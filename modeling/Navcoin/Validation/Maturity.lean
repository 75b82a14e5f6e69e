import Navcoin.Validation.BlockEvents
import Navcoin.Validation.CoinStake

/-!
# Maturity of generated outputs

`CheckTxInputs` refuses an input that spends a coinbase or a coinstake at a depth below
`nCoinbaseMaturity`, but only when the depth is positive.  Outputs of the block itself have depth
zero.

* `checkTxInputs_matured`: what the check says about each entry that is spent;
* `from_connectTransactions`: the entries of the view are those of the transactions connected;
* `connectBlock_matured_iff`: the blocks in which every generated output that is spent is mature.
-/

namespace Navcoin

variable {G : Type}

/-! ## Where entries come from -/

/-- A transaction and the height of the block that connected it. -/
structure Origin (G : Type) where
  tx : CTransaction G
  nHeight : Int

/-- A coinbase or a coinstake. -/
def Origin.generated (o : Origin G) : Bool := o.tx.isCoinBase || o.tx.isCoinStake

/-- The transaction behind each txid. -/
abbrev Origins (G : Type) := Uint256 → Option (Origin G)

def addOrigin [Zero G] (c : Crypto G) (nHeight : Int) (origins : Origins G)
    (tx : CTransaction G) : Origins G :=
  Function.update origins (tx.getHash c) (some ⟨tx, nHeight⟩)

/-- The transactions of a block replace older ones with their txids. -/
def originsAfter [Zero G] (c : Crypto G) (nHeight : Int) (origins : Origins G)
    (vtx : List (CTransaction G)) : Origins G :=
  vtx.foldl (addOrigin c nHeight) origins

theorem originsAfter_append [Zero G] (c : Crypto G) (nHeight : Int) (origins : Origins G)
    (vtx : List (CTransaction G)) (tx : CTransaction G) :
    originsAfter c nHeight origins (vtx ++ [tx]) =
      addOrigin c nHeight (originsAfter c nHeight origins vtx) tx := by
  rw [originsAfter, List.foldl_append]
  rfl

variable {txid : Uint256} {nHeight : Int} {c : Crypto G}

/-- A txid is as before the block, or belongs to a transaction of the block. -/
theorem originsAfter_cases [Zero G] {origins : Origins G}
    {vtx : List (CTransaction G)} {o : Origin G}
    (h : originsAfter c nHeight origins vtx txid = some o) :
    origins txid = some o ∨ o.nHeight = nHeight := by
  induction vtx using List.reverseRecOn with
  | nil => exact .inl h
  | append_singleton vtx tx ih =>
    rw [originsAfter_append, addOrigin] at h
    by_cases hid : txid = tx.getHash c
    · subst hid
      rw [Function.update_self] at h
      cases h
      exact .inr rfl
    · rw [Function.update_of_ne hid] at h
      exact ih h

theorem originsAfter_self [Zero G] (c : Crypto G) (nHeight : Int) (origins : Origins G)
    (vtx : List (CTransaction G)) (tx : CTransaction G) :
    originsAfter c nHeight origins (vtx ++ [tx]) (tx.getHash c) = some ⟨tx, nHeight⟩ := by
  rw [originsAfter_append]
  exact Function.update_self ..

theorem originsAfter_of_ne [Zero G] {origins : Origins G}
    {vtx : List (CTransaction G)} (h : ∀ tx ∈ vtx, tx.getHash c ≠ txid) :
    originsAfter c nHeight origins vtx txid = origins txid := by
  induction vtx using List.reverseRecOn with
  | nil => rfl
  | append_singleton vtx tx ih =>
    rw [originsAfter_append, addOrigin, Function.update_of_ne (h tx (by simp)).symm]
    exact ih fun tx' htx' => h tx' (List.mem_append_left _ htx')

/-- The entry is that of the transaction.  The mark of a coinstake may be missing if it was
lost. -/
structure CCoins.From (coins : CCoins G) (lost : Prop) (o : Origin G) : Prop where
  nHeight : coins.nHeight = o.nHeight
  fCoinBase : coins.fCoinBase = o.tx.isCoinBase
  fCoinStake : ¬ lost → o.tx.isCoinStake = true → coins.fCoinStake = true

/-- Every entry of the view is that of the transaction with its txid. -/
def CStateView.From (view : CStateView G) (lost : Uint256 → Prop) (origins : Origins G) : Prop :=
  ∀ txid coins, view.coins txid = some coins →
    ∃ o, origins txid = some o ∧ coins.From (lost txid) o

/-- The entry of the txid is marked as that of a coinstake. -/
def CStateView.marksStake (view : CStateView G) (txid : Uint256) : Bool :=
  (view.coins txid).any CCoins.fCoinStake

section Updates

variable {lost : Uint256 → Prop} {origins : Origins G} {view v : CStateView G}

theorem CStateView.From.of_marksStake
    (h : view.From (fun _ => True) origins) :
    view.From (fun txid => view.marksStake txid = false) origins := by
  intro txid coins hcoins
  obtain ⟨o, ho, hfrom⟩ := h txid coins hcoins
  refine ⟨o, ho, hfrom.nHeight, hfrom.fCoinBase, fun hlost _ => ?_⟩
  simpa [marksStake, hcoins] using hlost

theorem CStateView.From.of_coins (h : view.From lost origins) (hcoins : v.coins = view.coins) :
    v.From lost origins := by
  intro txid coins
  rw [hcoins]
  exact h txid coins

/-- Spending keeps the flags and the height. -/
theorem CStateView.From.spendInput {i : CTxIn} (h : view.From lost origins)
    (hspend : view.spendInput i = some v) : v.From lost origins := by
  unfold CStateView.spendInput at hspend
  cases hold : view.coins i.prevout.hash with
  | none => simp [hold] at hspend
  | some old =>
    simp only [hold] at hspend
    split at hspend
    · cases hspend
      intro txid coins hcoins
      by_cases hid : txid = i.prevout.hash
      · subst hid
        simp only [setCoins, Function.update_self, Option.some.injEq] at hcoins
        subst hcoins
        obtain ⟨o, ho, hfrom⟩ := h _ old hold
        exact ⟨o, ho, hfrom.nHeight, hfrom.fCoinBase, hfrom.fCoinStake⟩
      · simp only [setCoins, Function.update_of_ne hid] at hcoins
        exact h txid coins hcoins
    · cases hspend

theorem CStateView.From.foldlM_spendInput {vin : List CTxIn} (h : view.From lost origins)
    (hspent : vin.foldlM CStateView.spendInput view = some v) : v.From lost origins := by
  induction vin generalizing view with
  | nil =>
    cases hspent
    exact h
  | cons i vin ih =>
    rw [List.foldlM_cons, Option.bind_eq_bind, Option.bind_eq_some_iff] at hspent
    obtain ⟨view₁, hstep, hrest⟩ := hspent
    exact ih (h.spendInput hstep) hrest

/-- **One transaction**: its entry is added, and others only lose outputs. -/
theorem CStateView.From.updateCoins [Zero G] {tx : CTransaction G}
    (h : view.From lost origins) (hupdate : view.updateCoins c tx nHeight = some v) :
    v.From lost (addOrigin c nHeight origins tx) := by
  obtain ⟨u, hspent, rfl⟩ := Option.map_eq_some_iff.mp hupdate
  have hu : u.From lost origins := by
    split at hspent
    · cases hspent
      exact h
    · exact h.foldlM_spendInput hspent
  intro txid coins hcoins
  by_cases hid : txid = tx.getHash c
  · subst hid
    simp only [setCoins, Function.update_self, Option.some.injEq] at hcoins
    subst hcoins
    exact ⟨⟨tx, nHeight⟩, Function.update_self .., rfl, rfl, fun _ hstake => hstake⟩
  · simp only [setCoins, Function.update_of_ne hid] at hcoins
    rw [addOrigin, Function.update_of_ne hid]
    exact hu txid coins hcoins

end Updates

section Block

variable [G1Group G] [DecidableEq G]

/-- **What `CheckTxInputs` says about maturity**, outside the test network. -/
theorem checkTxInputs_matured {nd : Node G} {tx : CTransaction G} {view : CStateView G}
    {nSpendHeight : Int} {fXNavSer : Bool} {allowedInPrivate : Int} {u : Unit}
    (hmain : nd.fTestNet = false)
    (h : (checkTxInputs nd tx view nSpendHeight fXNavSer allowedInPrivate).result = .ok u) :
    ∀ i ∈ tx.vin, ∃ coins, view.coins i.prevout.hash = some coins ∧
      coins.Matured nd nSpendHeight := by
  simp only [checkTxInputs, Traced.bind_eq_ok_iff, Traced.result_ofExcept] at h
  obtain ⟨_, _, s, hloop, _⟩ := h
  intro i hi
  rw [← List.zipIdx_map_fst 0 tx.vin] at hi
  obtain ⟨e, he, rfl⟩ := List.mem_map.mp hi
  obtain ⟨coins, hcoins, hmature⟩ := ((foldlM_checkTxInput_ok hloop).1 e he).2
  exact ⟨coins, hcoins, hmature hmain⟩

/-! ## The block -/

variable {nd : ChainNode G} {x : BlockContext G}

/-- **The entries before a transaction of the block** are those of the transactions before it. -/
theorem from_connectTransactions {lost : Uint256 → Prop} {origins : Origins G}
    {l : List (CTransaction G × Nat)} {s s' : ConnectLocals G}
    (hfrom : s.view.From lost origins)
    (h : (l.foldlM (connectTransaction nd x) s).result = .ok s') :
    s'.view.From lost (originsAfter nd.toCrypto x.pindex.nHeight origins (l.map Prod.fst)) := by
  refine Traced.foldlM_ok_invariant
    (fun done (t : ConnectLocals G) =>
      t.view.From lost (originsAfter nd.toCrypto x.pindex.nHeight origins (done.map Prod.fst)))
    (connectTransaction nd x) ?_ l [] s s' hfrom h
  intro done t e t' ht hstep
  obtain ⟨v, hv, hupdate⟩ := connectTransaction_coins hstep
  rw [List.map_append, List.map_singleton, originsAfter_append]
  exact (ht.of_coins hv).updateCoins hupdate

/-- An input of the block spends an output of `o`, a coinbase or a coinstake that is on the chain
or stands earlier in the block. -/
def SpendsGenerated (c : Crypto G) (block : CBlock G) (nHeight : Int) (origins : Origins G)
    (i : CTxIn) (o : Origin G) : Prop :=
  o.generated = true ∧ ∃ k tx, block.vtx[k]? = some tx ∧ tx.isCoinBase = false ∧ i ∈ tx.vin ∧
    originsAfter c nHeight origins (block.vtx.take k) i.prevout.hash = some o

/-- What an accepted input says about the entry that it spends. -/
theorem matured_of_spends {block : CBlock G} {pindex pprev : CBlockIndex} {prev : Supply}
    {view : CStateView G} {fScriptChecks fJustCheck : Bool} {r : Connected G}
    {lost : Uint256 → Prop} {origins : Origins G} (hmain : nd.fTestNet = false)
    (hgenesis : block.hash ≠ nd.hashGenesisBlock) (hfrom : view.From lost origins)
    (h : (connectBlock nd block pindex pprev prev view fScriptChecks fJustCheck).result = .ok r)
    {i : CTxIn} {o : Origin G}
    (hspends : SpendsGenerated nd.toCrypto block pindex.nHeight origins i o) :
    ∃ coins : CCoins G, coins.From (lost i.prevout.hash) o ∧
      coins.Matured nd.toNode (pprev.nHeight + 1) := by
  obtain ⟨_, k, tx, htx, hcb, hi, horigin⟩ := hspends
  obtain ⟨_, nCoinAge, s, p, hblock⟩ := connectBlock_ok hgenesis h
  obtain ⟨t, u, t', tr, tr', hbefore, hvoted, hconn, _⟩ :=
    connectTransactions_at hblock.transactions htx
  have hbefore' := from_connectTransactions hfrom hbefore
  rw [List.map_take, List.zipIdx_map_fst] at hbefore'
  have hcoins : u.view.coins = t.view.coins := by rw [hvoted.same]
  obtain ⟨coins, hentry, hmatured⟩ := checkTxInputs_matured hmain (hconn.inputs hcb) i hi
  obtain ⟨o', ho', hfrom'⟩ := (hbefore'.of_coins hcoins) _ coins hentry
  obtain rfl : o' = o := Option.some.inj (ho'.symm.trans horigin)
  exact ⟨coins, hfrom', hmatured⟩

/-- **Generated outputs are mature when they are spent**, in a block accepted on the main network,
exactly if the block spends no output of its own coinbase or coinstake, and none of a younger
coinstake whose entry has lost its mark. -/
theorem connectBlock_matured_iff (nd : ChainNode G) (block : CBlock G) (pindex pprev : CBlockIndex)
    (prev : Supply) (view : CStateView G) (origins : Origins G) (fScriptChecks fJustCheck : Bool)
    (r : Connected G) (hmain : nd.fTestNet = false) (hpos : 0 < nd.nCoinbaseMaturity)
    (hgenesis : block.hash ≠ nd.hashGenesisBlock) (hheight : pindex.nHeight = pprev.nHeight + 1)
    (hfrom : view.From (fun _ => True) origins)
    (holder : ∀ txid o, origins txid = some o → o.nHeight < pindex.nHeight)
    (h : (connectBlock nd block pindex pprev prev view fScriptChecks fJustCheck).result = .ok r) :
    (∀ i o, SpendsGenerated nd.toCrypto block pindex.nHeight origins i o →
      nd.nCoinbaseMaturity ≤ pindex.nHeight - o.nHeight) ↔
    ∀ i o, SpendsGenerated nd.toCrypto block pindex.nHeight origins i o →
      o.nHeight ≠ pindex.nHeight ∧
      (o.tx.isCoinStake = true → pindex.nHeight - o.nHeight < nd.nCoinbaseMaturity →
        view.marksStake i.prevout.hash = true) := by
  constructor
  · intro hmature i o hspends
    have hdepth := hmature i o hspends
    exact ⟨by omega, fun _ hyoung => by omega⟩
  · intro hcond i o hspends
    obtain ⟨hother, hmarked⟩ := hcond i o hspends
    obtain ⟨coins, hentry, hmatured⟩ :=
      matured_of_spends hmain hgenesis hfrom.of_marksStake h hspends
    obtain ⟨hgenerated, _, _, _, _, _, horigin⟩ := hspends
    have hbelow := holder _ o ((originsAfter_cases horigin).resolve_right hother)
    by_contra hyoung
    -- a mark that is there makes the check look at the depth
    have hmark : (coins.fCoinBase || coins.fCoinStake) = true := by
      rw [Bool.or_eq_true, hentry.fCoinBase]
      rcases Bool.or_eq_true_iff.mp hgenerated with hbase | hstake
      · exact .inl hbase
      · exact .inr (hentry.fCoinStake (by simp [hmarked hstake (by omega)]) hstake)
    have hdepth := hmatured hmark
    rw [hentry.nHeight] at hdepth
    omega

end Block

/-! ## A coinstake spent in its own block -/

namespace OwnStake

def nd : ChainNode (ZMod groupOrder) := fixedChain true noDeployments

/-- The coinbase of block one, with the txid one. -/
def minted : CTransaction (ZMod groupOrder) := coinbaseOf [navOutput 3, navOutput 5] []

def origins : Origins (ZMod groupOrder) := fun txid =>
  if txid = 1 then some ⟨minted, 1⟩ else none

def view : CStateView (ZMod groupOrder) :=
  { coins := fun txid => if txid = 1 then some (CCoins.fromTx minted 1) else none }

/-- A coinstake at height one hundred, and a transaction that spends an output. -/
def block (prevout : COutPoint) : CBlock (ZMod groupOrder) :=
  { hash := 100, vtx := [coinbaseOf [navOutput 0] [], stakeOf 5,
      { nTime := 7, vin := [{ prevout }], vout := [navOutput 3] }],
    vchBlockSig := [1] }

def stakeOut : COutPoint := ⟨(stakeOf 5).getHash nd.toCrypto, 1⟩

theorem from_origins : view.From (fun _ => True) origins := by
  intro txid coins hcoins
  simp only [view] at hcoins
  split at hcoins
  · next hid =>
    cases hcoins
    exact ⟨⟨minted, 1⟩, if_pos hid, rfl, rfl, fun hlost => absurd trivial hlost⟩
  · cases hcoins

theorem eq_of_origins {o : Origin (ZMod groupOrder)}
    (h : origins txid = some o) : o = ⟨minted, 1⟩ := by
  unfold origins at h
  split at h
  · exact (Option.some.inj h).symm
  · cases h

/-- A block that spends both outputs of the coinbase, ninety-nine blocks later. -/
theorem matured_minted :
    ∃ r, (connectBlock nd (block ⟨1, 0⟩) (fixedIndex 100) (fixedIndex 99) {} view true false).result
        = .ok r ∧
      SpendsGenerated nd.toCrypto (block ⟨1, 0⟩) 100 origins (coinInput 0) ⟨minted, 1⟩ ∧
      ∀ i o, SpendsGenerated nd.toCrypto (block ⟨1, 0⟩) 100 origins i o →
        nd.nCoinbaseMaturity ≤ 100 - o.nHeight := by
  refine Except.exists_and_of_isOk (by decide +kernel) fun r hr => ?_
  have hids : ∀ tx ∈ (block ⟨1, 0⟩).vtx, tx.getHash nd.toCrypto ≠ 1 := by decide +kernel
  have hone : ∀ k, originsAfter nd.toCrypto 100 origins ((block ⟨1, 0⟩).vtx.take k) 1 =
      some ⟨minted, 1⟩ := fun k =>
    originsAfter_of_ne fun tx htx => hids tx (List.mem_of_mem_take htx)
  have hinputs : ∀ tx ∈ (block ⟨1, 0⟩).vtx, tx.isCoinBase = false →
    ∀ i ∈ tx.vin, i.prevout.hash = 1 := by decide
  refine ⟨⟨rfl, 2, _, rfl, by decide, List.mem_singleton.mpr rfl, hone 2⟩, ?_⟩
  refine (connectBlock_matured_iff _ _ _ _ _ _ origins _ _ r rfl (by decide) (by decide) rfl
    from_origins ?_ hr).mpr ?_
  · intro txid o ho
    rw [eq_of_origins ho]
    decide
  · rintro i o ⟨_, k, tx, htx, hcb, hi, horigin⟩
    rw [hinputs tx (List.mem_of_getElem? htx) hcb i hi] at horigin
    obtain rfl := Option.some.inj (horigin.symm.trans (hone k))
    exact ⟨by decide, fun hstake => absurd hstake (by decide)⟩

/-- **The output of the coinstake is spent in the same block.** -/
theorem own_stake_spent :
    (∃ r, (connectBlock nd (block stakeOut) (fixedIndex 100) (fixedIndex 99) {} view true
        false).result = .ok r) ∧
      nd.fTestNet = false ∧ nd.nCoinbaseMaturity = 50 ∧ view.From (fun _ => True) origins ∧
      SpendsGenerated nd.toCrypto (block stakeOut) 100 origins { prevout := stakeOut }
        ⟨stakeOf 5, 100⟩ := by
  refine ⟨Except.exists_of_isOk (by decide +kernel), rfl, rfl, from_origins, rfl, 2, _, rfl,
    by decide +kernel, List.mem_singleton.mpr rfl, ?_⟩
  exact originsAfter_self nd.toCrypto 100 origins [coinbaseOf [navOutput 0] []] (stakeOf 5)

end OwnStake

end Navcoin
