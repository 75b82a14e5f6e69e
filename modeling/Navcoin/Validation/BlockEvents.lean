import Navcoin.Validation.BlockSteps
import Navcoin.Validation.DisconnectBlock

/-!
# The coins of a block as events

`UpdateCoins` over the transactions of a block is a run of the coin journal, and the loop of
`DisconnectBlock` takes that run back, beside what it does to objects and programs.

* `run_of_updateBlockCoins`: the undo data of a block are the records of the run;
* `connectBlock_coins`: a connected block has run `UpdateCoins`;
* `disconnectWith_ok_iff`: the two parts of `DisconnectBlock` do not touch each other.
-/

namespace Navcoin

variable {G : Type}

/-! ## Events -/

/-- The events of a transaction: its outputs are created when its inputs are spent. -/
def CTransaction.coinEvents (tx : CTransaction G) : List (CoinEvent G) :=
  (if tx.isCoinBase then [] else tx.vin.map fun i => .spend i.prevout) ++ [.create tx]

/-- An input with the record of its output. -/
def recordedInput (e : CTxIn × CTxInUndo G) : CoinEvent G × CTxInUndo G := (.spend e.1.prevout, e.2)

/-- The events of a transaction with its undo data. -/
def recordedEvents (e : CTransaction G × Option (CTxUndo G)) : List (CoinEvent G × CTxInUndo G) :=
  (match e.2 with
    | none => []
    | some t => (e.1.vin.zip t.vprevout).map recordedInput) ++ [(.create e.1, ({} : CTxInUndo G))]

/-! ## `UpdateCoins` -/

variable {s : CStateView G × CTxUndo G} {tx : CTransaction G}

section Forward

variable [Zero G] [DecidableEq G] (c : Crypto G) (nHeight : Int)

theorem spendInputUndo_eq_some {s' : CStateView G × CTxUndo G} {i : CTxIn}
    (h : CStateView.spendInputUndo s i = some s') :
    ∃ entry u, (coinJournal c nHeight).apply (.spend i.prevout) (s.1.coins i.prevout.hash) =
        some (entry, u) ∧
      s' = ({ s.1 with coins := Function.update s.1.coins i.prevout.hash entry },
        ⟨s.2.vprevout ++ [u]⟩) := by
  unfold CStateView.spendInputUndo at h
  split at h
  · cases h
  · next coins hcoins =>
    split at h
    · next havail =>
      cases h
      refine ⟨some (coins.spend i.prevout.n), coins.undoOf i.prevout.n, ?_, ?_⟩
      · rw [hcoins]
        exact if_pos havail
      · rfl
    · cases h

/-- The inputs of a transaction, with the undo data they append. -/
theorem run_of_spendInputs {vin : List CTxIn} {s' : CStateView G × CTxUndo G}
    (h : vin.foldlM CStateView.spendInputUndo s = some s') :
    ∃ us, s'.1 = { s.1 with coins := s'.1.coins } ∧ s'.2.vprevout = s.2.vprevout ++ us ∧
      us.length = vin.length ∧
      (coinJournal c nHeight).run s.1.coins (vin.map fun i => .spend i.prevout) =
        some (s'.1.coins, (vin.zip us).map recordedInput) := by
  induction vin generalizing s with
  | nil =>
    cases h
    exact ⟨[], rfl, by simp, rfl, rfl⟩
  | cons i vin ih =>
    rw [List.foldlM_cons, Option.bind_eq_bind, Option.bind_eq_some_iff] at h
    obtain ⟨s₁, hstep, hrest⟩ := h
    obtain ⟨entry, u, happly, rfl⟩ := spendInputUndo_eq_some c nHeight hstep
    obtain ⟨us, hview, hundo, hlen, hrun⟩ := ih hrest
    refine ⟨u :: us, hview, ?_, by simp [hlen], ?_⟩
    · rw [hundo]
      simp
    · show ((coinJournal c nHeight).apply (.spend i.prevout) (s.1.coins i.prevout.hash)).bind _ = _
      rw [happly]
      exact (congrArg (Option.map _) hrun).trans rfl

/-- A transaction, with its undo data. -/
theorem run_of_updateCoinsUndo {view view' : CStateView G} {t : CTxUndo G}
    (h : view.updateCoinsUndo c nHeight tx = some (view', t)) :
    view' = { view with coins := view'.coins } ∧
      (tx.isCoinBase = false → t.vprevout.length = tx.vin.length) ∧
      (coinJournal c nHeight).run view.coins tx.coinEvents = some (view'.coins,
        recordedEvents (tx, if tx.isCoinBase then none else some t)) := by
  obtain ⟨s, hspent, heq⟩ := Option.map_eq_some_iff.mp h
  cases heq
  unfold CTransaction.coinEvents recordedEvents
  cases hcb : tx.isCoinBase with
  | true =>
    rw [hcb] at hspent
    cases hspent
    exact ⟨rfl, by simp, rfl⟩
  | false =>
    rw [hcb] at hspent
    obtain ⟨us, hview, hundo, hlen, hrun⟩ := run_of_spendInputs c nHeight hspent
    have hus : s.2.vprevout = us := hundo
    refine ⟨?_, fun _ => by rw [hus, hlen], ?_⟩
    · rw [hview]
      rfl
    · simp only [Bool.false_eq_true, if_false, Journal.run_append, hrun, hus]
      rfl

/-- The transactions after the coinbase. -/
theorem run_of_updateCoinsNext {rest : List (CTransaction G)} {s s' : CStateView G × CBlockUndo G}
    (hcb : ∀ tx ∈ rest, tx.isCoinBase = false)
    (h : rest.foldlM (CStateView.updateCoinsNext c nHeight) s = some s') :
    ∃ ts, s'.1 = { s.1 with coins := s'.1.coins } ∧ s'.2.vtxundo = s.2.vtxundo ++ ts ∧
      List.Forall₂ (fun tx t => t.vprevout.length = tx.vin.length) rest ts ∧
      (coinJournal c nHeight).run s.1.coins (rest.flatMap CTransaction.coinEvents) =
        some (s'.1.coins, (rest.zip (ts.map some)).flatMap recordedEvents) := by
  induction rest generalizing s with
  | nil =>
    cases h
    exact ⟨[], rfl, by simp, .nil, rfl⟩
  | cons tx rest ih =>
    rw [List.foldlM_cons, Option.bind_eq_bind, Option.bind_eq_some_iff] at h
    obtain ⟨s₁, hstep, hrest⟩ := h
    obtain ⟨⟨view₁, t⟩, hupdate, rfl⟩ := Option.map_eq_some_iff.mp hstep
    obtain ⟨hview₁, hlen, hrun₁⟩ := run_of_updateCoinsUndo c nHeight hupdate
    have htx := hcb tx List.mem_cons_self
    obtain ⟨ts, hview, hundo, hshape, hrun⟩ :=
      ih (fun tx' htx' => hcb tx' (List.mem_cons_of_mem _ htx')) hrest
    refine ⟨t :: ts, ?_, ?_, .cons (hlen htx) hshape, ?_⟩
    · rw [hview]
      rw [hview₁]
    · rw [hundo]
      simp
    · rw [htx] at hrun₁
      simp only [List.flatMap_cons, List.map_cons, List.zip_cons_cons, Journal.run_append, hrun₁,
        Option.bind_some]
      exact (congrArg (Option.map _) hrun).trans rfl

/-- Undo data with a record for every input of every transaction after the coinbase. -/
def CBlock.UndoFits (block : CBlock G) (undo : CBlockUndo G) : Prop :=
  List.Forall₂ (fun tx t => t.vprevout.length = tx.vin.length) block.vtx.tail undo.vtxundo

/-- **The undo data of a block are the records of its events.** -/
theorem run_of_updateBlockCoins {block : CBlock G} {coinbase : CTransaction G}
    {rest : List (CTransaction G)} (hvtx : block.vtx = coinbase :: rest)
    (hcoinbase : coinbase.isCoinBase = true) (hrest : ∀ tx ∈ rest, tx.isCoinBase = false)
    {view view' : CStateView G} {undo : CBlockUndo G}
    (h : view.updateBlockCoins c nHeight block.vtx = some (view', undo)) :
    view' = { view with coins := view'.coins } ∧ block.UndoFits undo ∧
      (coinJournal c nHeight).run view.coins (block.vtx.flatMap CTransaction.coinEvents) =
        some (view'.coins, (block.withUndo undo).flatMap recordedEvents) := by
  rw [hvtx] at h
  obtain ⟨⟨view₁, t⟩, hfirst, hnext⟩ := Option.bind_eq_some_iff.mp h
  obtain ⟨hview₁, _, hrun₁⟩ := run_of_updateCoinsUndo c nHeight hfirst
  obtain ⟨ts, hview, hundo, hshape, hrun⟩ := run_of_updateCoinsNext c nHeight hrest hnext
  have hts : undo.vtxundo = ts := hundo
  unfold CBlock.UndoFits CBlock.withUndo
  rw [hvtx, hts]
  refine ⟨?_, hshape, ?_⟩
  · simp only at hview
    rw [hview, hview₁]
  · rw [hcoinbase] at hrun₁
    simp only [List.flatMap_cons, List.zip_cons_cons, Journal.run_append, hrun₁, Option.bind_some]
    exact (congrArg (Option.map _) hrun).trans rfl

end Forward

/-! ## Undo data of the right shape -/

section Shape

variable {coinbase : CTransaction G} {rest : List (CTransaction G)}
variable {undo undo' : CBlockUndo G}

theorem map_fst_recordedInputs {vin : List CTxIn} {us : List (CTxInUndo G)}
    (h : us.length = vin.length) :
    ((vin.zip us).map recordedInput).map Prod.fst = vin.map fun i => .spend i.prevout := by
  rw [List.map_map]
  have hfst : (vin.zip us).map Prod.fst = vin := List.map_fst_zip (le_of_eq h.symm)
  conv_rhs => rw [← hfst, List.map_map]
  rfl

variable {block : CBlock G}

/-- The events are those of the block, whatever the records are. -/
theorem map_fst_recordedEvents (hvtx : block.vtx = coinbase :: rest)
    (hcoinbase : coinbase.isCoinBase = true) (hrest : ∀ tx ∈ rest, tx.isCoinBase = false)
    (hfits : block.UndoFits undo) : ((block.withUndo undo).flatMap recordedEvents).map Prod.fst =
      block.vtx.flatMap CTransaction.coinEvents := by
  have hloop : ∀ {rest : List (CTransaction G)} {ts : List (CTxUndo G)},
      (∀ tx ∈ rest, tx.isCoinBase = false) →
      List.Forall₂ (fun tx t => t.vprevout.length = tx.vin.length) rest ts →
      ((rest.zip (ts.map some)).flatMap recordedEvents).map Prod.fst =
        rest.flatMap CTransaction.coinEvents := by
    intro rest ts hrest hfits
    induction hfits with
    | nil => rfl
    | cons hhead _ ih =>
      simp only [List.forall_mem_cons] at hrest
      simp only [List.map_cons, List.zip_cons_cons, List.flatMap_cons, List.map_append,
        ih hrest.2, recordedEvents, CTransaction.coinEvents, hrest.1, map_fst_recordedInputs hhead,
        Bool.false_eq_true, if_false]
      rfl
  unfold CBlock.UndoFits at hfits
  rw [hvtx] at hfits
  unfold CBlock.withUndo
  rw [hvtx, List.zip_cons_cons, List.flatMap_cons, List.map_append, hloop hrest hfits,
    List.flatMap_cons, CTransaction.coinEvents, hcoinbase]
  rfl

/-- Two undo data whose records are related event by event. -/
theorem related_of_recorded {R : CTxInUndo G → CTxInUndo G → Prop}
    (hvtx : block.vtx = coinbase :: rest) (hfits : block.UndoFits undo)
    (hfits' : block.UndoFits undo')
    (hR : ∀ o u u', (CoinEvent.spend o, u) ∈ (block.withUndo undo).flatMap recordedEvents →
      (CoinEvent.spend o, u') ∈ (block.withUndo undo').flatMap recordedEvents → R u u') :
    undo.Related R undo' := by
  have hinputs : ∀ {vin : List CTxIn} {us us' : List (CTxInUndo G)}, us.length = vin.length →
      us'.length = vin.length →
      (∀ o u u', (CoinEvent.spend o, u) ∈ (vin.zip us).map recordedInput →
        (CoinEvent.spend o, u') ∈ (vin.zip us').map recordedInput → R u u') →
      List.Forall₂ R us us' := by
    intro vin us us' hus hus' hR
    refine List.forall₂_iff_get.mpr ⟨hus.trans hus'.symm, fun i hi hi' => ?_⟩
    have hmem : ∀ (ts : List (CTxInUndo G)) (h : i < ts.length),
        (CoinEvent.spend vin[i].prevout, ts[i]) ∈ (vin.zip ts).map recordedInput := by
      intro ts h
      refine List.mem_map.mpr ⟨(vin[i], ts[i]), List.mem_iff_getElem.mpr ⟨i, ?_, ?_⟩, rfl⟩
      · rw [List.length_zip]
        omega
      · rw [List.getElem_zip]
    exact hR vin[i].prevout _ _ (hmem us hi) (hmem us' hi')
  have hloop : ∀ {rest : List (CTransaction G)} {ts ts' : List (CTxUndo G)},
      List.Forall₂ (fun tx t => t.vprevout.length = tx.vin.length) rest ts →
      List.Forall₂ (fun tx t => t.vprevout.length = tx.vin.length) rest ts' →
      (∀ o u u', (CoinEvent.spend o, u) ∈ (rest.zip (ts.map some)).flatMap recordedEvents →
        (CoinEvent.spend o, u') ∈ (rest.zip (ts'.map some)).flatMap recordedEvents → R u u') →
      List.Forall₂ (fun t t' => List.Forall₂ R t.vprevout t'.vprevout) ts ts' := by
    intro rest ts ts' hts hts' hR
    induction hts generalizing ts' with
    | nil =>
      cases hts'
      exact .nil
    | cons hhead _ ih =>
      cases hts' with
      | cons hhead' htail' =>
      simp only [List.map_cons, List.zip_cons_cons, List.flatMap_cons, List.mem_append] at hR
      refine .cons (hinputs hhead hhead' fun o u u' hu hu' => ?_)
        (ih htail' fun o u u' hu hu' => ?_)
      · exact hR o u u' (.inl (List.mem_append_left _ hu)) (.inl (List.mem_append_left _ hu'))
      · exact hR o u u' (.inr hu) (.inr hu')
  unfold CBlock.UndoFits at hfits hfits'
  rw [hvtx] at hfits hfits'
  unfold CBlock.withUndo at hR
  rw [hvtx] at hR
  refine hloop hfits hfits' fun o u u' hu hu' => hR o u u' ?_ ?_
  · exact List.mem_append_right _ hu
  · exact List.mem_append_right _ hu'

theorem forall_record {P : CTxInUndo G → Prop} (hvtx : block.vtx = coinbase :: rest)
    (hfits : block.UndoFits undo)
    (hP : ∀ o u, (CoinEvent.spend o, u) ∈ (block.withUndo undo).flatMap recordedEvents → P u) :
    ∀ t ∈ undo.vtxundo, ∀ u ∈ t.vprevout, P u := by
  have hrel : undo.Related (fun u _ => P u) undo :=
    related_of_recorded hvtx hfits hfits fun o u _ hu _ => hP o u hu
  intro t ht u hu
  exact List.forall₂_same.mp (List.forall₂_same.mp hrel t ht) u hu

theorem CBlock.UndoFits.of_related {R : CTxInUndo G → CTxInUndo G → Prop}
    (h : block.UndoFits undo) (hrel : undo.Related R undo') : block.UndoFits undo' := by
  obtain ⟨hlength, hsizes⟩ := List.forall₂_iff_get.mp h
  obtain ⟨hlength', hrecords⟩ := List.forall₂_iff_get.mp hrel
  refine List.forall₂_iff_get.mpr ⟨hlength.trans hlength', fun i hi hi' => ?_⟩
  rw [← hsizes i hi (hlength' ▸ hi')]
  exact (hrecords i _ hi').length_eq.symm

/-- The events of a block with their records as they are read back. -/
theorem eventBack_of_related [Zero G] [DecidableEq G] (hvtx : block.vtx = coinbase :: rest)
    (hrel : undo.Related CTxInUndo.ReadBack undo') :
    List.Forall₂ EventBack ((block.withUndo undo).flatMap recordedEvents)
      ((block.withUndo undo').flatMap recordedEvents) := by
  have hcreate : ∀ tx : CTransaction G, EventBack (.create tx, {}) (.create tx, {}) := fun tx =>
    ⟨rfl, CTxOut.eq_self _, rfl, rfl, rfl⟩
  have hinputs : ∀ {vin : List CTxIn} {us us' : List (CTxInUndo G)},
      List.Forall₂ CTxInUndo.ReadBack us us' →
      List.Forall₂ EventBack ((vin.zip us).map recordedInput)
        ((vin.zip us').map recordedInput) := by
    intro vin us us' hus
    induction hus generalizing vin with
    | nil => simp
    | cons hhead _ ih =>
      cases vin with
      | nil => exact .nil
      | cons i vin => exact .cons ⟨rfl, hhead⟩ ih
  have hloop : ∀ {rest : List (CTransaction G)} {ts ts' : List (CTxUndo G)},
      List.Forall₂ (fun t t' => List.Forall₂ CTxInUndo.ReadBack t.vprevout t'.vprevout) ts ts' →
      List.Forall₂ EventBack ((rest.zip (ts.map some)).flatMap recordedEvents)
        ((rest.zip (ts'.map some)).flatMap recordedEvents) := by
    intro rest ts ts' hts
    induction hts generalizing rest with
    | nil => simp
    | cons hhead _ ih =>
      cases rest with
      | nil => exact .nil
      | cons tx rest =>
        exact List.rel_append (List.rel_append (hinputs hhead) (.cons (hcreate tx) .nil)) ih
  unfold CBlock.withUndo
  rw [hvtx]
  exact .cons (hcreate coinbase) (hloop hrel)

end Shape

/-! ## A connected block -/

section Connected

theorem spendInputUndo_of_spendInput {v v' : CStateView G} {i : CTxIn}
    (hcoins : s.1.coins = v.coins) (h : v.spendInput i = some v') :
    ∃ s', CStateView.spendInputUndo s i = some s' ∧ s'.1.coins = v'.coins := by
  unfold CStateView.spendInput at h
  unfold CStateView.spendInputUndo
  rw [hcoins]
  split at h
  · cases h
  · split at h
    · next coins hentry havail =>
      cases h
      simp only [hentry, havail, if_true]
      exact ⟨_, rfl, by simp only [CStateView.setCoins, hcoins]⟩
    · cases h

theorem updateCoinsUndo_of_updateCoins [Zero G] {c : Crypto G} {nHeight : Int}
    {view v v' : CStateView G} (hcoins : view.coins = v.coins)
    (h : v.updateCoins c tx nHeight = some v') :
    ∃ view' t, view.updateCoinsUndo c nHeight tx = some (view', t) ∧ view'.coins = v'.coins := by
  have hloop : ∀ (vin : List CTxIn) (s : CStateView G × CTxUndo G) (v v' : CStateView G),
      s.1.coins = v.coins → vin.foldlM CStateView.spendInput v = some v' →
        ∃ s', vin.foldlM CStateView.spendInputUndo s = some s' ∧ s'.1.coins = v'.coins := by
    intro vin
    induction vin with
    | nil =>
      intro s v v' hcoins hrun
      cases hrun
      exact ⟨s, rfl, hcoins⟩
    | cons i vin ih =>
      intro s v v' hcoins hrun
      rw [List.foldlM_cons, Option.bind_eq_bind, Option.bind_eq_some_iff] at hrun
      obtain ⟨v₁, hstep, hrest⟩ := hrun
      obtain ⟨s₁, hundo, hcoins₁⟩ := spendInputUndo_of_spendInput hcoins hstep
      rw [List.foldlM_cons, hundo]
      exact ih s₁ v₁ v' hcoins₁ hrest
  obtain ⟨v₁, hspent, rfl⟩ := Option.map_eq_some_iff.mp h
  unfold CStateView.updateCoinsUndo
  cases hcb : tx.isCoinBase with
  | true =>
    rw [hcb] at hspent
    cases hspent
    exact ⟨_, _, rfl, by simp only [CStateView.setCoins, hcoins]⟩
  | false =>
    rw [hcb] at hspent
    obtain ⟨s', hundo, hcoins'⟩ := hloop tx.vin (view, {}) v v₁ hcoins hspent
    simp only [Bool.false_eq_true, if_false, hundo]
    exact ⟨_, _, rfl, by simp only [CStateView.setCoins, hcoins']⟩

variable [G1Group G] [DecidableEq G] {nd : ChainNode G} {x : BlockContext G}

/-- A connected transaction has run `UpdateCoins`. -/
theorem connectTransaction_coins {s s' : ConnectLocals G} {e : CTransaction G × Nat}
    (h : (connectTransaction nd x s e).result = .ok s') :
    ∃ v : CStateView G, v.coins = s.view.coins ∧
      v.updateCoins nd.toCrypto e.1 x.pindex.nHeight = some s'.view := by
  simp only [connectTransaction, Traced.bind_eq_ok_iff] at h
  obtain ⟨u, hvotes, happly⟩ := h
  obtain ⟨t, out, hview, _, hout, _, hupdate, _⟩ := applyTransaction_parts happly
  have hsame := foldlM_connectOutput_frame hout
  rw [hview] at hsame
  exact ⟨{ out.view with toDaoView := s'.view.toDaoView }, hsame.coins, hupdate⟩

theorem updateCoinsNext_of_connect {l : List (CTransaction G × Nat)} {s s' : ConnectLocals G}
    (h : (l.foldlM (connectTransaction nd x) s).result = .ok s') {b : CStateView G × CBlockUndo G}
    (hcoins : b.1.coins = s.view.coins) :
    ∃ b', (l.map Prod.fst).foldlM (CStateView.updateCoinsNext nd.toCrypto x.pindex.nHeight) b =
      some b' ∧ b'.1.coins = s'.view.coins := by
  induction l generalizing s b with
  | nil =>
    simp only [List.foldlM_nil, Traced.result_pure, Except.ok.injEq] at h
    subst h
    exact ⟨b, rfl, hcoins⟩
  | cons e l ih =>
    simp only [List.foldlM_cons, Traced.bind_eq_ok_iff] at h
    obtain ⟨s₁, hstep, hrest⟩ := h
    obtain ⟨v, hv, hupdate⟩ := connectTransaction_coins hstep
    obtain ⟨view₁, t, hundo, hcoins₁⟩ :=
      updateCoinsUndo_of_updateCoins (hcoins.trans hv.symm) hupdate
    rw [List.map_cons, List.foldlM_cons, CStateView.updateCoinsNext, hundo]
    exact ih hrest hcoins₁

/-- **A connected block has run `UpdateCoins`** over its transactions. -/
theorem connectBlock_coins {block : CBlock G} {pindex pprev : CBlockIndex} {prev : Supply}
    {view : CStateView G} {fScriptChecks fJustCheck : Bool} {r : Connected G}
    (hgenesis : block.hash ≠ nd.hashGenesisBlock)
    (h : (connectBlock nd block pindex pprev prev view fScriptChecks fJustCheck).result = .ok r) :
    ∃ view' undo, view.updateBlockCoins nd.toCrypto pindex.nHeight block.vtx =
      some (view', undo) ∧ view'.coins = r.locals.view.coins := by
  obtain ⟨_, nCoinAge, s, p, hblock⟩ := connectBlock_ok hgenesis h
  obtain ⟨coinbase, rest, q, hvtx, _, hp, _⟩ := connectCoinbase_ok hblock.coinbase
  have hcoins : r.locals.view.coins = s.view.coins := by
    rw [(connectStake_ok hblock.stake).1, hp]
  have hvtx' : block.vtx = coinbase :: rest := hvtx
  have htxs := hblock.transactions
  simp only [connectTransactions, hvtx, List.zipIdx_cons, List.foldlM_cons,
    Traced.bind_eq_ok_iff] at htxs
  obtain ⟨s₁, hfirst, hrest⟩ := htxs
  obtain ⟨v, hv, hupdate⟩ := connectTransaction_coins hfirst
  obtain ⟨view₁, t, hundo, hcoins₁⟩ := updateCoinsUndo_of_updateCoins hv.symm hupdate
  have hundo' : view.updateCoinsUndo nd.toCrypto pindex.nHeight coinbase = some (view₁, t) := hundo
  obtain ⟨⟨view', undo⟩, hnext, hcoins'⟩ :=
    updateCoinsNext_of_connect hrest (b := (view₁, {})) hcoins₁
  rw [List.zipIdx_map_fst] at hnext
  refine ⟨view', undo, ?_, by rw [hcoins, ← hcoins']⟩
  rw [hvtx', CStateView.updateBlockCoins, hundo']
  exact hnext

end Connected

/-! ## `DisconnectBlock` -/

section Backward

/-- The view with other coins. -/
def CStateView.withCoins (view : CStateView G) (coins : Uint256 → Option (CCoins G)) :
    CStateView G := { view with coins := coins }

section Coins

variable [Zero G] [DecidableEq G] (c : Crypto G) (nHeight : Int)

/-- The inputs of a transaction. -/
theorem foldl_restoreInput (l : List (CTxIn × CTxInUndo G)) (s : DisconnectLocals G) :
    l.reverse.foldl restoreInput s =
      (s.1.withCoins ((coinJournal c nHeight).back s.1.coins (l.map recordedInput)).1,
        s.2 && ((coinJournal c nHeight).back s.1.coins (l.map recordedInput)).2) := by
  induction l with
  | nil => simp [Journal.back, CStateView.withCoins]
  | cons e l ih =>
    rw [List.reverse_cons, List.foldl_append, ih]
    simp only [List.map_cons, Journal.back, ← Bool.and_assoc]
    rfl

/-- The undo data of a transaction have a record for every input. -/
def UndoneInputs (e : CTransaction G × Option (CTxUndo G)) : Prop :=
  ∀ t, e.2 = some t → t.vprevout.length = e.1.vin.length

/-- **The coins of a transaction are taken back.** -/
theorem restoreInputs_removeOutputs (e : CTransaction G × Option (CTxUndo G))
    (s s' : DisconnectLocals G) :
    restoreInputs e.1 e.2 (removeOutputs c nHeight e.1 s) = .ok s' ↔ UndoneInputs e ∧
      s' = (s.1.withCoins ((coinJournal c nHeight).back s.1.coins (recordedEvents e)).1,
        s.2 && ((coinJournal c nHeight).back s.1.coins (recordedEvents e)).2) := by
  obtain ⟨tx, undo⟩ := e
  have hcreate : (coinJournal c nHeight).back s.1.coins [(.create tx, ({} : CTxInUndo G))] =
      ((removeOutputs c nHeight tx s).1.coins,
        ((s.1.coins (tx.getHash c)).getD {}).matchesBlock tx nHeight) := rfl
  simp only [recordedEvents, Journal.back_append, hcreate, UndoneInputs]
  cases undo with
  | none =>
    simp only [restoreInputs, Except.ok.injEq, reduceCtorEq, false_implies, implies_true,
      true_and, Journal.back, Bool.and_true]
    exact eq_comm
  | some t =>
    simp only [restoreInputs, Option.some.injEq, forall_eq']
    by_cases hlen : t.vprevout.length = tx.vin.length
    · simp only [hlen, ne_eq, not_true_eq_false, if_false, true_and, Except.ok.injEq,
        foldl_restoreInput c nHeight, ← Bool.and_assoc]
      exact eq_comm
    · simp [hlen]

end Coins

section Programs

theorem undoName_withCoins (c : Crypto G) (nHeight : Int) (view : CStateView G)
    (program : Predicate G) (m : Uint256 → Option (CCoins G)) :
    undoName c nHeight (view.withCoins m) program =
      (undoName c nHeight view program).map (·.withCoins m) := by
  have hget : ∀ id, (view.withCoins m).getNameRecord id = view.getNameRecord id := fun _ => rfl
  unfold undoName
  split
  · unfold CStateView.removeNameRecord
    simp only [hget]
    split <;> rfl
  all_goals rfl

variable [G1Group G] [DecidableEq G]

/-- Programs are undone without a look at the coins. -/
theorem undoToken_withCoins (b : Bls G) (view : CStateView G) (o : CTxOut G)
    (program : Predicate G) (m : Uint256 → Option (CCoins G)) :
    undoToken b (view.withCoins m) o program =
      (undoToken b view o program).map (·.withCoins m) := by
  have hget : ∀ id, (view.withCoins m).getToken id = view.getToken id := fun _ => rfl
  have hmodify : ∀ id prev token, (view.withCoins m).modifyToken id prev token =
      (view.modifyToken id prev token).withCoins m := fun _ _ _ => rfl
  unfold undoToken
  split
  · unfold undoMint
    simp only [hget, hmodify]
    cases view.getToken (tokenHash b.toCrypto program.key) with
    | none => rfl
    | some token =>
      simp only
      split
      · rfl
      · split
        · split <;> rfl
        · rfl
  · unfold undoBurn
    simp only [hget, hmodify]
    cases view.getToken o.tokenId.token with
    | none => rfl
    | some token =>
      simp only
      split <;> rfl
  · unfold CStateView.removeToken
    rw [hget]
    split <;> rfl
  · unfold undoStopMint
    simp only [hget, hmodify]
    cases view.getToken (tokenHash b.toCrypto program.key) <;> rfl
  · rfl

theorem undoProgram_withCoins (b : Bls G) (nHeight : Int) (fDotNav : Bool) (view : CStateView G)
    (o : CTxOut G) (m : Uint256 → Option (CCoins G)) :
    undoProgram b nHeight fDotNav (view.withCoins m) o =
      (undoProgram b nHeight fDotNav view o).map (·.withCoins m) := by
  have henabled : (view.withCoins m).tokensEnabled = view.tokensEnabled := rfl
  unfold undoProgram
  split
  · rfl
  · simp only [henabled, undoToken_withCoins]
    cases Except.rejectIf ((Predicate.ofVch b.toCrypto o.vData).action = .err)
        (dos100 "error-program-vdata") with
    | error e => rfl
    | ok u =>
      cases view.tokensEnabled with
      | false =>
        cases fDotNav with
        | false => rfl
        | true => exact undoName_withCoins ..
      | true =>
        cases undoToken b view o (Predicate.ofVch b.toCrypto o.vData) with
        | error e => rfl
        | ok view' =>
          cases fDotNav with
          | false => rfl
          | true => exact undoName_withCoins ..

variable (nd : ChainNode G) (block : CBlock G) (pindex pprev : CBlockIndex)
variable {view : CStateView G}

theorem undoTransaction_withCoins (view : CStateView G) (tx : CTransaction G)
    (m : Uint256 → Option (CCoins G)) :
    undoTransaction nd block pindex pprev (view.withCoins m) tx =
      (undoTransaction nd block pindex pprev view tx).map (·.withCoins m) := by
  have hdao : (view.withCoins m).toDaoView = view.toDaoView := rfl
  unfold undoTransaction
  rw [hdao]
  cases removeDaoObject nd block pprev tx view.toDaoView with
  | error e => rfl
  | ok dao =>
    exact Except.foldlM_map
      (fun s o => undoProgram_withCoins _ _ _ s o m) tx.vout { view with toDaoView := dao }

/-- The objects and programs of a block are undone. -/
def undoPrograms (vtx : List (CTransaction G)) (view : CStateView G) :
    Except Failure (CStateView G) :=
  vtx.reverse.foldlM (undoTransaction nd block pindex pprev) view

/-- **A loop over transactions**: what it does to programs, and what it does to coins. -/
theorem foldlM_disconnectTransaction {l : List (CTransaction G × Option (CTxUndo G))}
    {s : DisconnectLocals G} :
    l.reverse.foldlM (disconnectTransaction nd block pindex pprev) (view, true) = .ok s ↔
      ∃ w, undoPrograms nd block pindex pprev (l.map Prod.fst) view = .ok w ∧
        (∀ e ∈ l, UndoneInputs e) ∧
        s = (w.withCoins ((coinJournal nd.toCrypto pindex.nHeight).back view.coins
            (l.flatMap recordedEvents)).1,
          ((coinJournal nd.toCrypto pindex.nHeight).back view.coins
            (l.flatMap recordedEvents)).2) := by
  induction l generalizing s with
  | nil =>
    simp only [undoPrograms, List.map_nil, List.reverse_nil, List.foldlM_nil,
      Except.pure_eq_ok_iff, exists_eq_left', List.not_mem_nil, false_implies, implies_true,
      true_and, List.flatMap_nil, Journal.back]
    exact eq_comm
  | cons e l ih =>
    let J := coinJournal nd.toCrypto pindex.nHeight
    let after := J.back view.coins (l.flatMap recordedEvents)
    simp only [undoPrograms, List.map_cons, List.reverse_cons, List.foldlM_append,
      Except.bind_eq_ok_iff, ih, List.foldlM_cons, List.foldlM_nil, bind_pure,
      disconnectTransaction, restoreInputs_removeOutputs, List.forall_mem_cons,
      List.flatMap_cons, Journal.back_append]
    constructor
    · rintro ⟨t, ⟨w, hw, hl, rfl⟩, w', hw', he, rfl⟩
      rw [undoTransaction_withCoins] at hw'
      obtain ⟨w₁, hw₁, rfl⟩ := Except.exists_of_map_eq_ok hw'
      refine ⟨w₁, ⟨w, hw, hw₁⟩, ⟨he, hl⟩, ?_⟩
      rfl
    · rintro ⟨w₁, ⟨w, hw, hw₁⟩, ⟨he, hl⟩, rfl⟩
      refine ⟨_, ⟨w, hw, hl, rfl⟩, w₁.withCoins after.1, ?_, he, rfl⟩
      rw [undoTransaction_withCoins, hw₁]
      rfl

variable {nd block pindex pprev}

/-- **The two parts of `DisconnectBlock`**: objects and programs, which may fail, and coins. -/
theorem disconnectWith_ok_iff {coinbase : CTransaction G} {rest : List (CTransaction G)}
    (hvtx : block.vtx = coinbase :: rest) {records : VoteRecords} {undo : CBlockUndo G}
    {s : DisconnectLocals G} :
    disconnectWith nd records block pindex pprev undo view = .ok s ↔
      block.UndoFits undo ∧ ∃ w, undoPrograms nd block pindex pprev block.vtx view = .ok w ∧
        s = ({ w.withCoins ((coinJournal nd.toCrypto pindex.nHeight).back view.coins
              ((block.withUndo undo).flatMap recordedEvents)).1 with
            toDaoView := disconnectDao nd records block pindex pprev w.toDaoView },
          ((coinJournal nd.toCrypto pindex.nHeight).back view.coins
            ((block.withUndo undo).flatMap recordedEvents)).2) := by
  have hfits : block.UndoFits undo ↔ undo.vtxundo.length + 1 = block.vtx.length ∧
      ∀ e ∈ block.withUndo undo, UndoneInputs e := by
    unfold CBlock.UndoFits CBlock.withUndo
    rw [hvtx, List.forall₂_iff_zip, List.zip_cons_cons, List.zip_map_right,
      List.forall_mem_cons, List.forall_mem_map]
    simp only [UndoneInputs, Prod.map, Option.some.injEq, forall_eq', reduceCtorEq,
      false_implies, implies_true, true_and, List.tail_cons, List.length_cons, Prod.forall, id_eq]
    exact and_congr_left' ⟨fun h => by omega, fun h => by omega⟩
  have hfst : undo.vtxundo.length + 1 = block.vtx.length →
      (block.withUndo undo).map Prod.fst = block.vtx := by
    intro hlen
    exact List.map_fst_zip (by simp [hlen])
  simp only [disconnectWith, Except.bind_eq_ok_iff, Except.rejectIf_eq_ok_iff, exists_const,
    not_not, foldlM_disconnectTransaction, hfits, Except.pure_eq_ok_iff]
  constructor
  · rintro ⟨hlen, _, ⟨w, hw, hinputs, rfl⟩, rfl⟩
    rw [hfst hlen] at hw
    exact ⟨⟨hlen, hinputs⟩, w, hw, rfl⟩
  · rintro ⟨⟨hlen, hinputs⟩, w, hw, rfl⟩
    rw [← hfst hlen] at hw
    exact ⟨hlen, _, ⟨w, hw, hinputs, rfl⟩, rfl⟩

end Programs

end Backward

end Navcoin
