import Navcoin.Lib.Runs
import Navcoin.Validation.AlikeCoins
import Navcoin.Validation.CoinStake

/-!
# Schedules of blocks and flushes

A schedule connects blocks, disconnects them with the undo data of their file and flushes the
coins to the database, from which they are read again.  Two schedules that end at the same chain
leave the same outputs, heights and coinbase flags; coinstake flags may be lost on the way.

* `tracks_step`, `tracks_run`: what every move of a schedule keeps;
* `NodeMove.tracked`, `coins_of_nodeMoves`: the moves of a validating node;
* `checkTxInputs_schedules`: transactions that get the same verdict after both schedules.
-/

namespace Navcoin

variable {G : Type}

/-! ## Schedules -/

/-- A block with its place in the chain. -/
structure ChainBlock (G : Type) where
  block : CBlock G
  pindex : CBlockIndex
  pprev : CBlockIndex

/-- The coins of a node, and the blocks that were connected since the start with the files of
their undo data, the last one first. -/
structure CoinNode (G : Type) where
  coins : CoinMap G
  chain : List (ChainBlock G × Bytes) := []

inductive CoinMove (G : Type) where
  | connect (e : ChainBlock G)
  | disconnect
  | flush

instance (block : CBlock G) (undo : CBlockUndo G) : Decidable (block.UndoFits undo) :=
  inferInstanceAs (Decidable (List.Forall₂ _ _ _))

variable {c : Crypto G}

section Steps

variable [Zero G] [DecidableEq G]

/-- The coins of the block taken back, and `fClean`. -/
def ChainBlock.takeBack (c : Crypto G) (e : ChainBlock G) (undo : CBlockUndo G) (m : CoinMap G) :
    CoinMap G × Bool :=
  (coinJournal c e.pindex.nHeight).back m ((e.block.withUndo undo).flatMap recordedEvents)

/-- What `ConnectBlock`, `DisconnectBlock` and `Flush` do to the coins. -/
def CoinNode.step (c : Crypto G) (k : PubKeys) (s : CoinNode G) :
    CoinMove G → Except Failure (CoinNode G)
  | .connect e =>
    match ({ coins := s.coins } : CStateView G).updateBlockCoins c e.pindex.nHeight e.block.vtx with
    | none => .error .assertion
    | some (view, undo) =>
      .ok ⟨view.coins, (e, undoWriteToDisk c k undo e.pprev.hashBlock) :: s.chain⟩
  | .disconnect =>
    match s.chain with
    | [] => .error .returnFalse
    | (e, file) :: chain =>
      match undoReadFromDisk c k e.pprev.hashBlock file with
      | none => .error .returnFalse
      | some undo =>
        if e.block.UndoFits undo ∧ (e.takeBack c undo s.coins).2 = true then
          .ok ⟨(e.takeBack c undo s.coins).1, chain⟩
        else .error .returnFalse
  | .flush => .ok { s with coins := fun txid => reloadEntry c k (s.coins txid) }

/-- The chain after a move. -/
def CoinMove.chainAfter (chain : List (ChainBlock G)) : CoinMove G → List (ChainBlock G)
  | .connect e => e :: chain
  | .disconnect => chain.tail
  | .flush => chain

theorem chain_of_step {k : PubKeys} {s t : CoinNode G} {move : CoinMove G}
    (h : s.step c k move = .ok t) :
    t.chain.map Prod.fst = move.chainAfter (s.chain.map Prod.fst) := by
  cases move with
  | connect e =>
    simp only [CoinNode.step] at h
    split at h
    · cases h
    · cases h
      rfl
  | disconnect =>
    simp only [CoinNode.step] at h
    split at h
    · cases h
    · next hchain =>
      split at h
      · cases h
      · split at h
        · cases h
          rw [hchain]
          rfl
        · cases h
  | flush =>
    cases h
    rfl

/-- A schedule determines its chain. -/
theorem chain_of_run {k : PubKeys} {l : List (CoinMove G)} {s t : CoinNode G}
    (h : l.foldlM (CoinNode.step c k) s = .ok t) :
    t.chain.map Prod.fst = l.foldl CoinMove.chainAfter (s.chain.map Prod.fst) := by
  induction l generalizing s with
  | nil =>
    cases h
    rfl
  | cons move l ih =>
    rw [List.foldlM_cons, Except.bind_eq_ok_iff] at h
    obtain ⟨u, hstep, hrest⟩ := h
    rw [ih hrest, chain_of_step hstep]
    rfl

/-- The coins of a chain whose blocks were connected one after the other and never flushed. -/
def chainCoins (c : Crypto G) (start : CoinMap G) : List (ChainBlock G) → Option (CoinMap G)
  | [] => some start
  | e :: chain => (chainCoins c start chain).bind fun m =>
    ((coinJournal c e.pindex.nHeight).run m (e.block.vtx.flatMap CTransaction.coinEvents)).map
      Prod.fst

/-- The coins are alike those of the chain. -/
def ReachedBy (c : Crypto G) (start : CoinMap G) (chain : List (ChainBlock G)) (m : CoinMap G) :
    Prop :=
  ∃ m₀, chainCoins c start chain = some m₀ ∧ ∀ txid, EntryAlike (m txid) (m₀ txid)

/-- The txid of a coinstake. -/
def StakeId (c : Crypto G) (txid : Uint256) : Prop :=
  ∃ tx : CTransaction G, tx.isCoinStake = true ∧ tx.getHash c = txid

/-- Every entry is stored, and only those of coinstakes are marked. -/
def CoinMap.Sound (c : Crypto G) (k : PubKeys) (m : CoinMap G) : Prop :=
  ∀ txid a, m txid = some a → a.Stored c k ∧ (a.fCoinStake = true → StakeId c txid)

end Steps

variable {undo : CBlockUndo G}

section Blocks

variable [G1Group G] [DecidableEq G]

/-- A block that is connected to these coins: it passes `CheckBlock`, no transaction of it has a
txid with unspent outputs, and the outputs that it creates survive the format of the database. -/
structure Connectable (nd : ChainNode G) (k : PubKeys) (m : CoinMap G) (e : ChainBlock G) :
    Prop where
  check : checkBlock nd.toBlockNode { e.block with fChecked := false } true true true = .ok ()
  nHeight : 0 < e.pindex.nHeight ∧ e.pindex.nHeight < 2 ^ 31
  fresh : ∀ tx ∈ e.block.vtx, liveEntry (m (tx.getHash nd.toCrypto)) = none
  ids : ∀ tx ∈ e.block.vtx, ∀ tx' ∈ e.block.vtx,
    tx.getHash nd.toCrypto = tx'.getHash nd.toCrypto → tx.vin = tx'.vin
  survives : ∀ tx ∈ e.block.vtx, ∀ i,
    ((CCoins.fromTx tx e.pindex.nHeight).out i).isNull = false →
      CTxOutCompressor.Survives nd.toCrypto k ((CCoins.fromTx tx e.pindex.nHeight).out i)

variable {nd : ChainNode G} {k : PubKeys} {m : CoinMap G} {e : ChainBlock G}

theorem Connectable.stored_fromTx (h : Connectable nd k m e) {tx : CTransaction G}
    (htx : tx ∈ e.block.vtx) : (CCoins.fromTx tx e.pindex.nHeight).Stored nd.toCrypto k := by
  have hok : TxOk nd.toNode tx := (checkBlock_ok rfl h.check).txs tx htx
  have hkept := CCoins.kept_fromTx hok.outputs_fit h.nHeight
  refine ⟨hkept, h.survives tx htx, ?_⟩
  have hle : (CCoins.fromTx tx e.pindex.nHeight).vout.length ≤ tx.vout.length := by
    refine (List.rdropWhile_prefix CTxOut.isNull _).length_le.trans ?_
    rw [List.length_map]
  exact hle.trans ((tx.vout_length_le_serialize nd.toCrypto).trans (hok.size.trans (by decide)))

/-- A connected block as a run of events, with its undo data. -/
theorem Connectable.run (h : Connectable nd k m e) (hm : CoinMap.Sound nd.toCrypto k m)
    {view : CStateView G} (hupdate : ({ coins := m } : CStateView G).updateBlockCoins nd.toCrypto
      e.pindex.nHeight e.block.vtx = some (view, undo)) :
    UndoneRun nd e.block e.pindex { coins := m } view.coins undo ∧
      (coinJournal nd.toCrypto e.pindex.nHeight).run m
        (e.block.vtx.flatMap CTransaction.coinEvents) =
          some (view.coins, (e.block.withUndo undo).flatMap recordedEvents) := by
  have hkept : ({ coins := m } : CStateView G).CoinsKept := fun txid a ha => (hm txid a ha).1.toKept
  obtain ⟨_, hrun⟩ := undoneRun_of_connect h.check hkept h.nHeight h.fresh h.ids hupdate
  obtain ⟨coinbase, rest, hvtx, hcoinbase, hrest⟩ := hrun.vtx
  exact ⟨hrun, (run_of_updateBlockCoins _ _ hvtx hcoinbase hrest hupdate).2.2⟩

/-- The entries after a block, and what was recorded of them. -/
theorem Connectable.sound (h : Connectable nd k m e) (hm : CoinMap.Sound nd.toCrypto k m)
    {m' : CoinMap G} {js : List (CoinEvent G × CTxInUndo G)}
    (hrun : (coinJournal nd.toCrypto e.pindex.nHeight).run m
      (e.block.vtx.flatMap CTransaction.coinEvents) = some (m', js)) :
    CoinMap.Sound nd.toCrypto k m' ∧ ∀ o u, (CoinEvent.spend o, u) ∈ js →
      CTxOutCompressor.Survives nd.toCrypto k u.txout ∧ u.txout.isNull = false := by
  obtain ⟨hsound, hrecords⟩ := Journal.run_forall
    (P := fun txid (x : Option (CCoins G)) => ∀ a, x = some a → a.Stored nd.toCrypto k ∧
      (a.fCoinStake = true → StakeId nd.toCrypto txid)) (by
    intro ev hev x d u hx happly a ha
    cases ev with
    | spend o =>
      obtain ⟨b, rfl, _, _, rfl, _⟩ := spend_eq_some happly
      cases ha
      obtain ⟨hstored, hmarked⟩ := hx b rfl
      exact ⟨hstored.spend o.n, hmarked⟩
    | create tx =>
      cases happly
      cases ha
      exact ⟨h.stored_fromTx (mem_of_create_mem hev), fun hstake => ⟨tx, hstake, rfl⟩⟩) hm hrun
  refine ⟨hsound, fun o u hu => ?_⟩
  obtain ⟨x, d, hx, happly⟩ := hrecords _ hu
  obtain ⟨a, rfl, _, hlive, _, rfl⟩ := spend_eq_some happly
  have htxout : (a.undoOf o.n).txout = a.out o.n.toNat := by
    rw [CCoins.undoOf]
    split <;> rfl
  rw [htxout]
  exact ⟨(hx a rfl).1.survives _ hlive, hlive⟩

/-- A block on coins that are alike. -/
theorem Connectable.congr (h : Connectable nd k m e) {m₀ m' : CoinMap G}
    {js : List (CoinEvent G × CTxInUndo G)} (halike : ∀ txid, EntryAlike (m txid) (m₀ txid))
    (hrun : (coinJournal nd.toCrypto e.pindex.nHeight).run m
      (e.block.vtx.flatMap CTransaction.coinEvents) = some (m', js)) :
    ∃ m₁ js₁, (coinJournal nd.toCrypto e.pindex.nHeight).run m₀
        (e.block.vtx.flatMap CTransaction.coinEvents) = some (m₁, js₁) ∧
      ∀ txid, EntryAlike (m' txid) (m₁ txid) := by
  refine Journal.run_congr (fun ev hev x y d u => ?_) halike hrun
  refine entryAlike_apply (fun tx htx => ?_) x y d u
  subst htx
  exact (h.stored_fromTx (mem_of_create_mem hev)).tidy

/-! ## What every move keeps -/

/-- The file holds the undo data of the block as it was connected to coins of the chain. -/
def UndoFile (nd : ChainNode G) (k : PubKeys) (start : CoinMap G) (chain : List (ChainBlock G))
    (e : ChainBlock G) (file : Bytes) : Prop :=
  ∃ (m : CoinMap G) (view : CStateView G) (undo : CBlockUndo G),
    CoinMap.Sound nd.toCrypto k m ∧ Connectable nd k m e ∧ ReachedBy nd.toCrypto start chain m ∧
    ({ coins := m } : CStateView G).updateBlockCoins nd.toCrypto e.pindex.nHeight e.block.vtx =
      some (view, undo) ∧ file = undoWriteToDisk nd.toCrypto k undo e.pprev.hashBlock

/-- The node has the coins of its chain, but for marks, and the files to go back. -/
structure Tracks (nd : ChainNode G) (k : PubKeys) (start : CoinMap G) (s : CoinNode G) : Prop where
  sound : CoinMap.Sound nd.toCrypto k s.coins
  reached : ReachedBy nd.toCrypto start (s.chain.map Prod.fst) s.coins
  files : ∀ e file chain, (e, file) :: chain <:+ s.chain →
    UndoFile nd k start (chain.map Prod.fst) e file

variable {start : CoinMap G} {s : CoinNode G}

theorem tracks_connect (h : Tracks nd k start s) (he : Connectable nd k s.coins e)
    {view : CStateView G}
    (hupdate : ({ coins := s.coins } : CStateView G).updateBlockCoins nd.toCrypto
      e.pindex.nHeight e.block.vtx = some (view, undo)) :
    Tracks nd k start
      ⟨view.coins, (e, undoWriteToDisk nd.toCrypto k undo e.pprev.hashBlock) :: s.chain⟩ := by
  obtain ⟨_, hrun⟩ := he.run h.sound hupdate
  obtain ⟨m₀, hchain, halike⟩ := h.reached
  obtain ⟨m₁, js₁, hrun₁, halike₁⟩ := he.congr halike hrun
  refine ⟨(he.sound h.sound hrun).1, ⟨m₁, ?_, halike₁⟩, ?_⟩
  · rw [List.map_cons, chainCoins, hchain, Option.bind_some, hrun₁]
    rfl
  · intro e' file' chain' hsuffix
    rcases List.suffix_cons_iff.mp hsuffix with heq | hsuffix
    · cases heq
      exact ⟨s.coins, view, undo, h.sound, he, h.reached, hupdate, rfl⟩
    · exact h.files e' file' chain' hsuffix

omit [G1Group G] in
/-- Undo data never mark an entry. -/
theorem marked_takeBack [Zero G]
    (h : ∀ txid a, m txid = some a → a.fCoinStake = true → StakeId c txid) :
    ∀ txid a, (e.takeBack c undo m).1 txid = some a → a.fCoinStake = true → StakeId c txid := by
  refine Journal.back_forall
    (P := fun txid (x : Option (CCoins G)) => ∀ a, x = some a → a.fCoinStake = true →
      StakeId c txid) ?_ h
  intro ev u x hx a ha hstake
  cases ev with
  | create tx =>
    cases ha
    cases hstake
  | spend o =>
    cases ha
    have hrestart : ((x.getD {}).restart u).fCoinStake = true := hstake
    unfold CCoins.restart at hrestart
    split at hrestart
    · cases x with
      | none => cases hrestart
      | some b => exact hx b rfl hrestart
    · cases hrestart

/-- The coins of a block that is taken back, with the data of its file. -/
theorem tracks_disconnect {file : Bytes} {chain : List (ChainBlock G × Bytes)}
    (h : Tracks nd k start ⟨m, (e, file) :: chain⟩) {undo' : CBlockUndo G}
    (hread : undoReadFromDisk nd.toCrypto k e.pprev.hashBlock file = some undo') :
    Tracks nd k start ⟨(e.takeBack nd.toCrypto undo' m).1, chain⟩ := by
  obtain ⟨m₁, view, undo, hm₁, he, ⟨m₀, hchain, halike⟩, hupdate, rfl⟩ :=
    h.files e file chain List.suffix_rfl
  obtain ⟨hundone, hrun⟩ := he.run hm₁ hupdate
  obtain ⟨coinbase, rest, hvtx, _⟩ := hundone.vtx
  obtain ⟨_, hrecords⟩ := he.sound hm₁ hrun
  -- the records are read back
  have hwritable : ∀ t ∈ undo.vtxundo, ∀ u ∈ t.vprevout, u.Writable nd.toCrypto k := by
    intro t ht u hu
    exact ⟨(hundone.record_fits t ht u hu).1,
      forall_record hvtx hundone.fits (fun o u hu => (hrecords o u hu).1) t ht u hu⟩
  obtain ⟨undo₁, hrel, hread₁⟩ := CBlockUndo.readBack_of_writable hundone.sizes hwritable
    e.pprev.hashBlock
  have hfile := hread₁ []
  rw [List.append_nil, hread, Option.some.injEq] at hfile
  subst hfile
  have hback := eventBack_of_related hvtx hrel
  have hnull : ∀ j ∈ (e.block.withUndo undo').flatMap recordedEvents, ∀ o, j.1 = .spend o →
      j.2.txout.isNull = false := by
    intro j hj o ho
    obtain ⟨i, hi, rfl⟩ := List.getElem_of_mem hj
    have hpair := hback.get (hback.length_eq ▸ hi) hi
    simp only [List.get_eq_getElem] at hpair
    rw [CTxOut.isNull_of_eq hpair.2.txout]
    refine (hrecords o _ ?_).2
    rw [← ho, hpair.1]
    exact List.getElem_mem _
  -- now the coins are alike those right after the block was connected
  have hafter : ∀ txid, EntryAlike (m txid) (view.coins txid) := by
    obtain ⟨m₂, js₂, hrun₂, halike₂⟩ := he.congr halike hrun
    obtain ⟨m₃, hchain₃, halike₃⟩ := h.reached
    rw [List.map_cons, chainCoins, hchain, Option.bind_some, hrun₂] at hchain₃
    cases hchain₃
    exact fun txid => (halike₃ txid).trans (halike₂ txid).symm
  have hrestored : ∀ txid, EntryAlike ((e.takeBack nd.toCrypto undo' m).1 txid) (m₁ txid) := by
    intro txid
    refine (Journal.back_congr (fun j x y => entryAlike_revert j x y) hnull hafter
      (hundone.back hrel).1 txid).trans ?_
    rw [Journal.back_at]
    exact entryAlike_restored (fun a ha => (hm₁ txid a ha).1.tidy) (hundone.entry txid)
      (Journal.forall₂_recordsAt (fun _ _ hj => hj.1) hback txid)
  refine ⟨fun txid a ha => ⟨(hrestored txid).stored (fun b hb => (hm₁ txid b hb).1) a ha, ?_⟩,
    ⟨m₀, hchain, fun txid => (hrestored txid).trans (halike txid)⟩, fun e' file' chain' hs => ?_⟩
  · exact marked_takeBack (fun txid a ha => (h.sound txid a ha).2) txid a ha
  · exact h.files e' file' chain' (hs.trans (List.suffix_cons _ _))

theorem tracks_flush (h : Tracks nd k start s) :
    Tracks nd k start { s with coins := fun txid => reloadEntry nd.toCrypto k (s.coins txid) } := by
  have hstored : ∀ txid a, s.coins txid = some a → a.Stored nd.toCrypto k :=
    fun txid a ha => (h.sound txid a ha).1
  obtain ⟨m₀, hchain, halike⟩ := h.reached
  refine ⟨fun txid a ha => ?_, ⟨m₀, hchain, fun txid => ?_⟩, h.files⟩
  · obtain ⟨hentry, hunmarked⟩ := entryAlike_reload (hstored txid)
    refine ⟨hentry.stored (hstored txid) a ha, fun hstake => ?_⟩
    rw [hunmarked a ha] at hstake
    cases hstake
  · exact (entryAlike_reload (hstored txid)).1.trans (halike txid)

/-- **Every move of a schedule.** -/
theorem tracks_step (h : Tracks nd k start s) {move : CoinMove G} {t : CoinNode G}
    (hconnect : ∀ e, move = .connect e → Connectable nd k s.coins e)
    (hstep : s.step nd.toCrypto k move = .ok t) : Tracks nd k start t := by
  cases move with
  | connect e =>
    unfold CoinNode.step at hstep
    cases hupdate : ({ coins := s.coins } : CStateView G).updateBlockCoins nd.toCrypto
        e.pindex.nHeight e.block.vtx with
    | none => simp [hupdate] at hstep
    | some p =>
      simp only [hupdate, Except.ok.injEq] at hstep
      subst hstep
      exact tracks_connect h (hconnect e rfl) hupdate
  | disconnect =>
    obtain ⟨m, chain⟩ := s
    cases chain with
    | nil => cases hstep
    | cons p chain =>
      simp only [CoinNode.step] at hstep
      split at hstep
      · cases hstep
      · next undo hread =>
        split at hstep
        · cases hstep
          exact tracks_disconnect h hread
        · cases hstep
  | flush =>
    cases hstep
    exact tracks_flush h

/-- **A whole schedule.** -/
theorem tracks_run {l : List (CoinMove G)} {t : CoinNode G}
    (hstart : CoinMap.Sound nd.toCrypto k start)
    (hl : ∀ n e u, l[n]? = some (.connect e) →
      Run.after (CoinNode.step nd.toCrypto k) ⟨start, []⟩ l n = .ok u → Connectable nd k u.coins e)
    (hrun : l.foldlM (CoinNode.step nd.toCrypto k) ⟨start, []⟩ = .ok t) :
    Tracks nd k start t := by
  rw [← Run.after_length] at hrun
  refine Run.after_induction (P := fun _ u => Tracks nd k start u) ?_ ?_ (fun _ _ hu => hu) hrun
  · refine ⟨hstart, ⟨start, rfl, fun txid => .refl fun a ha => (hstart txid a ha).1.tidy⟩, ?_⟩
    intro e file chain hsuffix
    exact absurd (List.suffix_nil.mp hsuffix) (List.cons_ne_nil _ _)
  · intro n move u v hmove hu htracks hstep
    exact tracks_step htracks (fun e he => hl n e u (he ▸ hmove) hu) hstep

end Blocks

/-! ## The moves of a validating node -/

section Connection

variable [G1Group G] [DecidableEq G] {nd : ChainNode G} {k : PubKeys} {e : ChainBlock G}
  {s : CoinNode G}

/-- The coins of a node with all undo data that it has written, by the chain up to their block. -/
structure FileNode (G : Type) extends CoinNode G where
  written : List (List (ChainBlock G) × Bytes) := []

/-- What a validating node does to its coins, whatever else is in its view.  The undo data that
`UpdateCoins` collects go to a file unless there is one since the block was connected before, and a
block is taken back when `DisconnectBlock` reports nothing. -/
inductive NodeMove (nd : ChainNode G) (k : PubKeys) : FileNode G → FileNode G → Prop
  | connect (s : FileNode G) (e : ChainBlock G) (view w : CStateView G) (prev : Supply)
      (fScriptChecks : Bool) (r : Connected G) (undo : CBlockUndo G) (file : Bytes)
      (hcoins : view.coins = s.coins) (hgenesis : e.block.hash ≠ nd.hashGenesisBlock)
      (he : Connectable nd k s.coins e)
      (h : (connectBlock nd e.block e.pindex e.pprev prev view fScriptChecks false).result = .ok r)
      (hundo : ({ coins := s.coins } : CStateView G).updateBlockCoins nd.toCrypto
        e.pindex.nHeight e.block.vtx = some (w, undo))
      (hfile : (e :: s.chain.map Prod.fst, file) ∈ s.written ∨
        file = undoWriteToDisk nd.toCrypto k undo e.pprev.hashBlock) :
      NodeMove nd k s ⟨⟨r.locals.view.coins, (e, file) :: s.chain⟩,
        (e :: s.chain.map Prod.fst, file) :: s.written⟩
  | disconnect (e : ChainBlock G) (file : Bytes) (view restored : CStateView G)
      (chain : List (ChainBlock G × Bytes)) (written : List (List (ChainBlock G) × Bytes))
      (records : VoteRecords) (h : disconnectBlock nd k records e.block e.pindex e.pprev file view =
        .ok (restored, true)) :
      NodeMove nd k ⟨⟨view.coins, (e, file) :: chain⟩, written⟩ ⟨⟨restored.coins, chain⟩, written⟩
  | flush (s : FileNode G) :
      NodeMove nd k s { s with coins := fun txid => reloadEntry nd.toCrypto k (s.coins txid) }

/-- The coins are those of the chain, and every file can take its block back. -/
def FileNode.Tracked (nd : ChainNode G) (k : PubKeys) (start : CoinMap G) (s : FileNode G) : Prop :=
  Tracks nd k start s.toCoinNode ∧ ∀ e chain file, (e :: chain, file) ∈ s.written →
    UndoFile nd k start chain e file

/-- **Every move of a validating node.** -/
theorem NodeMove.tracked {start : CoinMap G} {s t : FileNode G} (hmove : NodeMove nd k s t)
    (hs : s.Tracked nd k start) : t.Tracked nd k start := by
  obtain ⟨htracks, hwritten⟩ := hs
  cases hmove with
  | connect _ e view w prev fScriptChecks r undo file hcoins hgenesis he h hundo hfile =>
    obtain ⟨view', undo', hupdate, hview'⟩ := connectBlock_coins hgenesis h
    obtain ⟨coinbase, rest, hvtx, hcoinbase, hrest⟩ := (checkBlock_ok rfl he.check).coinBases
    -- both are runs of the same events from the same coins
    obtain ⟨_, _, hrun⟩ := run_of_updateBlockCoins _ _ hvtx hcoinbase hrest hupdate
    obtain ⟨_, _, hrun'⟩ := run_of_updateBlockCoins _ _ hvtx hcoinbase hrest hundo
    rw [hcoins, hrun', Option.some.injEq, Prod.mk.injEq, hview'] at hrun
    have hnext := tracks_connect htracks he hundo
    have hundoFile : UndoFile nd k start (s.chain.map Prod.fst) e file := by
      rcases hfile with hmem | rfl
      · exact hwritten _ _ _ hmem
      · exact hnext.files _ _ _ List.suffix_rfl
    refine ⟨⟨hrun.1 ▸ hnext.sound, hrun.1 ▸ hnext.reached, fun e' file' chain' hsuffix => ?_⟩,
      fun e' chain' file' hmem => ?_⟩
    · rcases List.suffix_cons_iff.mp hsuffix with heq | hsuffix
      · cases heq
        exact hundoFile
      · exact htracks.files _ _ _ hsuffix
    · rcases List.mem_cons.mp hmem with heq | hmem
      · cases heq
        exact hundoFile
      · exact hwritten _ _ _ hmem
  | disconnect e file view restored chain written records h =>
    obtain ⟨_, _, _, _, he, _⟩ := htracks.files _ _ _ List.suffix_rfl
    obtain ⟨coinbase, rest, hvtx, _⟩ := (checkBlock_ok rfl he.check).coinBases
    unfold disconnectBlock at h
    split at h
    · cases h
    · next undo hread =>
      obtain ⟨_, w, _, heq⟩ := (disconnectWith_ok_iff hvtx).mp h
      obtain ⟨rfl, _⟩ := Prod.mk.inj heq
      exact ⟨tracks_disconnect htracks hread, hwritten⟩
  | flush => exact ⟨tracks_flush htracks, hwritten⟩

/-- **Verdicts do not depend on the schedule**, for transactions that do not spend a coinstake at a
depth between zero and the maturity.  Both schedules start from the same coins and end at the same
chain. -/
theorem checkTxInputs_schedules (nd : ChainNode G) (k : PubKeys) (start : CoinMap G)
    (l l' : List (CoinMove G)) (s s' : CoinNode G) (hstart : CoinMap.Sound nd.toCrypto k start)
    (hs : l.foldlM (CoinNode.step nd.toCrypto k) ⟨start, []⟩ = .ok s)
    (hs' : l'.foldlM (CoinNode.step nd.toCrypto k) ⟨start, []⟩ = .ok s')
    (hl : ∀ n e u, l[n]? = some (.connect e) →
      Run.after (CoinNode.step nd.toCrypto k) ⟨start, []⟩ l n = .ok u → Connectable nd k u.coins e)
    (hl' : ∀ n e u, l'[n]? = some (.connect e) →
      Run.after (CoinNode.step nd.toCrypto k) ⟨start, []⟩ l' n = .ok u →
        Connectable nd k u.coins e)
    (hchain : s.chain.map Prod.fst = s'.chain.map Prod.fst) (view : CStateView G)
    (tx : CTransaction G) (nSpendHeight : Int) (fXNavSer : Bool) (allowedInPrivate : Int)
    (hmature : nd.fTestNet = false → ∀ i ∈ tx.vin, StakeId nd.toCrypto i.prevout.hash →
      ∀ a, s.coins i.prevout.hash = some a → nSpendHeight - a.nHeight ≤ 0 ∨
        nd.nCoinbaseMaturity ≤ nSpendHeight - a.nHeight) :
    checkTxInputs nd.toNode tx (view.withCoins s.coins) nSpendHeight fXNavSer allowedInPrivate =
      checkTxInputs nd.toNode tx (view.withCoins s'.coins) nSpendHeight fXNavSer
        allowedInPrivate := by
  have htracks := tracks_run hstart hl hs
  have htracks' := tracks_run hstart hl' hs'
  obtain ⟨m, hm, halike⟩ := htracks.reached
  obtain ⟨m', hm', halike'⟩ := htracks'.reached
  rw [← hchain, hm] at hm'
  cases hm'
  refine checkTxInputs_congr (fun i hi => ⟨(halike _).trans (halike' _).symm, ?_⟩) fXNavSer
    allowedInPrivate
  intro htest a b ha hb hpos hyoung
  -- neither entry is marked
  have hother : ¬ StakeId nd.toCrypto i.prevout.hash := by
    intro hstake
    have hdepth := hmature htest i hi hstake a ha
    omega
  have hunmarked : a.fCoinStake = false := by
    rw [← Bool.not_eq_true]
    exact fun hstake => hother ((htracks.sound _ a ha).2 hstake)
  have hunmarked' : b.fCoinStake = false := by
    rw [← Bool.not_eq_true]
    exact fun hstake => hother ((htracks'.sound _ b hb).2 hstake)
  rw [hunmarked, hunmarked']

end Connection

/-! ## A coinstake that was read from the database -/

namespace ReloadedStake

abbrev nd : ChainNode (ZMod groupOrder) := fixedChain true noDeployments

/-- The first transaction, in block one. -/
def minted : CTransaction (ZMod groupOrder) := coinbaseOf [navOutput 3, navOutput 5] []

def start : CoinMap (ZMod groupOrder) := fun txid =>
  if txid = 1 then some (CCoins.fromTx minted 1) else none

/-- A block with a coinstake. -/
def staked : ChainBlock (ZMod groupOrder) :=
  { block := { hash := 100, vtx := [coinbaseOf [navOutput 0] [], stakeOf 5], vchBlockSig := [1] }
    pindex := fixedIndex 100, pprev := fixedIndex 99 }

def stakeOut : COutPoint := ⟨(stakeOf 5).getHash nd.toCrypto, 1⟩

/-- A transaction that spends an output. -/
def spendOf (prevout : COutPoint) (nValue : Int) : CTransaction (ZMod groupOrder) :=
  { nTime := 7, vin := [{ prevout }], vout := [navOutput nValue] }

/-- The next block. -/
def next : ChainBlock (ZMod groupOrder) :=
  { block := { hash := 101, vtx := [{ coinbaseOf [navOutput 0] [] with nTime := 9 },
      spendOf ⟨1, 0⟩ 3] }
    pindex := fixedIndex 101, pprev := fixedIndex 100 }

/-- A schedule with two flushes and a block that is taken back. -/
def moves : List (CoinMove (ZMod groupOrder)) :=
  [.connect staked, .flush, .connect next, .flush, .disconnect]

theorem survives_small {o : CTxOut (ZMod groupOrder)}
    (h : o ∈ [navOutput 0, navOutput 3, navOutput 5, { nValue := 0 }]) :
    CTxOutCompressor.Survives nd.toCrypto parityKeys o := by
  have hscript : o.scriptPubKey.length ≤ maxScriptSize := by
    revert o
    decide
  have hplain : CTxOutCompressor.tokenFormat o = false ∧ o.isBLSCT = false ∧
      (0 ≤ o.nValue ∧ o.nValue ≤ maxMoney) ∧ o.nValue ≠ 1888888888888889 := by
    revert o
    decide
  have hrest : o.tokenId.subid = 0xffffffffffffffff ∧
      o.getBulletproof = BulletproofsRangeproof.empty := by
    revert o
    decide
  exact (CTxOutCompressor.survives_public_iff parityKeys_lawful hplain.2.2.1 hscript hplain.1
    hplain.2.1).mpr ⟨hplain.2.2.2, hrest.1, hrest.2⟩

theorem survives_fromTx {tx : CTransaction (ZMod groupOrder)} {nHeight : Int}
    (h : ∀ o ∈ tx.vout, o ∈ [navOutput 0, navOutput 3, navOutput 5, { nValue := 0 }]) (i : Nat)
    (hlive : ((CCoins.fromTx tx nHeight).out i).isNull = false) :
    CTxOutCompressor.Survives nd.toCrypto parityKeys ((CCoins.fromTx tx nHeight).out i) := by
  rcases CCoins.out_fromTx tx nHeight i with hhole | hmem
  · rw [hhole] at hlive
    cases hlive
  · exact survives_small (h _ hmem)

theorem sound_start : CoinMap.Sound nd.toCrypto parityKeys start := by
  intro txid a ha
  unfold start at ha
  split at ha
  · cases ha
    refine ⟨⟨CCoins.kept_fromTx (by decide) (by decide), survives_fromTx (by decide), by decide⟩,
      fun hstake => ?_⟩
    cases hstake
  · cases ha

/-- What can be evaluated of `Connectable`. -/
def checkMove (u : CoinNode (ZMod groupOrder)) : CoinMove (ZMod groupOrder) → Bool
  | .connect e =>
    decide (checkBlock nd.toBlockNode { e.block with fChecked := false } true true true = .ok ()) &&
      (decide (0 < e.pindex.nHeight ∧ e.pindex.nHeight < 2 ^ 31) &&
        (decide (∀ tx ∈ e.block.vtx, liveEntry (u.coins (tx.getHash nd.toCrypto)) = none) &&
          (decide (∀ tx ∈ e.block.vtx, ∀ tx' ∈ e.block.vtx,
            tx.getHash nd.toCrypto = tx'.getHash nd.toCrypto → tx.vin = tx'.vin) &&
            e.block.vtx.all fun tx => tx.vout.all fun o =>
              decide (o ∈ [navOutput 0, navOutput 3, navOutput 5, { nValue := 0 }]))))
  | _ => true

theorem connectable_of_checkMove {u : CoinNode (ZMod groupOrder)} {e : ChainBlock (ZMod groupOrder)}
    (h : checkMove u (.connect e) = true) : Connectable nd parityKeys u.coins e := by
  simp only [checkMove, Bool.and_eq_true, decide_eq_true_eq, List.all_eq_true] at h
  obtain ⟨hcheck, hheight, hfresh, hids, houts⟩ := h
  exact ⟨hcheck, hheight, hfresh, hids, fun tx htx => survives_fromTx (houts tx htx)⟩

theorem connectable_of_all {l : List (CoinMove (ZMod groupOrder))}
    (h : Run.all (CoinNode.step nd.toCrypto parityKeys) checkMove ⟨start, []⟩ l = true) :
    ∀ n e u, l[n]? = some (.connect e) →
      Run.after (CoinNode.step nd.toCrypto parityKeys) ⟨start, []⟩ l n = .ok u →
        Connectable nd parityKeys u.coins e :=
  fun _ _ _ he hu => connectable_of_checkMove (Run.of_all h he hu)

/-- A transaction that spends the first one gets the same verdict after both schedules. -/
theorem checkTxInputs_schedules_minted :
    ∃ s s', [.connect staked].foldlM (CoinNode.step nd.toCrypto parityKeys) ⟨start, []⟩ = .ok s ∧
      moves.foldlM (CoinNode.step nd.toCrypto parityKeys) ⟨start, []⟩ = .ok s' ∧
      s.chain.map Prod.fst = s'.chain.map Prod.fst ∧
      ∀ view : CStateView (ZMod groupOrder),
        checkTxInputs nd.toNode (spendOf ⟨1, 0⟩ 3) (view.withCoins s.coins) 101 false 0 =
          checkTxInputs nd.toNode (spendOf ⟨1, 0⟩ 3) (view.withCoins s'.coins) 101 false 0 := by
  obtain ⟨s, hs, hheight⟩ := Except.exists_of_map_eq_ok (b := some 1)
    (f := fun s : CoinNode (ZMod groupOrder) => (s.coins 1).map CCoins.nHeight)
    (show ([.connect staked].foldlM (CoinNode.step nd.toCrypto parityKeys) ⟨start, []⟩).map _ = _
      by decide +kernel)
  obtain ⟨s', hs'⟩ :
      ∃ s', moves.foldlM (CoinNode.step nd.toCrypto parityKeys) ⟨start, []⟩ = .ok s' :=
    Except.exists_of_isOk (by decide +kernel)
  have hchain : s.chain.map Prod.fst = s'.chain.map Prod.fst := by
    rw [chain_of_run hs, chain_of_run hs']
    rfl
  refine ⟨s, s', hs, hs', hchain, fun view => ?_⟩
  refine checkTxInputs_schedules nd parityKeys start [.connect staked] moves s s' sound_start hs hs'
    (connectable_of_all (by decide +kernel)) (connectable_of_all (by decide +kernel)) hchain view
    (spendOf ⟨1, 0⟩ 3) 101 false 0 ?_
  intro _ i hi _ a ha
  obtain rfl := List.mem_singleton.mp hi
  have hone : s.coins 1 = some a := ha
  rw [hone, Option.map_some, Option.some.injEq] at hheight
  rw [hheight]
  decide

/-- **A flush matures a coinstake.**  Its output cannot be spent in the next block, unless the
coins were flushed and read again. -/
theorem reloaded_stake_spent :
    CoinMap.Sound nd.toCrypto parityKeys start ∧ nd.fTestNet = false ∧
      Connectable nd parityKeys start staked ∧
      ∃ s s', [.connect staked].foldlM (CoinNode.step nd.toCrypto parityKeys) ⟨start, []⟩ = .ok s ∧
        [.connect staked, .flush].foldlM (CoinNode.step nd.toCrypto parityKeys) ⟨start, []⟩ =
          .ok s' ∧
        s.chain.map Prod.fst = s'.chain.map Prod.fst ∧
        (checkTxInputs nd.toNode (spendOf stakeOut 5) ({ coins := s.coins }) 101 false 0).result =
          .error (invalid "bad-txns-premature-spend-of-coinbase") ∧
        (checkTxInputs nd.toNode (spendOf stakeOut 5) ({ coins := s'.coins }) 101 false 0).result =
          .ok () := by
  let verdict : CoinNode (ZMod groupOrder) → Except Failure Unit := fun s =>
    (checkTxInputs nd.toNode (spendOf stakeOut 5) ({ coins := s.coins }) 101 false 0).result
  obtain ⟨s, hs, hrejected⟩ := Except.exists_of_map_eq_ok
    (b := .error (invalid "bad-txns-premature-spend-of-coinbase")) (f := verdict)
    (show ([.connect staked].foldlM (CoinNode.step nd.toCrypto parityKeys) ⟨start, []⟩).map _ = _
      by decide +kernel)
  obtain ⟨s', hs', haccepted⟩ := Except.exists_of_map_eq_ok (b := .ok ()) (f := verdict)
    (show ([.connect staked, .flush].foldlM (CoinNode.step nd.toCrypto parityKeys)
      ⟨start, []⟩).map _ = _ by decide +kernel)
  refine ⟨sound_start, rfl, ?_, s, s', hs, hs', ?_, hrejected, haccepted⟩
  · exact connectable_of_checkMove (u := ⟨start, []⟩) (by decide +kernel)
  · rw [chain_of_run hs, chain_of_run hs']
    rfl

end ReloadedStake

end Navcoin
