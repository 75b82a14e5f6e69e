import Navcoin.Dao.StepOutcomes
import Navcoin.Lib.Runs
import Navcoin.Validation.ConnectedObjects

/-!
# The active chain

`ConnectTip` connects a block on the view of the tip and takes the step of the DAO; the supplies
go to the index entry of the block.

* `connectTip_ok`: the parts of a tip that was connected;
* `Grounded`: states and parameters are of blocks of the chain; every node that starts without
  objects stays so (`grounded_after`).
-/

namespace Navcoin

variable {G : Type}

/-! ## The node -/

/-- The active chain with its tip first, the supplies in the index entries, the view at the tip,
and the votes and counts in global maps. -/
structure NodeState (G : Type) where
  chainActive : List CBlockIndex
  supplies : Uint256 → Supply := fun _ => {}
  view : CStateView G
  records : VoteRecords := fun _ => {}
  caches : VoteCaches := {}

/-- A block with its index entry. -/
structure BlockEntry (G : Type) where
  block : CBlock G
  pindex : CBlockIndex
  /-- off below the last checkpoint -/
  fScriptChecks : Bool := true

/-- The entry is the one of the block and stands on top of `pprev`. -/
def BlockEntry.isOnTop (nd : ChainNode G) (pprev : CBlockIndex) (e : BlockEntry G) : Bool :=
  nd.mapBlockIndex e.block.hash == some e.pindex && e.pindex.hashBlock == e.block.hash &&
    e.pindex.nHeight == pprev.nHeight + 1 && e.pindex.nTime == e.block.nTime.toNat &&
    e.pindex.fColdStakeV2 == e.block.stakerIsColdStakingv2

/-- The votes among the events of a block. -/
def recordedVotes (tr : List (Event G)) : List VoteRecord :=
  tr.filterMap fun w => match w with
    | .record vote => some vote
    | _ => none

namespace NodeState

/-- The node with its active chain. -/
def node (nd : ChainNode G) (s : NodeState G) : ChainNode G :=
  { nd with chainActiveContains := fun _ pindex => s.chainActive.contains pindex }

section Connect

variable [G1Group G] [DecidableEq G] (nd : ChainNode G)

/-- The call of `ConnectBlock` on the view of the tip. -/
def connects (s : NodeState G) (pprev : CBlockIndex) (e : BlockEntry G) :
    Traced (Event G) Failure (Connected G) :=
  connectBlock (s.node nd) e.block e.pindex pprev (s.supplies pprev.hashBlock) s.view
    e.fScriptChecks false

/-- The requests that the coinbase of the block pays. -/
def pays (s : NodeState G) (e : BlockEntry G) : List Uint256 :=
  match s.chainActive with
  | [] => []
  | pprev :: _ => paidRequests (s.connects nd pprev e).trace

/-- The step of the DAO after the block. -/
def forwardStep (s : NodeState G) (pprev : CBlockIndex) (e : BlockEntry G) (c : Connected G) :
    ForwardStep :=
  { nd := nd.toDaoNode
    records := s.records.insertAll e.block.hash (recordedVotes (s.connects nd pprev e).trace)
    caches := s.caches
    pindexNew := e.pindex
    ancestors := s.chainActive
    nCFSupply := c.supply.nCFSupply
    nCFLocked := c.supply.nCFLocked
    view := c.locals.view.toDaoView }

/-- The node with the block on top. -/
def withTip (s : NodeState G) (e : BlockEntry G) (c : Connected G) (records : VoteRecords)
    (r : VoteStepResult) : NodeState G :=
  { chainActive := e.pindex :: s.chainActive
    supplies := Function.update s.supplies e.pindex.hashBlock
      { c.supply with nCFSupply := r.nCFSupply, nCFLocked := r.nCFLocked }
    view := { c.locals.view with toDaoView := r.view }
    records
    caches := r.caches }

/-- `ConnectTip` -/
def connectTip (s : NodeState G) (e : BlockEntry G) : Except Failure (NodeState G) :=
  match s.chainActive with
  | [] => .error .assertion
  | pprev :: _ => do
    Except.rejectIf (!e.isOnTop nd pprev) .assertion
    let c ← (s.connects nd pprev e).result
    let f := s.forwardStep nd pprev e c
    let r ← f.run
    pure (s.withTip e c f.records r)

/-- The parts of a tip that was connected. -/
structure TipConnected (s : NodeState G) (e : BlockEntry G) (s' : NodeState G)
    (pprev : CBlockIndex) (c : Connected G) (r : VoteStepResult) : Prop where
  head : s.chainActive.head? = some pprev
  known : nd.mapBlockIndex e.pindex.hashBlock = some e.pindex
  nHeight : e.pindex.nHeight = pprev.nHeight + 1
  onTop : e.isOnTop nd pprev = true
  connected : (s.connects nd pprev e).result = .ok c
  pays : s.pays nd e = paidRequests (s.connects nd pprev e).trace
  voted : (s.forwardStep nd pprev e c).run = .ok r
  state : s' = s.withTip e c (s.forwardStep nd pprev e c).records r

variable {nd}

theorem connectTip_ok {s s' : NodeState G} {e : BlockEntry G} (h : s.connectTip nd e = .ok s') :
    ∃ pprev c r, TipConnected nd s e s' pprev c r := by
  unfold connectTip at h
  split at h
  · cases h
  · next pprev ancestors hchain =>
    simp only [Except.bind_eq_ok_iff, Except.rejectIf_eq_ok_iff, Except.pure_eq_ok_iff] at h
    obtain ⟨_, hentry, c, hconnected, r, hvoted, rfl⟩ := h
    rw [Bool.not_eq_true', Bool.not_eq_false] at hentry
    have hfields := hentry
    simp only [BlockEntry.isOnTop, Bool.and_eq_true, beq_iff_eq] at hfields
    obtain ⟨⟨⟨⟨hknown, hhash⟩, hheight⟩, _⟩, _⟩ := hfields
    exact ⟨pprev, c, r, by rw [hchain]; rfl, hhash ▸ hknown, hheight, hentry, hconnected,
      by rw [pays, hchain], hvoted, rfl⟩

end Connect

end NodeState

/-! ## States and parameters of blocks of the chain -/

/-- The states of the objects were set at a block or below it. -/
structure DaoView.StatesBelow (m : BlockMap) (pindex : CBlockIndex) (view : DaoView) : Prop where
  proposals : ∀ k p, view.proposals.find? k = some p → p.mapState.Below m pindex
  requests : ∀ k p, view.paymentRequests.find? k = some p → p.mapState.Below m pindex
  consultations : ∀ k c, view.consultations.find? k = some c → c.mapState.Below m pindex
  answers : ∀ k a, view.answers.find? k = some a → a.mapState.Below m pindex

namespace DaoView.StatesBelow

variable {m : BlockMap} {pindex : CBlockIndex} {view view' : DaoView}

theorem next (h : view.StatesBelow m pindex) (hm : m pindex.hashBlock = some pindex)
    {pindex' : CBlockIndex} (hlt : pindex.nHeight < pindex'.nHeight) :
    view.StatesBelow m pindex' :=
  ⟨fun k p hp => (h.proposals k p hp).next hm hlt, fun k p hp => (h.requests k p hp).next hm hlt,
    fun k c hc => (h.consultations k c hc).next hm hlt,
    fun k a ha => (h.answers k a ha).next hm hlt⟩

theorem below_nil : StateMap.Below m pindex [] := by
  intro e he
  cases he

theorem grown (h : view.StatesBelow m pindex) (hgrown : DaoGrown view view') :
    view'.StatesBelow m pindex := by
  refine ⟨?_, ?_, ?_, ?_⟩
  · intro k p hp
    rcases hgrown.proposals.exists_left hp with hnew | ⟨_, hold, rfl⟩
    · rw [hnew.1]
      exact below_nil
    · exact h.proposals k _ hold
  · intro k p hp
    rcases hgrown.requests.exists_left hp with hnew | ⟨_, hold, rfl⟩
    · rw [show p.mapState = [] from hnew]
      exact below_nil
    · exact h.requests k _ hold
  · intro k d hd
    rcases hgrown.consultations.exists_left hd with hnew | ⟨c, hold, hanswered⟩
    · rw [show d.mapState = [] from hnew]
      exact below_nil
    · have hstates : d.mapState = c.mapState := (congrArg CConsultation.mapState hanswered : _)
      rw [hstates]
      exact h.consultations k c hold
  · intro k a ha
    rcases hgrown.answers.exists_left ha with hnew | ⟨_, hold, rfl⟩
    · rw [show a.mapState = [] from hnew]
      exact below_nil
    · exact h.answers k _ hold

theorem paid (h : view.StatesBelow m pindex) {l : List Uint256}
    (hpaid : RequestsPaid pindex l view.paymentRequests view'.paymentRequests)
    (hframe : view' = { view with paymentRequests := view'.paymentRequests }) :
    view'.StatesBelow m pindex := by
  have hrequests : ∀ k p, view'.paymentRequests.find? k = some p →
      p.mapState.Below m pindex := by
    intro k p hp
    rw [hpaid.find?] at hp
    split at hp
    · obtain ⟨q, hq, rfl⟩ := Option.map_eq_some_iff.mp hp
      exact (h.requests k q hq).decided (some .paid)
    · exact h.requests k p hp
  rw [hframe]
  exact ⟨h.proposals, hrequests, h.consultations, h.answers⟩

/-- A step sets states at its block only. -/
theorem stepped {f : ForwardStep} {r : VoteStepResult}
    (h : f.view.StatesBelow m f.pindexNew) (hrun : f.run = .ok r) :
    r.view.StatesBelow m f.pindexNew := by
  refine ⟨?_, ?_, ?_, ?_⟩
  · intro k q hq
    obtain ⟨p, hp, hout⟩ := OrderedMap.Kept.exists_left (ForwardStep.proposals_at hrun) hq
    obtain ⟨decision, _, hstates⟩ := hout.states
    rw [hstates]
    exact (h.proposals k p hp).decided decision
  · intro k q hq
    obtain ⟨p, hp, hout⟩ := OrderedMap.Kept.exists_left (ForwardStep.requests_at hrun) hq
    obtain ⟨decision, _, hstates⟩ := hout.states
    rw [hstates]
    exact (h.requests k p hp).decided decision
  · intro k d hd
    obtain ⟨c, hc, hout⟩ := OrderedMap.Kept.exists_left (ForwardStep.consultations_at hrun) hd
    obtain ⟨_, decision, _, _, _, hstates⟩ := hout.states
    rw [hstates]
    exact (h.consultations k c hc).decided decision
  · intro k b hb
    obtain ⟨a, ha, hout⟩ := OrderedMap.Kept.exists_left (ForwardStep.answers_at hrun) hb
    obtain ⟨decision, hstates⟩ := hout.states
    rw [hstates]
    exact (h.answers k a ha).decided decision

end DaoView.StatesBelow

theorem ForwardStep.paramsBelow {f : ForwardStep} {r : VoteStepResult}
    (h : f.view.ParamsBelow f.pindexNew.nHeight) (hrun : f.run = .ok r) :
    r.view.ParamsBelow f.pindexNew.nHeight := by
  obtain ⟨_, ⟨_, _, rfl⟩ | ⟨objects, o⟩⟩ := run_ok hrun
  · exact h
  · have hrest : f.counted.rest.parameters = f.view.parameters := by
      rw [f.counted_ok.rest]
      rfl
    intro p e he
    have hparams : r.view.parameters p = (changeParameters f.context objects.mapConsensusToChange
        f.counted.rest).parameters p := by
      rw [o.view]
      rfl
    rw [hparams, parameters_changeParameters, hrest] at he
    split at he
    · rcases OrderedMap.mem_assign.mp he with rfl | ⟨hmem, _⟩
      · exact le_refl _
      · exact h p e hmem
    · exact h p e he

namespace NodeState

/-- The tip is known, and states and parameters were set at the tip or below it. -/
structure Grounded (nd : ChainNode G) (s : NodeState G) (tip : CBlockIndex) : Prop where
  head : s.chainActive.head? = some tip
  known : nd.mapBlockIndex tip.hashBlock = some tip
  nHeight : 0 ≤ tip.nHeight
  states : s.view.StatesBelow nd.mapBlockIndex tip
  params : s.view.ParamsBelow tip.nHeight

section Connect

variable [G1Group G] [DecidableEq G] {nd : ChainNode G} {s s' : NodeState G} {e : BlockEntry G}
  {pprev tip : CBlockIndex} {c : Connected G} {r : VoteStepResult}

theorem TipConnected.view (h : TipConnected nd s e s' pprev c r) : s'.view.toDaoView = r.view := by
  rw [h.state]
  rfl

/-- The objects before the step of the DAO. -/
theorem TipConnected.objects (h : TipConnected nd s e s' pprev c r) :
    ∃ mid, BlockObjects e.block e.pindex (s.supplies pprev.hashBlock) (s.pays nd e)
      s.view.toDaoView mid c.locals.view.toDaoView c.supply := by
  rw [h.pays]
  exact connectBlock_objects h.connected

/-- The block connected, before the step of the DAO. -/
theorem TipConnected.below (h : TipConnected nd s e s' pprev c r) (hs : s.Grounded nd tip) :
    0 < e.pindex.nHeight ∧ c.locals.view.StatesBelow nd.mapBlockIndex e.pindex ∧
      c.locals.view.ParamsBelow e.pindex.nHeight := by
  have hprev : pprev = tip := by
    have htip := h.head
    rw [hs.head] at htip
    exact (Option.some.inj htip).symm
  subst hprev
  have hheight := h.nHeight
  have hpos := hs.nHeight
  obtain ⟨mid, hobj⟩ := h.objects
  refine ⟨by omega, ?_, ?_⟩
  · exact ((hs.states.next hs.known (by omega)).grown hobj.grown).paid hobj.paid hobj.frame
  · intro p it hit
    have hparams : c.locals.view.parameters = s.view.parameters := by
      rw [hobj.frame]
      exact hobj.grown.params.parameters
    rw [hparams] at hit
    have := hs.params p it hit
    omega

/-- **A connected tip is grounded.** -/
theorem Grounded.connectTip (hs : s.Grounded nd tip) (h : s.connectTip nd e = .ok s') :
    s'.Grounded nd e.pindex := by
  obtain ⟨pprev, c, r, hc⟩ := connectTip_ok h
  obtain ⟨hpos, hstates, hparams⟩ := hc.below hs
  rw [hc.state]
  refine ⟨rfl, hc.known, hpos.le, ?_, ?_⟩
  · exact DaoView.StatesBelow.stepped hstates hc.voted
  · exact ForwardStep.paramsBelow hparams hc.voted

/-- The state after the first blocks of a chain. -/
def after (nd : ChainNode G) (s : NodeState G) (l : List (BlockEntry G)) (n : Nat) :
    Except Failure (NodeState G) :=
  Run.after (NodeState.connectTip nd) s l n

theorem grounded_after {l : List (BlockEntry G)} {n : Nat} (hs : s.Grounded nd tip)
    (h : after nd s l n = .ok s') : ∃ tip', s'.Grounded nd tip' := by
  refine Run.after_induction (P := fun _ (t : NodeState G) => ∃ tip', t.Grounded nd tip')
    ⟨tip, hs⟩ ?_ (fun _ _ ht => ht) h
  rintro _ e u t _ _ ⟨tip', hu⟩ hstep
  exact ⟨e.pindex, hu.connectTip hstep⟩

/-- A block of a chain, with the state it was connected to. -/
theorem exists_tipConnected {l : List (BlockEntry G)} {n : Nat} (hs : s.Grounded nd tip)
    (he : l[n]? = some e) (h : after nd s l (n + 1) = .ok s') :
    ∃ u pprev c r tip', after nd s l n = .ok u ∧ u.Grounded nd tip' ∧
      TipConnected nd u e s' pprev c r := by
  obtain ⟨u, hu, hstep⟩ := (Run.after_succ_eq_ok_iff he).mp h
  obtain ⟨tip', hground⟩ := grounded_after hs hu
  obtain ⟨pprev, c, r, hc⟩ := connectTip_ok hstep
  exact ⟨u, pprev, c, r, tip', hu, hground, hc⟩

/-- What holds of the one block of a chain. -/
theorem forall_of_single {P : NodeState G → BlockEntry G → Prop} (h : P s e) :
    ∀ n e' u, [e][n]? = some e' → after nd s [e] n = .ok u → P u e' := by
  intro n e' u he hu
  cases n with
  | zero =>
    cases he
    cases hu
    exact h
  | succ n => simp at he

/-- What was computed of a block, once it is connected. -/
theorem forall_of_connects {Q : Connected G → Prop} [DecidablePred Q]
    (hhead : s.chainActive.head? = some pprev)
    (h : ((s.connects nd pprev e).result.map fun c => decide (Q c)) = .ok true) :
    ∀ pprev' c, s.chainActive.head? = some pprev' → (s.connects nd pprev' e).result = .ok c →
      pprev' = pprev ∧ Q c := by
  intro pprev' c hhead' hc
  rw [hhead] at hhead'
  cases hhead'
  obtain ⟨c', hc', hQ⟩ := Except.exists_of_map_eq_ok h
  rw [hc] at hc'
  cases hc'
  exact ⟨rfl, of_decide_eq_true hQ⟩

end Connect

end NodeState

/-! ## Concrete chains -/

/-- The concrete chain, on which texts are read as the given objects. -/
def daoChain (d : Deployments) (objects : List (Bytes × JsonObject)) :
    ChainNode (ZMod groupOrder) :=
  { fixedChain true d with
    readObject := fun s => (objects.find? fun e => e.1 = s).map Prod.snd }

def fundAndDao : Deployments := { communityFund := true, dao := true }

def textMember (s : String) : JsonMember := .value (.str (ascii s))

def numMember (n : Int) : JsonMember := .value (.num (some n))

def jsonOf (members : List (Char × JsonMember)) : JsonObject := fun c =>
  ((members.find? fun e => e.1 = c).map Prod.snd).getD (.value .other)

/-- Parameters with cycles of two blocks and without fees. -/
def shortCycles : ConsensusParam → Int
  | .votingCycleLength => 2
  | .proposalMinQuorum | .paymentRequestMinQuorum => 5000
  | .proposalMinAccept | .paymentRequestMinAccept => 4000
  | .proposalMinReject | .paymentRequestMinReject => 7000
  | .consultationMinCycles | .consultationReflectionLength => 1
  | .proposalMaxVotingCycles | .paymentRequestMaxVotingCycles | .consultationMaxVotingCycles
  | .consultationMaxSupportCycles => 10
  | .dotnavMaxData | .fundSpreadAccumulation => 1
  | _ => 0

/-- A node at height one, without objects of the DAO. -/
def freshNode (nCFSupply : Int) (vout : List (CTxOut (ZMod groupOrder))) :
    NodeState (ZMod groupOrder) :=
  { chainActive := [fixedIndex 1]
    supplies := fun _ => { nCFSupply }
    view := { coinView vout with consensusParams := shortCycles } }

/-- The block of height `n`, with the given outputs in its coinbase. -/
def entryAt (n : Nat) (vout : List (CTxOut (ZMod groupOrder))) (strDZeel : Bytes)
    (vtx : List (CTransaction (ZMod groupOrder))) : BlockEntry (ZMod groupOrder) :=
  { block := { hash := BitVec.ofNat 256 n, vtx := coinbaseOf (navOutput 0 :: vout) strDZeel :: vtx }
    pindex := fixedIndex n }

/-- A transaction that spends a coin of `coinView` and carries a text. -/
def daoTx (nVersion : BitVec 32) (n : UInt32) (nValue : Int) (strDZeel : Bytes) :
    CTransaction (ZMod groupOrder) :=
  { nVersion, vin := [coinInput n], vout := [navOutput nValue], strDZeel }

def fundVote (kind vote : UInt8) (hash : Uint256) : CTxOut (ZMod groupOrder) :=
  { nValue := 0, scriptPubKey := [opReturn, opCfund, kind, vote, 0x20] ++ writeUint256 hash }

def answerVote (hash : Uint256) : CTxOut (ZMod groupOrder) :=
  { nValue := 0, scriptPubKey := [opReturn, opConsultation, opAnswer, 0x20] ++ writeUint256 hash }

def supportVote (hash : Uint256) : CTxOut (ZMod groupOrder) :=
  { nValue := 0, scriptPubKey := [opReturn, opDao, opYes, 0x20] ++ writeUint256 hash }

/-- `vParameters` of `CDevNetParams` -/
def devNetParams : ConsensusParam → Int
  | .votingCycleLength => 10
  | .consultationMinSupport | .consultationAnswerMinSupport => 150
  | .consultationMinCycles => 2
  | .consultationMaxVotingCycles | .consultationMaxSupportCycles => 4
  | .consultationReflectionLength => 1
  | .consultationMinFee => 10000000000
  | .consultationAnswerMinFee => 5000000000
  | .proposalMinQuorum => 5000
  | .proposalMinAccept | .proposalMinReject => 7000
  | .proposalMinFee => 5000000000
  | .proposalMaxVotingCycles => 6
  | .paymentRequestMinQuorum => 5000
  | .paymentRequestMinAccept | .paymentRequestMinReject => 7000
  | .paymentRequestMinFee => 0
  | .paymentRequestMaxVotingCycles => 8
  | .fundSpreadAccumulation => 500
  | .fundPercentPerBlock => 2000
  | .generationPerBlock => 250000000
  | .navnsFee => 1000000000
  | .daoVoteLightMinFee => 10000000
  | .confidentialTokensEnabled => 1
  | .dotnavLength => 400
  | .dotnavMaxData => 1024
  | .dotnavFeeExtraData => 300000000

/-- A node of the development network at height one, without objects of the DAO. -/
def devNetNode (vout : List (CTxOut (ZMod groupOrder))) : NodeState (ZMod groupOrder) :=
  { freshNode 0 vout with view := { coinView vout with consensusParams := devNetParams } }

theorem freshNode_grounded (d : Deployments) (objects : List (Bytes × JsonObject))
    (nCFSupply : Int) (vout : List (CTxOut (ZMod groupOrder)))
    (consensusParams : ConsensusParam → Int) :
    { freshNode nCFSupply vout with view := { coinView vout with consensusParams } }.Grounded
      (daoChain d objects) (fixedIndex 1) := by
  refine ⟨rfl, rfl, by decide, ⟨?_, ?_, ?_, ?_⟩, ?_⟩
  all_goals
    intro _ _ h
    cases h

/-- A transaction that gives a coin of `coinView` to the fund, and carries a text. -/
def contributionTx (nVersion : BitVec 32) (n : UInt32) (nValue : Int) (strDZeel : Bytes) :
    CTransaction (ZMod groupOrder) :=
  { nVersion, vin := [coinInput n], strDZeel
    vout := [{ nValue, scriptPubKey := [opReturn, opCfund] }] }

end Navcoin
