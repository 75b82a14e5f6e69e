import Navcoin.Dao.StateMoves
import Navcoin.Validation.CheckedObjects

/-!
# Open consultations about a parameter

A consultation about a parameter is rejected while another one about it is going on.  The test
looks at the consultations of the active chain, to which the block that is being connected does
not belong yet: two transactions of one block do not see each other.

* `TipConnected.consultation_origin`: the consultations after a block;
* `ConsultationsPlaced`: every consultation is of a block of the active chain;
* `uniqueOpen_after`: along a chain whose blocks do not add two consultations about one parameter,
  at most one is open;
* `SameBlock.both_open`: a block that does.
-/

namespace Navcoin

variable {d : CConsultation} {p : ConsensusParam}

/-! ## Consultations about a parameter -/

/-- The consultation is about the parameter and not over. -/
def CConsultation.isOpenAbout (r : DaoRules) (p : ConsensusParam) (c : CConsultation) : Bool :=
  !c.isFinished r && c.getParameters.contains p.toNat

/-- At most one consultation about a parameter is not over. -/
def DaoView.UniqueOpen (r : DaoRules) (view : DaoView) : Prop :=
  ∀ p k k' c d, view.consultations.find? k = some c → view.consultations.find? k' = some d →
    c.isOpenAbout r p = true → d.isOpenAbout r p = true → k = k'

/-- The consultations that the second view has in addition share no parameter. -/
def DaoView.AddsApart (view view' : DaoView) : Prop :=
  ∀ c ∈ view'.consultations.entries, ∀ d ∈ view'.consultations.entries,
    view.getConsultation c.hash = none → view.getConsultation d.hash = none →
    (∃ p ∈ c.getParameters, p ∈ d.getParameters) → c.hash = d.hash

instance (view view' : DaoView) : Decidable (view.AddsApart view') := by
  unfold DaoView.AddsApart
  infer_instance

theorem CConsultation.Answered.isOpenAbout {c : CConsultation} (h : c.Answered d) (r : DaoRules)
    (p : ConsensusParam) : d.isOpenAbout r p = c.isOpenAbout r p := by
  rw [h]
  rfl

theorem CConsultation.SameTerms.getParameters {c : CConsultation} (h : c.SameTerms d) :
    d.getParameters = c.getParameters := by
  rw [h]
  rfl

theorem CConsultation.mem_of_isOpenAbout {r : DaoRules} {c : CConsultation}
    (h : c.isOpenAbout r p = true) : c.isFinished r = false ∧ p.toNat ∈ c.getParameters := by
  simpa [isOpenAbout] using h

theorem CConsultation.isAbout_of_mem {c : CConsultation} {n : Nat} (h : n ∈ c.getParameters) :
    c.isAboutConsensusParameter = true := by
  unfold getParameters at h
  split at h
  · next habout => exact habout
  · cases h

variable {k : Uint256}

/-- A consultation of the active chain that is open is found by the test. -/
theorem activeAbout_of_isOpenAbout {nd : DaoNode} {pindexPrev b : CBlockIndex} {view : DaoView}
    {c : CConsultation} (hc : view.getConsultation k = some c)
    (hblock : nd.mapBlockIndex c.txblockhash = some b)
    (hchain : nd.chainActiveContains pindexPrev b = true)
    (hopen : c.isOpenAbout nd.toDaoRules p = true) :
    activeAbout nd pindexPrev view p.toNat = true := by
  obtain ⟨hfind, hnull⟩ := DaoView.find?_of_getConsultation hc
  obtain ⟨hmem, _⟩ := OrderedMap.find?_eq_some_iff.mp hfind
  obtain ⟨hfinished, hparam⟩ := CConsultation.mem_of_isOpenAbout hopen
  rw [activeAbout, List.any_eq_true]
  refine ⟨c, ?_, ?_⟩
  · show c ∈ view.consultations.entries.filter _
    rw [List.mem_filter]
    exact ⟨hmem, by simp [hnull]⟩
  · simp [hblock, hchain, hfinished, hparam, CConsultation.isAbout_of_mem hparam]

namespace NodeState

variable {G : Type}

/-- The consultations have a question and are of blocks of the active chain. -/
structure ConsultationsPlaced (nd : ChainNode G) (s : NodeState G) : Prop where
  question : ∀ k c, s.view.consultations.find? k = some c → c.strDZeel ≠ []
  placed : ∀ k c, s.view.consultations.find? k = some c →
    ∃ b ∈ s.chainActive, nd.mapBlockIndex c.txblockhash = some b

theorem ConsultationsPlaced.of_empty {nd : ChainNode G} {s : NodeState G}
    (h : s.view.consultations = ∅) : s.ConsultationsPlaced nd := by
  constructor
  all_goals
    intro k c hc
    rw [h] at hc
    cases hc

variable [G1Group G] [DecidableEq G] {nd : ChainNode G} {s s' : NodeState G} {e : BlockEntry G}
  {pprev tip : CBlockIndex} {c : Connected G} {r : VoteStepResult}

/-! ## One block -/

section Block

variable (h : TipConnected nd s e s' pprev c r)
include h

theorem TipConnected.hash_eq : e.block.hash = e.pindex.hashBlock := by
  have honTop := h.onTop
  simp only [BlockEntry.isOnTop, Bool.and_eq_true, beq_iff_eq] at honTop
  exact honTop.1.1.1.2.symm

/-- A consultation after the step: as the block left it, but for counts and states, and open only
if it was open. -/
theorem TipConnected.consultation_origin (hs : s.Grounded nd tip)
    {d' : CConsultation} (hd' : s'.view.consultations.find? k = some d') :
    ∃ d, c.locals.view.consultations.find? k = some d ∧ d.SameTerms d' ∧
      ∀ p, d'.isOpenAbout nd.toDaoRules p = true → d.isOpenAbout nd.toDaoRules p = true := by
  obtain ⟨hpos, hbelow, _⟩ := h.below hs
  rw [h.view] at hd'
  obtain ⟨d, hd, hout⟩ := OrderedMap.Kept.exists_left (ForwardStep.consultations_at h.voted) hd'
  refine ⟨d, hd, hout.terms, fun p hopen => ?_⟩
  obtain ⟨hopen, hmem⟩ := CConsultation.mem_of_isOpenAbout hopen
  rw [hout.terms.getParameters] at hmem
  suffices hnot : d.isFinished nd.toDaoRules = false by
    simp [CConsultation.isOpenAbout, hnot, hmem]
  by_contra hfinished
  rw [Bool.not_eq_false] at hfinished
  obtain ⟨d₁, decision, hcount, hdecided, _, hstates⟩ := hout.states
  have hnone := ForwardStep.consultationDecided_finished hcount hfinished hdecided
  have hlast : d'.getLastState nd.mapBlockIndex = d.getLastState nd.mapBlockIndex := by
    unfold CConsultation.getLastState
    rw [hstates, hnone]
    exact StateMap.getLastState_decided h.known hpos (hbelow.consultations k d hd) none
  unfold CConsultation.isFinished at hfinished hopen
  rw [show d'.getLastState nd.toDaoRules.mapBlockIndex = _ from hlast, hfinished] at hopen
  cases hopen

/-- A consultation that the block left has a question and is of a block of the chain. -/
theorem TipConnected.connected_placed (hplaced : s.ConsultationsPlaced nd)
    (hd : c.locals.view.consultations.find? k = some d) :
    d.strDZeel ≠ [] ∧ ∃ b ∈ s'.chainActive, nd.mapBlockIndex d.txblockhash = some b := by
  have hchain : s'.chainActive = e.pindex :: s.chainActive := by rw [h.state]; rfl
  rw [hchain]
  rcases h.checked.consultations k d hd with ⟨d₀, hd₀, hanswered⟩ | ⟨_, _, _, hchecked⟩
  · have htext : d.strDZeel = d₀.strDZeel := (congrArg CConsultation.strDZeel hanswered : _)
    have hblock : d.txblockhash = d₀.txblockhash :=
      (congrArg CConsultation.txblockhash hanswered : _)
    obtain ⟨b, hb, hmap⟩ := hplaced.placed k d₀ hd₀
    rw [htext, hblock]
    exact ⟨hplaced.question k d₀ hd₀, b, List.mem_cons_of_mem _ hb, hmap⟩
  · refine ⟨hchecked.question, e.pindex, List.mem_cons_self, ?_⟩
    rw [hchecked.txblockhash, h.hash_eq]
    exact h.known

end Block

/-- **The consultations of the active chain**, after a block. -/
theorem ConsultationsPlaced.connectTip (hplaced : s.ConsultationsPlaced nd) (hs : s.Grounded nd tip)
    (h : TipConnected nd s e s' pprev c r) : s'.ConsultationsPlaced nd := by
  constructor
  · intro k d' hd'
    obtain ⟨d, hd, hterms, _⟩ := h.consultation_origin hs hd'
    have htext : d'.strDZeel = d.strDZeel := (congrArg CConsultation.strDZeel hterms : _)
    rw [htext]
    exact (h.connected_placed hplaced hd).1
  · intro k d' hd'
    obtain ⟨d, hd, hterms, _⟩ := h.consultation_origin hs hd'
    have hblock : d'.txblockhash = d.txblockhash := (congrArg CConsultation.txblockhash hterms : _)
    rw [hblock]
    exact (h.connected_placed hplaced hd).2

omit [G1Group G] [DecidableEq G] in
/-- While a consultation is open, the checks find it. -/
theorem ConsultationsPlaced.activeAbout_of_open (hplaced : s.ConsultationsPlaced nd) {v : DaoView}
    (hv : s.view.KeepsConsultations v) (hd : s.view.getConsultation k = some d)
    (hopen : d.isOpenAbout nd.toDaoRules p = true) :
    activeAbout (s.node nd).toDaoNode pprev v p.toNat = true := by
  obtain ⟨d₁, hd₁, hanswered⟩ := hv k d hd
  obtain ⟨b, hb, hmap⟩ := hplaced.placed k d (DaoView.find?_of_getConsultation hd).1
  have hblock : d₁.txblockhash = d.txblockhash := (congrArg CConsultation.txblockhash hanswered : _)
  exact activeAbout_of_isOpenAbout hd₁ (hblock ▸ hmap) (by simpa [node] using hb)
    ((hanswered.isOpenAbout nd.toDaoRules p).trans hopen)

omit [G1Group G] [DecidableEq G] in
/-- A consultation that the block adds is about no parameter that another one is open about. -/
theorem ConsultationsPlaced.not_open_of_added (hplaced : s.ConsultationsPlaced nd) {v : DaoView}
    {blockhash : Uint256} {d₀ : CConsultation} (hv : s.view.KeepsConsultations v)
    (hchecked : ConsultationChecked (s.node nd).toDaoNode pprev blockhash v d)
    (hd : p.toNat ∈ d.getParameters) (hd₀ : s.view.consultations.find? k = some d₀)
    (hopen : d₀.isOpenAbout nd.toDaoRules p = true) : False := by
  obtain ⟨_, hinactive⟩ := hchecked.inactive (CConsultation.isAbout_of_mem hd) _ hd
  have hget := DaoView.getConsultation_of_find? hd₀
    (CConsultation.isNull_of_question (hplaced.question k d₀ hd₀))
  rw [hplaced.activeAbout_of_open hv hget hopen] at hinactive
  cases hinactive

/-- **One block.** -/
theorem TipConnected.uniqueOpen (h : TipConnected nd s e s' pprev c r) (hs : s.Grounded nd tip)
    (hplaced : s.ConsultationsPlaced nd) (hunique : s.view.UniqueOpen nd.toDaoRules)
    (hadds : s.view.AddsApart c.locals.view.toDaoView) : s'.view.UniqueOpen nd.toDaoRules := by
  intro p k₁ k₂ d₁' d₂' hd₁' hd₂' hopen₁' hopen₂'
  obtain ⟨d₁, hd₁, _, hback₁⟩ := h.consultation_origin hs hd₁'
  obtain ⟨d₂, hd₂, _, hback₂⟩ := h.consultation_origin hs hd₂'
  have hopen₁ := hback₁ p hopen₁'
  have hopen₂ := hback₂ p hopen₂'
  obtain ⟨_, hmem₁⟩ := CConsultation.mem_of_isOpenAbout hopen₁
  obtain ⟨_, hmem₂⟩ := CConsultation.mem_of_isOpenAbout hopen₂
  rcases h.checked.consultations k₁ d₁ hd₁ with ⟨c₁, hc₁, hanswered₁⟩ | ⟨hnone₁, v₁, hv₁, hok₁⟩
  · rw [hanswered₁.isOpenAbout] at hopen₁
    rcases h.checked.consultations k₂ d₂ hd₂ with ⟨c₂, hc₂, hanswered₂⟩ | ⟨_, v₂, hv₂, hok₂⟩
    · rw [hanswered₂.isOpenAbout] at hopen₂
      exact hunique p k₁ k₂ c₁ c₂ hc₁ hc₂ hopen₁ hopen₂
    · exact (hplaced.not_open_of_added hv₂ hok₂ hmem₂ hc₁ hopen₁).elim
  · rcases h.checked.consultations k₂ d₂ hd₂ with ⟨c₂, hc₂, hanswered₂⟩ | ⟨hnone₂, _, _, _⟩
    · rw [hanswered₂.isOpenAbout] at hopen₂
      exact (hplaced.not_open_of_added hv₁ hok₁ hmem₁ hc₂ hopen₂).elim
    · obtain ⟨hentry₁, rfl⟩ := OrderedMap.find?_eq_some_iff.mp hd₁
      obtain ⟨hentry₂, rfl⟩ := OrderedMap.find?_eq_some_iff.mp hd₂
      exact hadds d₁ hentry₁ d₂ hentry₂ hnone₁ hnone₂ ⟨p.toNat, hmem₁, hmem₂⟩

/-! ## A chain -/

/-- The block adds no two consultations about one parameter. -/
def AddsConsultationsApart (nd : ChainNode G) (s : NodeState G) (e : BlockEntry G) : Prop :=
  ∀ pprev c, s.chainActive.head? = some pprev → (s.connects nd pprev e).result = .ok c →
    s.view.AddsApart c.locals.view.toDaoView

/-- **At most one consultation about a parameter is open** at every block of a chain whose blocks
do not add two consultations about one parameter. -/
theorem uniqueOpen_after {l : List (BlockEntry G)} (hs : s.Grounded nd tip)
    (hempty : s.view.consultations = ∅)
    (hadds : ∀ n e u, l[n]? = some e → after nd s l n = .ok u → u.AddsConsultationsApart nd e)
    {n : Nat} {t : NodeState G} (h : after nd s l n = .ok t) :
    t.view.UniqueOpen nd.toDaoRules := by
  have hrun := Run.after_induction
    (P := fun _ (u : NodeState G) => (∃ tip', u.Grounded nd tip') ∧
      u.ConsultationsPlaced nd ∧ u.view.UniqueOpen nd.toDaoRules) ?_ ?_ (fun _ _ hu => hu) h
  · exact hrun.2.2
  · refine ⟨⟨tip, hs⟩, .of_empty hempty, ?_⟩
    intro _ k _ d _ hd
    rw [hempty] at hd
    cases hd
  · rintro n e u t he hu ⟨⟨tip', hground⟩, hplaced, hunique⟩ hstep
    obtain ⟨pprev, c, r, hc⟩ := connectTip_ok hstep
    exact ⟨⟨e.pindex, hground.connectTip hstep⟩, hplaced.connectTip hground hc,
      hc.uniqueOpen hground hplaced hunique (hadds n e u he hu pprev c hc.head hc.connected)⟩

end NodeState

/-! ## Two consultations of one block -/

namespace SameBlock

/-- Consultations about the length of a voting cycle, and one about the fee of a name. -/
def objects : List (Bytes × JsonObject) :=
  [([1], jsonOf [('v', numMember 13), ('m', numMember 0), ('n', numMember 1),
      ('q', textMember "first")]),
    ([2], jsonOf [('v', numMember 13), ('m', numMember 0), ('n', numMember 1),
      ('q', textMember "second")]),
    ([3], jsonOf [('v', numMember 13), ('m', numMember 22), ('n', numMember 1),
      ('q', textMember "third")])]

def nd : ChainNode (ZMod groupOrder) := daoChain fundAndDao objects

def start : NodeState (ZMod groupOrder) := freshNode 100 [navOutput 3, navOutput 5]

def first : CTransaction (ZMod groupOrder) := daoTx consultationVersion 0 3 [1]

def second : CTransaction (ZMod groupOrder) :=
  { daoTx consultationVersion 1 5 [2] with nTime := 1 }

def third : CTransaction (ZMod groupOrder) :=
  { daoTx consultationVersion 1 5 [3] with nTime := 1 }

/-- The consultation of the transaction is open. -/
def opens (tx : CTransaction (ZMod groupOrder)) (p : ConsensusParam)
    (s : NodeState (ZMod groupOrder)) : Bool :=
  (s.view.consultations.find? (tx.getHash nd.toCrypto)).any (·.isOpenAbout nd.toDaoRules p)

theorem opens_eq_true {tx : CTransaction (ZMod groupOrder)} {s : NodeState (ZMod groupOrder)}
    (h : opens tx p s = true) : ∃ c, s.view.consultations.find? (tx.getHash nd.toCrypto) = some c ∧
      c.isOpenAbout nd.toDaoRules p = true :=
  (Option.any_eq_true _ _).mp h

/-- **Two consultations about the length of a voting cycle**, in one block. -/
theorem both_open :
    start.view.consultations = ∅ ∧
      ∃ t, NodeState.after nd start [entryAt 2 [] [] [first, second]] 1 = .ok t ∧
        ¬ t.view.UniqueOpen nd.toDaoRules := by
  refine ⟨rfl, ?_⟩
  have hrun : ((NodeState.after nd start [entryAt 2 [] [] [first, second]] 1).map fun t =>
      opens first .votingCycleLength t && opens second .votingCycleLength t) = .ok true := by
    decide +kernel
  obtain ⟨t, ht, hopens⟩ := Except.exists_of_map_eq_ok hrun
  rw [Bool.and_eq_true] at hopens
  refine ⟨t, ht, fun hunique => ?_⟩
  obtain ⟨c, hc, hopen⟩ := opens_eq_true hopens.1
  obtain ⟨d, hd, hopen'⟩ := opens_eq_true hopens.2
  have hsame := hunique .votingCycleLength _ _ c d hc hd hopen hopen'
  exact absurd hsame (by decide +kernel)

/-- A block with consultations about two parameters. -/
theorem uniqueOpen_apart :
    ∃ t, NodeState.after nd start [entryAt 2 [] [] [first, third]] 1 = .ok t ∧
      opens first .votingCycleLength t = true ∧ opens third .navnsFee t = true ∧
      t.view.UniqueOpen nd.toDaoRules := by
  have hrun : ((NodeState.after nd start [entryAt 2 [] [] [first, third]] 1).map fun t =>
      opens first .votingCycleLength t && opens third .navnsFee t) = .ok true := by
    decide +kernel
  have hadds : ((start.connects nd (fixedIndex 1) (entryAt 2 [] [] [first, third])).result.map
      fun c => decide (start.view.AddsApart c.locals.view.toDaoView)) = .ok true := by
    decide +kernel
  obtain ⟨t, ht, hopens⟩ := Except.exists_of_map_eq_ok hrun
  rw [Bool.and_eq_true] at hopens
  refine ⟨t, ht, hopens.1, hopens.2,
    NodeState.uniqueOpen_after (freshNode_grounded _ _ _ _ _) rfl ?_ ht⟩
  apply NodeState.forall_of_single
  intro pprev c hhead hc
  exact (NodeState.forall_of_connects rfl hadds pprev c hhead hc).2

end SameBlock

end Navcoin
