import Navcoin.Validation.ParameterBounds

/-!
# The cycles of a consultation

An answer that changes the minimum of the cycles of a consultation is checked with the maximum of
that time, and is rejected while a consultation about the maximum is open; and the other way round.

* `CyclesInOrder`: the parameters are in order, also with the values that open answers ask for;
* `cycles_in_order_after`: so it is along a chain without super consultations about them, whose
  blocks do not add answers about both;
* `CrossedCycles.crossed`: a super consultation that changes both.
-/

namespace Navcoin

variable {p q : ConsensusParam}

open ForwardStep (asks)

/-! ## Order -/

/-- The minimum and the maximum, in either order. -/
inductive Opposite : ConsensusParam → ConsensusParam → Prop
  | minMax : Opposite .consultationMinCycles .consultationMaxSupportCycles
  | maxMin : Opposite .consultationMaxSupportCycles .consultationMinCycles

theorem Opposite.symm (h : Opposite p q) : Opposite q p := by
  cases h with
  | minMax => exact .maxMin
  | maxMin => exact .minMax

/-- A value of the one parameter fits a value of the other. -/
def InOrder (p : ConsensusParam) (val other : Nat) : Prop :=
  if p = .consultationMinCycles then val ≤ other else other ≤ val

/-- A value that was checked fits the other parameter, about which no consultation is active. -/
theorem Opposite.inOrder_of_valid (h : Opposite p q) {nd : DaoNode} {pindexPrev : CBlockIndex}
    {view : DaoView} {e : Nat × Bytes} (hp : p.toNat = e.1)
    (hvalid : isValidParameterValue nd pindexPrev view e.1 e.2 = true) :
    InOrder p (changeValue e) (view.param q) ∧ activeAbout nd pindexPrev view q.toNat = false := by
  obtain ⟨hadmits, hmin, hmax⟩ := admits_of_valid hp hvalid
  cases h with
  | minMax =>
    refine ⟨?_, hmin rfl⟩
    simpa [ConsensusParam.admits, ConsensusParam.type, InOrder] using hadmits
  | maxMin =>
    refine ⟨?_, hmax rfl⟩
    simpa [ConsensusParam.admits, ConsensusParam.type, InOrder] using hadmits

/-- The answer is to a consultation of the view that is open about the parameter. -/
structure OpenAnswer (r : DaoRules) (view : DaoView) (p : ConsensusParam) (k : Uint256)
    (a : CConsultationAnswer) (d : CConsultation) : Prop where
  answer : view.answers.find? k = some a
  parent : view.getConsultation a.parent = some d
  isOpen : d.isOpenAbout r p = true

/-- The parameters are in order, also with the value that an open answer asks for, and not both
have open answers. -/
structure CyclesInOrder (r : DaoRules) (view : DaoView) : Prop where
  params : view.param .consultationMinCycles ≤ view.param .consultationMaxSupportCycles
  answers : ∀ p q k a d, Opposite p q → OpenAnswer r view p k a d → ∀ e ∈ asks a d,
    e.1 = p.toNat → InOrder p (changeValue e) (view.param q)
  apart : ∀ p q k k' a b d d', Opposite p q → OpenAnswer r view p k a d →
    ¬ OpenAnswer r view q k' b d'

theorem CyclesInOrder.inOrder {r : DaoRules} {view : DaoView} (h : CyclesInOrder r view)
    (hpq : Opposite p q) : InOrder p (view.param p) (view.param q) := by
  cases hpq with
  | minMax => simpa [InOrder] using h.params
  | maxMin => simpa [InOrder] using h.params

/-! ## What is excluded -/

def cycleParams : List ConsensusParam := [.consultationMinCycles, .consultationMaxSupportCycles]

theorem Opposite.mem (h : Opposite p q) : p ∈ cycleParams := by
  cases h <;> decide

/-- No super consultation is about one of the parameters. -/
def DaoView.CyclesSingle (view : DaoView) : Prop :=
  ∀ d ∈ view.consultations.entries, ∀ p ∈ cycleParams, p.toNat ∈ d.getParameters →
    d.isSuper = false

/-- The second view does not have both an answer about the minimum and one about the maximum in
addition. -/
def DaoView.AddsOneKind (view view' : DaoView) : Prop :=
  ∀ a ∈ view'.answers.entries, ∀ b ∈ view'.answers.entries,
    view.answers.find? a.hash ≠ some a → view.answers.find? b.hash ≠ some b →
    ∀ d ∈ view'.getConsultation a.parent, ∀ d' ∈ view'.getConsultation b.parent,
      ConsensusParam.toNat .consultationMinCycles ∈ d.getParameters →
      ConsensusParam.toNat .consultationMaxSupportCycles ∉ d'.getParameters

/-- No answer about one of the parameters fires whose consultation is over. -/
def ForwardStep.FiresOpen (f : ForwardStep) : Prop :=
  ∀ a a₁ d, f.Fires a a₁ d → ∀ p ∈ cycleParams, p.toNat ∈ d.getParameters →
    d.isFinished f.nd.toDaoRules = false

instance (view : DaoView) : Decidable view.CyclesSingle := by
  unfold DaoView.CyclesSingle
  infer_instance

instance (view view' : DaoView) : Decidable (view.AddsOneKind view') := by
  unfold DaoView.AddsOneKind
  infer_instance

variable {k : Uint256}

theorem DaoView.AddsOneKind.not_both {view view' : DaoView} (h : view.AddsOneKind view')
    (hpq : Opposite p q) {k' : Uint256} {a b : CConsultationAnswer} {d d' : CConsultation}
    {r : DaoRules} (ha : OpenAnswer r view' p k a d) (hb : OpenAnswer r view' q k' b d')
    (hnew : view.answers.find? k ≠ some a) (hnew' : view.answers.find? k' ≠ some b) : False := by
  obtain ⟨hmem, rfl⟩ := OrderedMap.find?_eq_some_iff.mp ha.answer
  obtain ⟨hmem', rfl⟩ := OrderedMap.find?_eq_some_iff.mp hb.answer
  obtain ⟨_, hp⟩ := CConsultation.mem_of_isOpenAbout ha.isOpen
  obtain ⟨_, hq⟩ := CConsultation.mem_of_isOpenAbout hb.isOpen
  cases hpq with
  | minMax => exact h a hmem b hmem' hnew hnew' d ha.parent d' hb.parent hp hq
  | maxMin => exact h b hmem' a hmem hnew' hnew d' hb.parent d ha.parent hq hp

namespace NodeState

variable {G : Type} [G1Group G] [DecidableEq G] {nd : ChainNode G} {s s' : NodeState G}
  {e : BlockEntry G} {pprev tip : CBlockIndex} {c : Connected G} {r : VoteStepResult}
variable {p : ConsensusParam}

/-! ## The block -/

/-- An open answer of the view after the transactions: it was open before, or it was checked. -/
theorem TipConnected.openAnswer_origin (h : TipConnected nd s e s' pprev c r)
    (hparents : AnswersHave (fun _ _ => True) s.view.toDaoView)
    {a : CConsultationAnswer} {d : CConsultation}
    (ha : OpenAnswer nd.toDaoRules c.locals.view.toDaoView p k a d) :
    (∃ d₀, OpenAnswer nd.toDaoRules s.view.toDaoView p k a d₀ ∧ d₀.Answered d) ∨
      s.view.answers.find? k ≠ some a ∧ ∃ v pairs, s.view.SameParams v ∧
        s.view.KeepsConsultations v ∧
        AnswerChecked (s.node nd).toDaoNode pprev v d a pairs := by
  by_cases hold : s.view.answers.find? k = some a
  · obtain ⟨d₀, hd₀, _⟩ := hparents k a hold
    obtain ⟨d₁, hd₁, hanswered⟩ := h.checked.kept _ d₀ hd₀
    obtain rfl : d₁ = d := Option.some.inj (hd₁.symm.trans ha.parent)
    exact .inl ⟨d₀, ⟨hold, hd₀, (hanswered.isOpenAbout _ p) ▸ ha.isOpen⟩, hanswered⟩
  · rcases h.checked.answers k a ha.answer with hold' | ⟨d₁, hd₁, hchecked⟩
    · exact absurd hold' hold
    · obtain rfl : d₁ = d := Option.some.inj (hd₁.symm.trans ha.parent)
      obtain ⟨_, hp⟩ := CConsultation.mem_of_isOpenAbout ha.isOpen
      exact .inr ⟨hold, hchecked (CConsultation.isAbout_of_mem hp)⟩

omit [G1Group G] [DecidableEq G] in
/-- While an answer about one parameter is open, no answer about the other passes the checks. -/
theorem ConsultationsPlaced.not_checked_of_open (hplaced : s.ConsultationsPlaced nd)
    {q : ConsensusParam} (hpq : Opposite p q) {a b : CConsultationAnswer}
    {d d₀ : CConsultation} {v : DaoView} {pairs : List (Nat × Bytes)}
    (hb : OpenAnswer nd.toDaoRules s.view.toDaoView q k b d₀) (hv : s.view.KeepsConsultations v)
    (hp : p.toNat ∈ d.getParameters) (hok : AnswerChecked (s.node nd).toDaoNode pprev v d a pairs) :
    False := by
  obtain ⟨e, he, hkey⟩ := List.mem_map.mp (hok.parameters.mem_iff.mpr hp)
  obtain ⟨_, hinactive⟩ := hpq.inOrder_of_valid hkey.symm (hok.valid e he)
  rw [hplaced.activeAbout_of_open hv hb.parent hb.isOpen] at hinactive
  cases hinactive

/-- **The block.**  The answers that it adds fit the parameters. -/
theorem TipConnected.connected_cyclesInOrder (h : TipConnected nd s e s' pprev c r)
    (hplaced : s.ConsultationsPlaced nd)
    (hparents : AnswersHave (fun _ _ => True) s.view.toDaoView)
    (hold : CyclesInOrder nd.toDaoRules s.view.toDaoView)
    (hsingle : c.locals.view.CyclesSingle) (hadds : s.view.AddsOneKind c.locals.view.toDaoView) :
    CyclesInOrder nd.toDaoRules c.locals.view.toDaoView := by
  have hparams : c.locals.view.toDaoView.param = s.view.param := h.checked.params.param
  refine ⟨by rw [hparams]; exact hold.params, ?_, ?_⟩
  · intro p q k a d hpq ha pair hpair hkey
    rw [hparams]
    rcases h.openAnswer_origin hparents ha with ⟨d₀, ha₀, hanswered⟩ | ⟨_, v, pairs, hsame, _, hok⟩
    · rw [asks, hanswered.getParameters] at hpair
      exact hold.answers p q k a d₀ hpq ha₀ pair hpair hkey
    · obtain ⟨_, hp⟩ := CConsultation.mem_of_isOpenAbout ha.isOpen
      have hsuper := hsingle d (OrderedMap.find?_eq_some_iff.mp
        (DaoView.find?_of_getConsultation ha.parent).1).1 p hpq.mem hp
      have hvalid := hok.valid pair (by rw [hok.single hsuper]; exact hpair)
      have horder := (hpq.inOrder_of_valid hkey.symm hvalid).1
      rw [hsame.param] at horder
      exact horder
  · intro p q k k' a b d d' hpq ha hb
    obtain ⟨_, hp⟩ := CConsultation.mem_of_isOpenAbout ha.isOpen
    obtain ⟨_, hq⟩ := CConsultation.mem_of_isOpenAbout hb.isOpen
    rcases h.openAnswer_origin hparents ha with ⟨d₀, ha₀, _⟩ | ⟨hnew, v, pairs, _, hv, hok⟩
    · rcases h.openAnswer_origin hparents hb with ⟨d₀', hb₀, _⟩ | ⟨_, v', pairs', _, hv', hok'⟩
      · exact hold.apart p q k k' a b d₀ d₀' hpq ha₀ hb₀
      · exact hplaced.not_checked_of_open hpq.symm ha₀ hv' hq hok'
    · rcases h.openAnswer_origin hparents hb with ⟨d₀', hb₀, _⟩ | ⟨hnew', _⟩
      · exact hplaced.not_checked_of_open hpq hb₀ hv hp hok
      · exact hadds.not_both hpq ha hb hnew hnew'

/-! ## The step -/

section Block

variable (h : TipConnected nd s e s' pprev c r) (hs : s.Grounded nd tip)
include h hs

/-- An open answer after the step was open before it. -/
theorem TipConnected.openAnswer_before (hplaced : s.ConsultationsPlaced nd)
    {a' : CConsultationAnswer} {d' : CConsultation}
    (ha' : OpenAnswer nd.toDaoRules s'.view.toDaoView p k a' d') :
    ∃ a d, OpenAnswer nd.toDaoRules c.locals.view.toDaoView p k a d ∧ asks a' d' = asks a d := by
  obtain ⟨a, ha, hterms⟩ := h.answer_origin ha'.answer
  obtain ⟨d, hd, hterms', hback⟩ := h.parent_origin hs hplaced ha'.parent
  rw [hterms.parent] at hd
  refine ⟨a, d, ⟨ha, hd, hback p ha'.isOpen⟩, ?_⟩
  rw [asks, asks, hterms'.getParameters, hterms.getAnswers]

/-- A parameter of the two that changes was asked for by an open answer. -/
theorem TipConnected.open_of_changes (hfires : (s.forwardStep nd pprev e c).FiresOpen)
    {q : ConsensusParam} (hpq : Opposite p q) :
    s'.view.param p = c.locals.view.toDaoView.param p ∨ ∃ k a d pair,
      OpenAnswer nd.toDaoRules c.locals.view.toDaoView p k a d ∧ pair ∈ asks a d ∧
      pair.1 = p.toNat ∧ s'.view.param p = changeValue pair := by
  rcases h.param_changes hs p with hsame | ⟨a, a₁, d, pair, hf, hpair, hkey, hvalue⟩
  · left
    rw [hsame, h.checked.params.param]
  · right
    have hmem : p.toNat ∈ d.getParameters := by
      rw [← hkey]
      exact (List.of_mem_zip hpair).1
    have hopen : d.isOpenAbout nd.toDaoRules p = true := by
      have hnot : d.isFinished nd.toDaoRules = false := hfires a a₁ d hf p hpq.mem hmem
      simp [CConsultation.isOpenAbout, hnot, hmem]
    exact ⟨a.hash, a, d, pair, ⟨(Option.filter_eq_some_iff.mp hf.answer).1, hf.parent, hopen⟩,
      hpair, hkey, hvalue⟩

/-- **The step.** -/
theorem TipConnected.cyclesInOrder (hplaced : s.ConsultationsPlaced nd)
    (hconnected : CyclesInOrder nd.toDaoRules c.locals.view.toDaoView)
    (hfires : (s.forwardStep nd pprev e c).FiresOpen) :
    CyclesInOrder nd.toDaoRules s'.view.toDaoView := by
  -- with an open answer about the one parameter the other does not change
  have hother : ∀ p q k a d, Opposite p q →
      OpenAnswer nd.toDaoRules c.locals.view.toDaoView p k a d →
      s'.view.param q = c.locals.view.toDaoView.param q := by
    intro p q k a d hpq ha
    rcases h.open_of_changes hs hfires hpq.symm with hsame | ⟨k', b, d', _, hb, _⟩
    · exact hsame
    · exact (hconnected.apart p q k k' a b d d' hpq ha hb).elim
  refine ⟨?_, ?_, ?_⟩
  · have horder : ∀ p q, Opposite p q →
        s'.view.param q = c.locals.view.toDaoView.param q →
        InOrder p (s'.view.param p) (s'.view.param q) := by
      intro p q hpq hq
      rw [hq]
      rcases h.open_of_changes hs hfires hpq with hsame | ⟨k, a, d, pair, ha, hpair, hkey, hvalue⟩
      · rw [hsame]
        exact hconnected.inOrder hpq
      · rw [hvalue]
        exact hconnected.answers p q k a d hpq ha pair hpair hkey
    rcases h.open_of_changes hs hfires .minMax with hsame | ⟨k, a, d, _, ha, _⟩
    · have hmax := horder _ _ .maxMin hsame
      simpa [InOrder] using hmax
    · have hmin := horder _ _ .minMax (hother _ _ k a d .minMax ha)
      simpa [InOrder] using hmin
  · intro p q k a' d' hpq ha' pair hpair hkey
    obtain ⟨a, d, ha, hasks⟩ := h.openAnswer_before hs hplaced ha'
    rw [hother p q k a d hpq ha]
    exact hconnected.answers p q k a d hpq ha pair (hasks ▸ hpair) hkey
  · intro p q k k' a' b' d₁' d₂' hpq ha' hb'
    obtain ⟨a, d₁, ha, _⟩ := h.openAnswer_before hs hplaced ha'
    obtain ⟨b, d₂, hb, _⟩ := h.openAnswer_before hs hplaced hb'
    exact hconnected.apart p q k k' a b d₁ d₂ hpq ha hb

end Block

/-! ## A chain -/

/-- What the block may not do: it leaves no super consultation about one of the parameters, does
not add answers about both, and no answer about them fires whose consultation is over. -/
structure CyclesGuarded (nd : ChainNode G) (s : NodeState G) (e : BlockEntry G)
    (pprev : CBlockIndex) (c : Connected G) : Prop where
  single : c.locals.view.CyclesSingle
  adds : s.view.AddsOneKind c.locals.view.toDaoView
  fires : (s.forwardStep nd pprev e c).FiresOpen

def GuardsCycles (nd : ChainNode G) (s : NodeState G) (e : BlockEntry G) : Prop :=
  ∀ pprev c, s.chainActive.head? = some pprev → (s.connects nd pprev e).result = .ok c →
    CyclesGuarded nd s e pprev c

/-- **The minimum is at most the maximum** along a chain without super consultations about them,
whose blocks do not add answers about both, and in which no answer about them fires whose
consultation is over. -/
theorem cycles_in_order_after {l : List (BlockEntry G)} (hs : s.Grounded nd tip)
    (hconsultations : s.view.consultations = ∅) (hanswers : s.view.answers = ∅)
    (hparams : s.view.param .consultationMinCycles ≤ s.view.param .consultationMaxSupportCycles)
    (hguards : ∀ n e u, l[n]? = some e → after nd s l n = .ok u → u.GuardsCycles nd e)
    {n : Nat} {t : NodeState G} (h : after nd s l n = .ok t) :
    t.view.param .consultationMinCycles ≤ t.view.param .consultationMaxSupportCycles := by
  have hrun := Run.after_induction
    (P := fun _ (u : NodeState G) => (∃ tip', u.Grounded nd tip') ∧ u.ConsultationsPlaced nd ∧
      AnswersHave (fun _ _ => True) u.view.toDaoView ∧
      CyclesInOrder nd.toDaoRules u.view.toDaoView) ?_ ?_ (fun _ _ hu => hu) h
  · exact hrun.2.2.2.params
  · have hnone : ∀ k a, s.view.answers.find? k = some a → False := by
      intro k a ha
      rw [hanswers] at ha
      cases ha
    exact ⟨⟨tip, hs⟩, .of_empty hconsultations, fun k a ha => (hnone k a ha).elim, hparams,
      fun _ _ k a _ _ ha => (hnone k a ha.answer).elim,
      fun _ _ k _ a _ _ _ _ ha => (hnone k a ha.answer).elim⟩
  · rintro n e u t he hu ⟨⟨tip', hground⟩, hplaced, hparents, horder⟩ hstep
    obtain ⟨pprev, c, r, hc⟩ := connectTip_ok hstep
    have hguard := hguards n e u he hu pprev c hc.head hc.connected
    have hconnected := hc.connected_answersHave hparents fun _ _ _ => trivial
    exact ⟨⟨e.pindex, hground.connectTip hstep⟩, hplaced.connectTip hground hc,
      hc.answersHave hground hplaced hconnected,
      hc.cyclesInOrder hground hplaced
        (hc.connected_cyclesInOrder hplaced hparents horder hguard.single hguard.adds)
        hguard.fires⟩

end NodeState

/-! ## A super consultation about both -/

namespace CrossedCycles

/-- The minimum is to be the current maximum and the maximum the current minimum; and a
consultation about the minimum only. -/
def objects : List (Bytes × JsonObject) :=
  [([1], jsonOf [('v', numMember 45), ('m', .arr [.num (some 3), .num (some 5)]),
      ('n', numMember 1), ('q', textMember "question"),
      ('a', .arr [.str (ascii "04"), .str (ascii "2")])]),
    ([2], jsonOf [('v', numMember 13), ('m', numMember 3), ('n', numMember 1),
      ('q', textMember "question"), ('a', .arr [.str (ascii "1")])])]

def nd : ChainNode (ZMod groupOrder) := daoChain { fundAndDao with daoSuper := true } objects

def start : NodeState (ZMod groupOrder) := devNetNode [navOutput 20000000000]

def consultationTx : CTransaction (ZMod groupOrder) :=
  contributionTx consultationVersion 0 20000000000 [1]

def answer : Uint256 :=
  textsHash nd.toCrypto (consultationTx.getHash nd.toCrypto) [ascii "04", ascii "2"]

/-- Every block supports the answer, or votes for it once it can be voted on. -/
def blocks : List (BlockEntry (ZMod groupOrder)) :=
  entryAt 2 [supportVote answer] [] [consultationTx] :: (List.range 47).map fun n =>
    entryAt (n + 3) [if n < 37 then supportVote answer else answerVote answer] [] []

/-- **The minimum is above the maximum**, from the parameters of the development network. -/
theorem crossed :
    start.view.consensusParams = devNetParams ∧ start.view.consultations = ∅ ∧
      start.view.answers = ∅ ∧ ∃ t, NodeState.after nd start blocks 48 = .ok t ∧
        t.view.param .consultationMaxSupportCycles < t.view.param .consultationMinCycles := by
  exact ⟨rfl, rfl, rfl, Except.exists_of_decide (by decide +kernel)⟩

def minimumTx : CTransaction (ZMod groupOrder) :=
  contributionTx consultationVersion 0 20000000000 [2]

/-- A block with a consultation about the minimum. -/
theorem cycles_in_order_minimum :
    ∃ t, NodeState.after nd start [entryAt 2 [] [] [minimumTx]] 1 = .ok t ∧
      t.view.answers.entries.length = 1 ∧
      t.view.param .consultationMinCycles ≤ t.view.param .consultationMaxSupportCycles := by
  have hguard : ((start.connects nd (fixedIndex 1) (entryAt 2 [] [] [minimumTx])).result.map
      fun c => decide (c.locals.view.CyclesSingle ∧
        start.view.AddsOneKind c.locals.view.toDaoView ∧ (start.forwardStep nd (fixedIndex 1)
          (entryAt 2 [] [] [minimumTx]) c).context.endsCycle = false)) = .ok true := by
    decide +kernel
  have hstart : start.Grounded nd (fixedIndex 1) := freshNode_grounded _ _ _ _ _
  refine Except.exists_and_of_decide (by decide +kernel) fun t ht _ =>
    NodeState.cycles_in_order_after hstart rfl rfl (by decide +kernel) ?_ ht
  apply NodeState.forall_of_single
  intro pprev c hhead hc
  obtain ⟨rfl, hsingle, hadds, hcycle⟩ :=
    NodeState.forall_of_connects rfl hguard pprev c hhead hc
  refine ⟨hsingle, hadds, ?_⟩
  -- the block does not end a cycle, so no answer fires
  intro a a₁ d hfires
  have hparts := hfires.fires
  simp [answerFires, hcycle] at hparts

end CrossedCycles

end Navcoin
