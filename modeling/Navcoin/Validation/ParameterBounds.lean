import Navcoin.Validation.OpenConsultations
import Navcoin.Validation.VotedParameters

/-!
# Bounds of parameters along a chain

The value of an answer is checked when the answer is added, with the parameters of that time.  An
answer changes the parameters when it has the votes, cycles later.

* `TipConnected.answer_origin`, `TipConnected.parent_origin`: where answers and their
  consultations come from;
* `divisors_ne_zero_after`: parameters that are divided by; the length of a voting cycle may be
  voted to be zero (`ZeroCycle.zero_voted`);
* `rewards_exact_iff`: rewards and contributions, whose products may overflow.
-/

namespace Navcoin

variable {d : CConsultation}

theorem CConsultation.SameTerms.isSuper {c : CConsultation} (h : c.SameTerms d) :
    d.isSuper = c.isSuper := by
  rw [h]
  rfl

theorem CConsultationAnswer.SameTerms.getAnswers {a b : CConsultationAnswer} (h : a.SameTerms b) :
    b.getAnswers = a.getAnswers := by
  rw [h]
  rfl

theorem CConsultationAnswer.SameTerms.parent {a b : CConsultationAnswer} (h : a.SameTerms b) :
    b.parent = a.parent := (congrArg CConsultationAnswer.parent h : _)

theorem CConsultation.Answered.getParameters {c : CConsultation} (h : c.Answered d) :
    d.getParameters = c.getParameters := by
  rw [h]
  rfl

theorem CConsultation.Answered.isSuper {c : CConsultation} (h : c.Answered d) :
    d.isSuper = c.isSuper := by
  rw [h]
  rfl

open ForwardStep (asks)

/-- A value that was checked for a parameter. -/
theorem admits_of_valid {nd : DaoNode} {pindexPrev : CBlockIndex} {view : DaoView}
    {e : Nat × Bytes} {p : ConsensusParam} (hp : p.toNat = e.1)
    (h : isValidParameterValue nd pindexPrev view e.1 e.2 = true) :
    p.admits view (changeValue e) = true ∧
      (p = .consultationMinCycles → activeAbout nd pindexPrev view
        (ConsensusParam.toNat .consultationMaxSupportCycles) = false) ∧
      (p = .consultationMaxSupportCycles → activeAbout nd pindexPrev view
        (ConsensusParam.toNat .consultationMinCycles) = false) := by
  unfold isValidParameterValue at h
  rw [← hp, ConsensusParam.ofNat?_toNat] at h
  split at h
  · next q val hq hval =>
    cases hq
    simp only [Bool.and_eq_true, Bool.not_eq_true', Bool.and_eq_false_iff, beq_eq_false_iff_ne,
      ne_eq] at h
    obtain ⟨⟨⟨_, hadmits⟩, hmin⟩, hmax⟩ := h
    refine ⟨?_, fun hp' => hmin.resolve_left (fun hne => hne hp'),
      fun hp' => hmax.resolve_left (fun hne => hne hp')⟩
    rw [changeValue, hval]
    exact hadmits
  · cases h

namespace NodeState

variable {G : Type} [G1Group G] [DecidableEq G] {nd : ChainNode G} {s s' : NodeState G}
  {e : BlockEntry G} {pprev tip : CBlockIndex} {c : Connected G} {r : VoteStepResult}

/-! ## Answers and their consultations -/

/-- Every answer has its consultation, and what it asks for is as `Q` says. -/
def AnswersHave (Q : Bool → List (Nat × Bytes) → Prop) (view : DaoView) : Prop :=
  ∀ k a, view.answers.find? k = some a →
    ∃ d, view.getConsultation a.parent = some d ∧ Q d.isSuper (asks a d)

section Step

variable {k : Uint256} {Q : Bool → List (Nat × Bytes) → Prop}
  (h : TipConnected nd s e s' pprev c r)
include h

/-- An answer after the step: as the block left it, but for counts and states. -/
theorem TipConnected.answer_origin {a' : CConsultationAnswer}
    (ha' : s'.view.answers.find? k = some a') :
    ∃ a, c.locals.view.answers.find? k = some a ∧ a.SameTerms a' := by
  rw [h.view] at ha'
  obtain ⟨a, ha, hout⟩ := OrderedMap.Kept.exists_left (ForwardStep.answers_at h.voted) ha'
  exact ⟨a, ha, hout.terms⟩

/-- **The answers that a block left**, if `Q` is checked of those that it adds. -/
theorem TipConnected.connected_answersHave (hold : AnswersHave Q s.view.toDaoView)
    (hnew : ∀ (a : CConsultationAnswer) (d : CConsultation),
      (d.isAboutConsensusParameter = true → ∃ v pairs, s.view.SameParams v ∧
        AnswerChecked (s.node nd).toDaoNode pprev v d a pairs) → Q d.isSuper (asks a d)) :
    AnswersHave Q c.locals.view.toDaoView := by
  intro k a ha
  rcases h.checked.answers k a ha with ha₀ | ⟨d, hd, hchecked⟩
  · obtain ⟨d₀, hd₀, hQ⟩ := hold k a ha₀
    obtain ⟨d, hd, hanswered⟩ := h.checked.kept _ d₀ hd₀
    refine ⟨d, hd, ?_⟩
    rw [hanswered.isSuper, asks, hanswered.getParameters]
    exact hQ
  · refine ⟨d, hd, hnew a d fun habout => ?_⟩
    obtain ⟨v, pairs, hparams, _, hok⟩ := hchecked habout
    exact ⟨v, pairs, hparams, hok⟩

variable (hs : s.Grounded nd tip)
include hs

/-- What changes a parameter. -/
theorem TipConnected.param_changes (p : ConsensusParam) :
    s'.view.param p = s.view.param p ∨ ∃ a a₁ d pair,
      (s.forwardStep nd pprev e c).Fires a a₁ d ∧ pair ∈ asks a d ∧ pair.1 = p.toNat ∧
      s'.view.param p = changeValue pair := by
  obtain ⟨hpos, _, hparams⟩ := h.below hs
  have hafter := ForwardStep.params_at h.voted hpos.le hparams p
  rw [← h.view] at hafter
  cases hfirst : (s.forwardStep nd pprev e c).fired.find? (fun e => e.1 = p.toNat) with
  | none =>
    rw [hfirst] at hafter
    exact .inl (hafter.trans (congrFun h.checked.params.param p))
  | some pair =>
    rw [hfirst] at hafter
    obtain ⟨a, a₁, d, hfires, hpair⟩ :=
      ForwardStep.mem_fired.mp (List.mem_of_find?_eq_some hfirst)
    exact .inr ⟨a, a₁, d, pair, hfires, hpair, by simpa using List.find?_some hfirst, hafter⟩

variable (hplaced : s.ConsultationsPlaced nd)
include hplaced

/-- The consultation of an answer after the step. -/
theorem TipConnected.parent_origin {d' : CConsultation}
    (hd' : s'.view.getConsultation k = some d') :
    ∃ d, c.locals.view.getConsultation k = some d ∧ d.SameTerms d' ∧
      ∀ p, d'.isOpenAbout nd.toDaoRules p = true → d.isOpenAbout nd.toDaoRules p = true := by
  obtain ⟨d, hd, hterms, hback⟩ :=
    h.consultation_origin hs (DaoView.find?_of_getConsultation hd').1
  exact ⟨d, DaoView.getConsultation_of_find? hd
    (CConsultation.isNull_of_question (h.connected_placed hplaced hd).1), hterms, hback⟩

/-- A consultation that the block left is still there after the step. -/
theorem TipConnected.parent_kept (hd : c.locals.view.getConsultation k = some d) :
    ∃ d', s'.view.getConsultation k = some d' ∧ d.SameTerms d' := by
  obtain ⟨d', hd', hout⟩ := OrderedMap.Kept.exists_right (ForwardStep.consultations_at h.voted)
    (DaoView.find?_of_getConsultation hd).1
  rw [← h.view] at hd'
  exact ⟨d', DaoView.getConsultation_of_find? hd'
    (CConsultation.isNull_of_question ((hplaced.connectTip hs h).question _ _ hd')), hout.terms⟩

/-- **The answers after the step.** -/
theorem TipConnected.answersHave (hconnected : AnswersHave Q c.locals.view.toDaoView) :
    AnswersHave Q s'.view.toDaoView := by
  intro k a' ha'
  obtain ⟨a, ha, hterms⟩ := h.answer_origin ha'
  obtain ⟨d, hd, hQ⟩ := hconnected k a ha
  obtain ⟨d', hd', hterms'⟩ := h.parent_kept hs hplaced hd
  refine ⟨d', hterms.parent ▸ hd', ?_⟩
  rw [hterms'.isSuper, asks, hterms'.getParameters, hterms.getAnswers]
  exact hQ

end Step

/-! ## Parameters that are divided by -/

/-- The parameters that something is divided by, or taken modulo of. -/
def divisors : List ConsensusParam :=
  [.votingCycleLength, .fundSpreadAccumulation, .dotnavMaxData]

/-- An answer to a consultation about one parameter does not ask for zero where a number is
wanted. -/
def NumbersNonZero (isSuper : Bool) (pairs : List (Nat × Bytes)) : Prop :=
  isSuper = false → ∀ e ∈ pairs, ∀ p : ConsensusParam, p.toNat = e.1 → p.type = .number →
    changeValue e ≠ 0

/-- No answer asks for a voting cycle without blocks, and none to a super consultation for another
divisor that is zero. -/
def AsksNoZero (view : DaoView) : Prop :=
  ∀ a ∈ view.answers.entries, ∀ d ∈ view.getConsultation a.parent, ∀ e ∈ asks a d,
    changeValue e = 0 → ∀ p ∈ divisors, p.toNat = e.1 → p ≠ .votingCycleLength ∧ d.isSuper = false

instance (view : DaoView) : Decidable (AsksNoZero view) := by
  unfold AsksNoZero
  infer_instance

omit [G1Group G] [DecidableEq G] in
theorem numbersNonZero_of_checked {a : CConsultationAnswer}
    (h : d.isAboutConsensusParameter = true → ∃ v pairs, s.view.SameParams v ∧
      AnswerChecked (s.node nd).toDaoNode pprev v d a pairs) :
    NumbersNonZero d.isSuper (asks a d) := by
  intro hsuper e he p hp htype hzero
  obtain ⟨v, pairs, _, hok⟩ := h (CConsultation.isAbout_of_mem (List.of_mem_zip he).1)
  have hpair : e ∈ pairs := by
    rw [hok.single hsuper]
    exact he
  have hadmits := (admits_of_valid hp (hok.valid e hpair)).1
  rw [hzero] at hadmits
  simp [ConsensusParam.admits, htype] at hadmits

/-- **One block.** -/
theorem TipConnected.divisors_ne_zero (h : TipConnected nd s e s' pprev c r)
    (hs : s.Grounded nd tip) (hanswers : AnswersHave NumbersNonZero c.locals.view.toDaoView)
    (hasks : AsksNoZero c.locals.view.toDaoView) (hold : ∀ p ∈ divisors, s.view.param p ≠ 0) :
    ∀ p ∈ divisors, s'.view.param p ≠ 0 := by
  intro p hp
  rcases h.param_changes hs p with hsame | ⟨a, a₁, d, pair, hfires, hpair, hkey, hvalue⟩
  · rw [hsame]
    exact hold p hp
  · rw [hvalue]
    intro hzero
    have hfind := (Option.filter_eq_some_iff.mp hfires.answer).1
    obtain ⟨hcycle, hsuper⟩ := hasks a (OrderedMap.find?_eq_some_iff.mp hfind).1 d hfires.parent
      pair hpair hzero p hp hkey.symm
    obtain ⟨d', hd', hnumbers⟩ := hanswers _ a hfind
    have hsame : d' = d := by
      have hparent : c.locals.view.toDaoView.getConsultation a.parent = some d := hfires.parent
      rw [hd'] at hparent
      exact Option.some.inj hparent
    subst hsame
    have htype : p.type = .number := by
      simp only [divisors, List.mem_cons, List.not_mem_nil, or_false] at hp
      rcases hp with rfl | rfl | rfl
      · exact absurd rfl hcycle
      · rfl
      · rfl
    exact hnumbers hsuper pair hpair p hkey.symm htype hzero

/-- No answer of the node asks for a divisor that is zero, once the block is connected. -/
def AsksForDivisors (nd : ChainNode G) (s : NodeState G) (e : BlockEntry G) : Prop :=
  ∀ pprev c, s.chainActive.head? = some pprev → (s.connects nd pprev e).result = .ok c →
    AsksNoZero c.locals.view.toDaoView

/-- **Divisors are not zero** along a chain in which no answer asks for a voting cycle without
blocks, and none to a super consultation for another divisor that is zero. -/
theorem divisors_ne_zero_after {l : List (BlockEntry G)} (hs : s.Grounded nd tip)
    (hconsultations : s.view.consultations = ∅) (hanswers : s.view.answers = ∅)
    (hparams : ∀ p ∈ divisors, s.view.param p ≠ 0)
    (hasks : ∀ n e u, l[n]? = some e → after nd s l n = .ok u → u.AsksForDivisors nd e)
    {n : Nat} {t : NodeState G} (h : after nd s l n = .ok t) :
    ∀ p ∈ divisors, t.view.param p ≠ 0 := by
  have hrun := Run.after_induction
    (P := fun _ (u : NodeState G) => (∃ tip', u.Grounded nd tip') ∧ u.ConsultationsPlaced nd ∧
      AnswersHave NumbersNonZero u.view.toDaoView ∧ ∀ p ∈ divisors, u.view.param p ≠ 0)
    ?_ ?_ (fun _ _ hu => hu) h
  · exact hrun.2.2.2
  · refine ⟨⟨tip, hs⟩, .of_empty hconsultations, ?_, hparams⟩
    intro k a ha
    rw [hanswers] at ha
    cases ha
  · rintro n e u t he hu ⟨⟨tip', hground⟩, hplaced, hhave, hne⟩ hstep
    obtain ⟨pprev, c, r, hc⟩ := connectTip_ok hstep
    have hconnected := hc.connected_answersHave hhave fun a d => numbersNonZero_of_checked
    exact ⟨⟨e.pindex, hground.connectTip hstep⟩, hplaced.connectTip hground hc,
      hc.answersHave hground hplaced hconnected,
      hc.divisors_ne_zero hground hconnected (hasks n e u he hu pprev c hc.head hc.connected) hne⟩

end NodeState

/-! ## A voting cycle without blocks -/

namespace ZeroCycle

/-- A consultation about the length of a voting cycle, with the answer that it be zero, and one
about the blocks over which contributions are spread, with the answer seven. -/
def objects : List (Bytes × JsonObject) :=
  [([1], jsonOf [('v', numMember 13), ('m', numMember 0), ('n', numMember 1),
      ('q', textMember "question"), ('a', .arr [.str (ascii "0")])]),
    ([2], jsonOf [('v', numMember 13), ('m', numMember 19), ('n', numMember 1),
      ('q', textMember "question"), ('a', .arr [.str (ascii "7")])])]

def nd : ChainNode (ZMod groupOrder) := daoChain fundAndDao objects

def start : NodeState (ZMod groupOrder) := devNetNode [navOutput 15000000000]

def consultationTx : CTransaction (ZMod groupOrder) :=
  contributionTx consultationVersion 0 15000000000 [1]

def answer : Uint256 := textHash nd.toCrypto (consultationTx.getHash nd.toCrypto) (ascii "0")

/-- Every block supports the answer, or votes for it once it can be voted on. -/
def blocks : List (BlockEntry (ZMod groupOrder)) :=
  entryAt 2 [supportVote answer] [] [consultationTx] :: (List.range 47).map fun n =>
    entryAt (n + 3) [if n < 37 then supportVote answer else answerVote answer] [] []

/-- **The length of a voting cycle is voted to be zero**, from the parameters of the development
network. -/
theorem zero_voted :
    start.view.consensusParams = devNetParams ∧ start.view.consultations = ∅ ∧
      start.view.answers = ∅ ∧
      ∃ t, NodeState.after nd start blocks 48 = .ok t ∧ t.view.param .votingCycleLength = 0 := by
  exact ⟨rfl, rfl, rfl, Except.exists_of_decide (by decide +kernel)⟩

def spreadTx : CTransaction (ZMod groupOrder) :=
  contributionTx consultationVersion 0 15000000000 [2]

/-- A block with a consultation about another divisor. -/
theorem divisors_ne_zero_spread :
    ∃ t, NodeState.after nd start [entryAt 2 [] [] [spreadTx]] 1 = .ok t ∧
      t.view.answers.entries.length = 1 ∧ ∀ p ∈ NodeState.divisors, t.view.param p ≠ 0 := by
  have hasks : ((start.connects nd (fixedIndex 1) (entryAt 2 [] [] [spreadTx])).result.map
      fun c => decide (NodeState.AsksNoZero c.locals.view.toDaoView)) = .ok true := by
    decide +kernel
  refine Except.exists_and_of_decide (by decide +kernel) fun t ht _ =>
    NodeState.divisors_ne_zero_after (freshNode_grounded _ _ _ _ _) rfl rfl (by decide +kernel)
      ?_ ht
  apply NodeState.forall_of_single
  intro pprev c hhead hc
  exact (NodeState.forall_of_connects rfl hasks pprev c hhead hc).2

end ZeroCycle

/-! ## Rewards without overflow -/

section Rewards

variable {G : Type}

/-- A value of `int64_t`. -/
def FitsInt64 (n : Int) : Prop := -2 ^ 63 ≤ n ∧ n < 2 ^ 63

def exactContribution (view : CStateView G) : Nat :=
  view.param .generationPerBlock * view.param .fundPercentPerBlock / 10000

def exactStakingReward (view : CStateView G) : Int :=
  view.param .generationPerBlock - exactContribution view

variable (nd : ChainNode G) (x : BlockContext G)

def exactMultiplier : Nat :=
  if (x.deployed nd).communityFundAccumulationSpread then
    if toUint64 x.pindex.nHeight % x.start.param .fundSpreadAccumulation = 0 then
      x.start.param .fundSpreadAccumulation
    else 0
  else 1

def exactProofOfStakeReward (nFees : Int) : Int :=
  exactStakingReward x.start + if (x.deployed nd).burnFees then 0 else nFees

/-- What a block may pay and has to contribute is computed without overflow. -/
structure ExactRewards (nCoinAge nFees : Int) : Prop where
  contribution : getFundContributionPerBlock x.start = exactContribution x.start ∧
    FitsInt64 (exactContribution x.start)
  staking : (getStakingRewardPerBlock x.start : Int) = exactStakingReward x.start ∧
    FitsInt64 (exactStakingReward x.start)
  proofOfStake : (x.deployed nd).staticReward = true →
    getProofOfStakeReward nd x.pindex.nHeight nCoinAge nFees x.pprev x.start =
        exactProofOfStakeReward nd x nFees ∧
      FitsInt64 (exactProofOfStakeReward nd x nFees)
  multiplier : fundMultiplier nd x x.start = exactMultiplier nd x
  product : x.nFundContributionPerBlock * fundMultiplier nd x x.start =
      exactContribution x.start * exactMultiplier nd x ∧
    FitsInt64 (exactContribution x.start * exactMultiplier nd x)

/-- The parameters are small enough. -/
structure SmallParameters (nFees : Int) : Prop where
  generation : x.start.param .generationPerBlock * x.start.param .fundPercentPerBlock < 2 ^ 64
  staking : 0 ≤ exactStakingReward x.start ∧ exactStakingReward x.start < 2 ^ 63
  proofOfStake : (x.deployed nd).staticReward = true →
    FitsInt64 (exactProofOfStakeReward nd x nFees)
  multiplier : exactMultiplier nd x < 2 ^ 31
  product : exactContribution x.start * exactMultiplier nd x < 2 ^ 63

theorem contribution_exact_iff (view : CStateView G) :
    getFundContributionPerBlock view = exactContribution view ↔
      view.param .generationPerBlock * view.param .fundPercentPerBlock < 2 ^ 64 := by
  unfold getFundContributionPerBlock exactContribution
  omega

theorem toInt_ofNat_eq_iff (n : Nat) : (BitVec.ofNat 32 n).toInt = n ↔ n < 2 ^ 31 := by
  rw [BitVec.toInt_eq_toNat_cond, BitVec.toNat_ofNat]
  split <;> omega

theorem fundMultiplier_exact_iff :
    fundMultiplier nd x x.start = exactMultiplier nd x ↔ exactMultiplier nd x < 2 ^ 31 := by
  unfold fundMultiplier exactMultiplier
  dsimp only
  split
  · split
    · exact toInt_ofNat_eq_iff _
    · simp
  · simp

/-- **Rewards are exact** if and only if no product of the parameters leaves its type. -/
theorem rewards_exact_iff (block : CBlock G) (pindex pprev : CBlockIndex)
    (view : CStateView G) (fScriptChecks fJustCheck : Bool) (nCoinAge nFees : Int) :
    ExactRewards nd (.of block pindex pprev view fScriptChecks fJustCheck) nCoinAge nFees ↔
      SmallParameters nd (.of block pindex pprev view fScriptChecks fJustCheck) nFees := by
  generalize hx : BlockContext.of block pindex pprev view fScriptChecks fJustCheck = x
  have hfund : x.nFundContributionPerBlock = getFundContributionPerBlock x.start := by
    rw [← hx]
    rfl
  constructor
  · rintro ⟨⟨hcontribution, _⟩, ⟨hstaking, hsfits⟩, hreward, hmultiplier, _, hpfits⟩
    refine ⟨(contribution_exact_iff _).mp hcontribution, ⟨?_, hsfits.2⟩, fun h => (hreward h).2,
      (fundMultiplier_exact_iff nd x).mp hmultiplier, by exact_mod_cast hpfits.2⟩
    rw [← hstaking]
    exact Int.natCast_nonneg _
  · rintro ⟨hgeneration, ⟨hnonneg, hlt⟩, hreward, hmultiplier, hproduct⟩
    have hcontribution := (contribution_exact_iff x.start).mpr hgeneration
    have hstaking : (getStakingRewardPerBlock x.start : Int) = exactStakingReward x.start := by
      rw [getStakingRewardPerBlock, hcontribution]
      show (toUint64 (exactStakingReward x.start) : Int) = _
      rw [toUint64_of_nonneg hnonneg (by omega), Int.toNat_of_nonneg hnonneg]
    have hmult := (fundMultiplier_exact_iff nd x).mpr hmultiplier
    refine ⟨⟨hcontribution, by omega, ?_⟩, ⟨hstaking, by omega, hlt⟩,
      fun hstatic => ⟨?_, hreward hstatic⟩, hmult, ?_, by omega, by exact_mod_cast hproduct⟩
    · unfold exactContribution
      omega
    · have hword : toInt64 (UInt64.ofNat (getStakingRewardPerBlock x.start)) =
          exactStakingReward x.start := by
        simp only [toInt64, BitVec.toInt_eq_toNat_cond, UInt64.toNat_toBitVec, UInt64.toNat_ofNat']
        split <;> omega
      have hd : (nd.deployments x.pprev).staticReward = true := hstatic
      simp only [getProofOfStakeReward, hd, if_true, hword]
      rfl
    · rw [hfund, hcontribution, hmult]

end Rewards

namespace LargeGeneration

/-- A consultation about the coins that a block generates, with the answer `MAX_MONEY`. -/
def nd : ChainNode (ZMod groupOrder) := daoChain fundAndDao
  [([1], jsonOf [('v', numMember 13), ('m', numMember 21), ('n', numMember 1),
    ('q', textMember "question"), ('a', .arr [.str (ascii "1000000000000000000")])])]

def answer : Uint256 :=
  textHash nd.toCrypto (ZeroCycle.consultationTx.getHash nd.toCrypto) (ascii "1000000000000000000")

def blocks : List (BlockEntry (ZMod groupOrder)) :=
  entryAt 2 [supportVote answer] [] [ZeroCycle.consultationTx] :: (List.range 47).map fun n =>
    entryAt (n + 3) [if n < 37 then supportVote answer else answerVote answer] [] []

/-- **The contribution overflows** once the answer has passed on the development network. -/
theorem contribution_overflows :
    ZeroCycle.start.view.consensusParams = devNetParams ∧
      ∃ t, NodeState.after nd ZeroCycle.start blocks 48 = .ok t ∧
        (exactContribution t.view, getFundContributionPerBlock t.view) =
          (200000000000000000, 775164003936842) := by
  exact ⟨rfl, Except.exists_of_decide (by decide +kernel)⟩

end LargeGeneration

end Navcoin
