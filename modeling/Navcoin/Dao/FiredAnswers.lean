import Navcoin.Dao.StateMoves

/-!
# Answers that change parameters

A parameter gets the first value that an answer with enough votes asks for.  Nothing else of the
consultation of the answer is looked at when the parameter is written.

* `Fires`, `mem_fired`: the answers that ask, and what they ask for;
* `consultation_passed`: an accepted consultation that is not expired passes with its answer.
-/

namespace Navcoin

variable {c : CConsultation} {a a₁ : CConsultationAnswer}

theorem CConsultationAnswer.Recounted.getAnswers {b : CConsultationAnswer} (h : a.Recounted b) :
    b.getAnswers = a.getAnswers := by
  rw [h]
  rfl

theorem CConsultationAnswer.Recounted.parent {b : CConsultationAnswer} (h : a.Recounted b) :
    b.parent = a.parent := (congrArg CConsultationAnswer.parent h : _)

theorem CConsultation.Recounted.getParameters {d : CConsultation} (h : c.Recounted d) :
    d.getParameters = c.getParameters := by
  rw [h]
  rfl

theorem CConsultation.Recounted.isAbout {d : CConsultation} (h : c.Recounted d) :
    d.isAboutConsensusParameter = c.isAboutConsensusParameter := by
  rw [h]
  rfl

variable {k : Uint256}

namespace ForwardStep

variable {f : ForwardStep} {r : VoteStepResult}

/-! ## The answers that ask -/

/-- What a loop finds in its copy is in the view. -/
theorem exists_of_find?_copy {α : Type} {key : α → Uint256} {m : OrderedMap key} {p : α → Bool}
    {looks : Bool} {s : MirroredMap key} {R : α → α → Prop} (hs : s.Agrees Eq)
    (hkeys : ∀ k, s.copy.find? k = none ↔ (if looks then m.filter p else ∅).find? k = none)
    (hkept : m.Kept R s.stored) {b : α} (h : s.copy.find? k = some b) :
    ∃ a, (m.find? k).filter p = some a ∧ R a b := by
  obtain ⟨_, hstored, rfl⟩ := hs k b h
  obtain ⟨a, ha, hR⟩ := hkept.exists_left hstored
  refine ⟨a, ?_, hR⟩
  cases hfilter : (m.find? k).filter p with
  | some a' =>
    rw [ha, Option.filter_some] at hfilter
    split at hfilter
    · exact hfilter.symm
    · cases hfilter
  | none =>
    -- then the copy would not have it
    have hnone : (if looks then m.filter p else ∅).find? k = none := by
      split
      · rw [OrderedMap.find?_filter]
        exact hfilter
      · rfl
    rw [(hkeys k).mpr hnone] at h
    cases h

theorem find?_copy_consultations {c₁ : CConsultation}
    (h : f.counted.consultations.copy.find? k = some c₁) :
    ∃ c, f.view.getConsultation k = some c ∧ c.Recounted c₁ :=
  exists_of_find?_copy f.counted_ok.synced.consultations f.counted_ok.keysConsultations
    f.counted_ok.consultations h

theorem find?_copy_answers (h : f.counted.answers.copy.find? k = some a₁) :
    ∃ a, f.view.getConsultationAnswer k = some a ∧ a.Recounted a₁ :=
  exists_of_find?_copy f.counted_ok.synced.answers f.counted_ok.keysAnswers
    f.counted_ok.answers h

/-- The answer `a` to the consultation `c` has the votes to change parameters; with the votes
counted it is `a₁`. -/
structure Fires (f : ForwardStep) (a a₁ : CConsultationAnswer) (c : CConsultation) : Prop where
  answer : f.view.getConsultationAnswer a.hash = some a
  parent : f.view.getConsultation a.parent = some c
  count : a.Recounted a₁
  copy : f.counted.answers.copy.find? a.hash = some a₁
  about : c.isAboutConsensusParameter = true
  length : a.getAnswers.length = c.getParameters.length
  fires : answerFires f.context f.counted a₁ = true

/-- What the answer asks for. -/
def asks (a : CConsultationAnswer) (c : CConsultation) : List (Nat × Bytes) :=
  c.getParameters.zip a.getAnswers

/-- **The pairs of the step** are those of the answers that fire. -/
theorem mem_fired {e : Nat × Bytes} :
    e ∈ f.fired ↔ ∃ a a₁ c, f.Fires a a₁ c ∧ e ∈ asks a c := by
  unfold fired firedPairs asks
  simp only [List.mem_flatMap, List.mem_filter]
  constructor
  · rintro ⟨a₁, ⟨hmem, hfires⟩, he⟩
    have hcopy : f.counted.answers.copy.find? a₁.hash = some a₁ :=
      OrderedMap.find?_eq_some_iff.mpr ⟨hmem, rfl⟩
    obtain ⟨a, ha, hcount⟩ := find?_copy_answers hcopy
    have hhash : a₁.hash = a.hash := (congrArg CConsultationAnswer.hash hcount : _)
    rw [hhash] at ha hcopy
    unfold answerPairs at he
    cases hc : f.counted.consultations.copy.find? a₁.parent with
    | none =>
      rw [hc] at he
      cases he
    | some c₁ =>
      rw [hc] at he
      dsimp only at he
      obtain ⟨c, hget, hcount'⟩ := find?_copy_consultations hc
      rw [hcount.parent] at hget
      have hparts := hfires
      simp only [answerFires, hc, Option.any_some, Bool.and_eq_true, beq_iff_eq] at hparts
      rw [hcount.getAnswers, hcount'.getParameters, hcount'.isAbout] at hparts
      rw [hcount.getAnswers, hcount'.getParameters] at he
      exact ⟨a, a₁, c, ⟨ha, hget, hcount, hcopy, hparts.2.1, hparts.2.2, hfires⟩, he⟩
  · rintro ⟨a, a₁, c, h, he⟩
    refine ⟨a₁, ⟨(OrderedMap.find?_eq_some_iff.mp h.copy).1, h.fires⟩, ?_⟩
    have hparts := h.fires
    simp only [answerFires, Bool.and_eq_true, Option.any_eq_true] at hparts
    obtain ⟨_, c₁, hc₁, _⟩ := hparts
    unfold answerPairs
    rw [hc₁]
    dsimp only
    obtain ⟨c', hc', hcount'⟩ := find?_copy_consultations hc₁
    rw [h.count.parent, h.parent] at hc'
    cases hc'
    rw [h.count.getAnswers, hcount'.getParameters]
    exact he

/-- Every parameter of the consultation is asked for. -/
theorem Fires.exists_asks (h : f.Fires a a₁ c) {n : Nat} (hn : n ∈ c.getParameters) :
    ∃ e ∈ asks a c, e.1 = n := by
  have hfst : (asks a c).map Prod.fst = c.getParameters :=
    List.map_fst_zip (by rw [h.length])
  rw [← hfst] at hn
  exact List.mem_map.mp hn

/-! ## The consultation of the answer -/

/-- The consultation, of a known block, is in voting and its time is not over. -/
def inVoting (f : ForwardStep) (c : CConsultation) : Bool :=
  (f.context.blockOf c.txblockhash).isSome && c.getLastState f.nd.mapBlockIndex == .accepted &&
    !c.isExpired f.nd.toDaoRules f.pindexNew f.view

/-- Expiry does not depend on the votes while the consultation is in voting. -/
theorem isExpired_of_recounted {c₁ : CConsultation} {view : DaoView} (hcount : c.Recounted c₁)
    (hstate : c.getLastState f.nd.mapBlockIndex = .accepted) (hview : view.param = f.view.param) :
    c₁.isExpired f.nd.toDaoRules f.pindexNew view =
      c.isExpired f.nd.toDaoRules f.pindexNew f.view := by
  have hstate₁ : c₁.getLastState f.nd.mapBlockIndex = .accepted := by
    unfold CConsultation.getLastState at hstate ⊢
    rw [hcount.mapState_eq, hstate]
  unfold CConsultation.isExpired
  rw [hcount.mapState_eq, hview]
  simp only [hstate, hstate₁]
  split
  · rfl
  · have hnil : (DaoFlag.accepted == DaoFlag.nil) = false := rfl
    rw [hnil, Bool.and_false, Bool.and_false]

section Passed

variable (h : f.run = .ok r) (hknown : f.nd.mapBlockIndex f.pindexNew.hashBlock = some f.pindexNew)
  (hpos : 0 < f.pindexNew.nHeight) (hbelow : c.mapState.Below f.nd.mapBlockIndex f.pindexNew)
include h hknown hpos hbelow

/-- **An accepted consultation passes** in the step in which an answer to it fires, unless it is
expired. -/
theorem consultation_passed (hfires : f.Fires a a₁ c) (hvoting : f.inVoting c = true) :
    r.view.consultationState f.nd.mapBlockIndex a.parent = some .passed := by
  simp only [inVoting, Bool.and_eq_true, beq_iff_eq, Bool.not_eq_true'] at hvoting
  obtain ⟨⟨hblock, hstate⟩, hexpired⟩ := hvoting
  obtain ⟨hfind, hnull⟩ := Option.filter_eq_some_iff.mp hfires.parent
  obtain ⟨d, hd, hout⟩ := OrderedMap.Kept.exists_right (consultations_at h) hfind
  obtain ⟨c₁, decision, hcount, hdecided, _, hstates⟩ := hout.states
  have hcycle : f.context.endsCycle = true ∧ f.deployed.dao = true := by
    have hparts := hfires.fires
    simp only [answerFires, Bool.and_eq_true] at hparts
    refine ⟨hparts.1.1.1.2, ?_⟩
    by_contra hdao
    have hnone : f.counted.answers.copy.find? a.hash = none := by
      rw [f.counted_ok.keysAnswers]
      show (if f.deployed.dao then f.view.getAllConsultationAnswers else ∅).find? a.hash = none
      rw [if_neg hdao]
      rfl
    rw [hfires.copy] at hnone
    cases hnone
  have hpassed : decision = some .passed := by
    rw [ConsultationDecided, hcycle.2] at hdecided
    rw [Bool.true_and, if_pos hnull] at hdecided
    obtain ⟨t, ht, hchanges, rfl⟩ := hdecided
    have hblock₁ : c₁.txblockhash = c.txblockhash := (congrArg CConsultation.txblockhash hcount : _)
    have hexpired₁ : c₁.isExpired f.nd.toDaoRules f.pindexNew t.view = false := by
      rw [isExpired_of_recounted hcount hstate ?_, hexpired]
      exact (VoteStepLocals.sameScale ht).param.trans sameScale_counted.param
    have hstate₁ : c₁.getLastState f.nd.mapBlockIndex = .accepted := by
      unfold CConsultation.getLastState at hstate ⊢
      rw [hcount.mapState_eq, hstate]
    have hasked : ∀ n ∈ c₁.getParameters, t.mapConsensusToChange.contains n = true := by
      intro n hn
      rw [hcount.getParameters] at hn
      obtain ⟨e, he, rfl⟩ := hfires.exists_asks hn
      rw [hchanges, List.any_eq_true]
      exact ⟨e, mem_fired.mpr ⟨a, a₁, c, hfires, he⟩, by simp⟩
    have hpasses : consultationPasses f.context t c₁ = true := by
      simp only [consultationPasses, Bool.and_eq_true, beq_iff_eq, Bool.not_eq_true',
        List.all_eq_true]
      exact ⟨⟨⟨hcount.isAbout.trans hfires.about, hstate₁⟩, hexpired₁⟩, hasked⟩
    unfold consultationDecision consultationVerdict
    rw [hblock₁, hblock, hcycle.1, hpasses]
    rfl
  rw [DaoView.consultationState, hd, Option.map_some]
  unfold CConsultation.getLastState
  rw [hstates, hpassed]
  exact congrArg some (StateMap.getLastState_decided hknown hpos hbelow (some .passed))

/-- A consultation that goes from voting to `PASSED` is of a known block. -/
theorem block_of_passed (hc : f.view.getConsultation k = some c)
    (hstate : c.getLastState f.nd.mapBlockIndex = .accepted)
    (hpassed : r.view.consultationState f.nd.mapBlockIndex k = some .passed) :
    (f.context.blockOf c.txblockhash).isSome = true := by
  obtain ⟨hfind, hnull⟩ := Option.filter_eq_some_iff.mp hc
  obtain ⟨d, hd, hout⟩ := OrderedMap.Kept.exists_right (consultations_at h) hfind
  obtain ⟨c₁, decision, hcount, hdecided, _, hstates⟩ := hout.states
  have hlast : decision.getD .accepted = .passed := by
    have hafter := StateMap.getLastState_decided hknown hpos hbelow decision
    rw [← hstates,
      show c.mapState.getLastState f.nd.mapBlockIndex = .accepted from hstate] at hafter
    rw [DaoView.consultationState, hd] at hpassed
    rw [← hafter]
    exact Option.some.inj hpassed
  cases decision with
  | none => cases hlast
  | some o =>
    unfold ConsultationDecided at hdecided
    split at hdecided
    · obtain ⟨t, _, _, hverdict⟩ := hdecided
      have hblock₁ : c₁.txblockhash = c.txblockhash :=
        (congrArg CConsultation.txblockhash hcount : _)
      unfold consultationDecision at hverdict
      rw [hblock₁] at hverdict
      split at hverdict
      · next hlooks => exact (Bool.and_eq_true _ _ ▸ hlooks).1
      · cases hverdict
    · cases hdecided

end Passed

end ForwardStep

end Navcoin
