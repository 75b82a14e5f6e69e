import Navcoin.Lib.ParentLists
import Navcoin.Validation.CheckedObjects
import Navcoin.Validation.DisconnectBlock

/-!
# The answers of the consultations

A consultation lists the hashes of its answers, and an answer names its consultation.  Blocks that
are connected and disconnected keep the two in step.

* `AnswerStep`: what the transactions of blocks, and anything else, do to the view;
* `answers_listed`: a consultation lists its stored answers, each once.
-/

namespace Navcoin

namespace DaoView

variable {view : DaoView} {k : Uint256} {l : List Uint256}

def listOf (view : DaoView) (k : Uint256) : Option (List Uint256) :=
  (view.consultations.find? k).map CConsultation.vAnswers

def parentOf (view : DaoView) (k : Uint256) : Option Uint256 :=
  (view.getConsultationAnswer k).map CConsultationAnswer.parent

def AnswersListed (view : DaoView) : Prop := ParentLists view.listOf view.parentOf

theorem listOf_setConsultation (c : CConsultation) :
    (view.setConsultation c).listOf = Function.update view.listOf c.hash (some c.vAnswers) := by
  funext k
  rw [listOf, setConsultation, OrderedMap.find?_assign, Function.update_apply]
  split <;> rfl

theorem parentOf_setConsultationAnswer {a : CConsultationAnswer} (ha : a.isNull = false) :
    (view.setConsultationAnswer a).parentOf =
      Function.update view.parentOf a.hash (some a.parent) := by
  funext k
  rw [parentOf, getConsultationAnswer, setConsultationAnswer, OrderedMap.find?_assign,
    Function.update_apply]
  split
  · simp [ha]
  · rfl

theorem parentOf_erase (id : Uint256) :
    ({ view with answers := view.answers.erase id } : DaoView).parentOf =
      Function.update view.parentOf id none := by
  funext k
  rw [parentOf, getConsultationAnswer, OrderedMap.find?_erase, Function.update_apply]
  split <;> rfl

theorem listOf_erase (id : Uint256) :
    ({ view with consultations := view.consultations.erase id } : DaoView).listOf =
      Function.update view.listOf id none := by
  funext k
  rw [listOf, OrderedMap.find?_erase, Function.update_apply]
  split <;> rfl

theorem listOf_modifyConsultation (hk : view.listOf k = some l)
    (g : List Uint256 → List Uint256) :
    (view.modifyConsultation k fun c => { c with vAnswers := g c.vAnswers }).listOf =
        Function.update view.listOf k (some (g l)) ∧
      (view.modifyConsultation k fun c => { c with vAnswers := g c.vAnswers }).parentOf =
        view.parentOf := by
  obtain ⟨c, hc, rfl⟩ := Option.map_eq_some_iff.mp hk
  rw [modifyConsultation, hc]
  refine ⟨(listOf_setConsultation _).trans ?_, rfl⟩
  rw [← OrderedMap.key_of_find? hc]

/-- A consultation with an answer is not null. -/
theorem getConsultation_of_listOf {a : Uint256} (hk : view.listOf k = some l) (ha : a ∈ l) :
    ∃ c, view.getConsultation k = some c ∧ c.vAnswers = l := by
  obtain ⟨c, hc, rfl⟩ := Option.map_eq_some_iff.mp hk
  refine ⟨c, getConsultation_of_find? hc ?_, rfl⟩
  have hempty : c.vAnswers.isEmpty = false := by simpa using List.ne_nil_of_mem ha
  simp [CConsultation.isNull, hempty]

/-! ## The four operations -/

namespace AnswersListed

theorem setConsultation (h : view.AnswersListed) {c : CConsultation}
    (hnone : view.getConsultation c.hash = none) (hc : c.vAnswers = []) :
    (view.setConsultation c).AnswersListed := by
  unfold AnswersListed
  rw [listOf_setConsultation, hc]
  apply h.addParent
  intro a ha
  obtain ⟨l, hl, hmem⟩ := h.mem_list ha
  obtain ⟨c', hc', _⟩ := getConsultation_of_listOf hl hmem
  rw [hnone] at hc'
  cases hc'

theorem addConsultationAnswer (h : view.AnswersListed) {a : CConsultationAnswer}
    (ha : a.isNull = false) (hparent : (view.listOf a.parent).isSome) :
    (view.addConsultationAnswer a).AnswersListed ∧
      ((view.addConsultationAnswer a).listOf a.parent).isSome := by
  obtain ⟨l, hl⟩ := Option.isSome_iff_exists.mp hparent
  unfold DaoView.addConsultationAnswer
  split
  · exact ⟨h, hparent⟩
  · next hnone =>
    obtain ⟨hlists, hparents⟩ := listOf_modifyConsultation hl (· ++ [a.hash])
    have hfree : view.parentOf a.hash = none := by
      rw [parentOf, Option.not_isSome_iff_eq_none.mp hnone]
      rfl
    -- to store the answer changes no consultation
    have hsame : ∀ v : DaoView, (v.setConsultationAnswer a).listOf = v.listOf := fun _ => rfl
    rw [AnswersListed, hsame, hlists, parentOf_setConsultationAnswer ha, hparents]
    exact ⟨h.addChild hl hfree, by rw [Function.update_self]; rfl⟩

theorem addConsultationAnswers (h : view.AnswersListed) (hk : (view.listOf k).isSome)
    (l : List CConsultationAnswer) (hl : ∀ a ∈ l, a.isNull = false ∧ a.parent = k) :
    (l.foldl DaoView.addConsultationAnswer view).AnswersListed := by
  induction l generalizing view with
  | nil => exact h
  | cons a l ih =>
    obtain ⟨hnull, hparent⟩ := hl a List.mem_cons_self
    obtain ⟨h', hk'⟩ := h.addConsultationAnswer hnull (hparent ▸ hk)
    exact ih h' (hparent ▸ hk') fun b hb => hl b (List.mem_cons_of_mem _ hb)

/-- In a list without duplicates nothing is skipped. -/
theorem eraseAnswer_eq_erase (cid : Uint256) (l : List Uint256) (hl : l.Nodup) :
    eraseAnswer cid l = l.erase cid := by
  fun_induction eraseAnswer cid l with
  | case1 => rfl
  | case2 => simp
  | case3 a ha => simp [ha]
  | case4 b l ih =>
    have hnot : cid ∉ l := fun h => (List.nodup_cons.mp hl).1 (List.mem_cons_of_mem b h)
    rw [ih hl.of_cons.of_cons, List.erase_of_not_mem hnot, List.erase_cons_head]
  | case5 a b l ha ih =>
    have hne : ¬(a == cid) = true := by simpa using ha
    rw [ih hl.of_cons, List.erase_cons_tail hne]

/-- An answer leaves the list of its consultation. -/
theorem removeConsultationAnswer (h : view.AnswersListed) (cid : Uint256) :
    (view.removeConsultationAnswer cid).AnswersListed ∧
      ∀ l, view.parentOf cid = some k → view.listOf k = some l →
        (view.removeConsultationAnswer cid).listOf k = some (l.erase cid) := by
  unfold DaoView.removeConsultationAnswer
  cases hget : view.getConsultationAnswer cid with
  | none => exact ⟨h, fun l hparent => by simp [parentOf, hget] at hparent⟩
  | some a =>
    have hparent : view.parentOf cid = some a.parent := by rw [parentOf, hget]; rfl
    obtain ⟨l, hl⟩ := h.listed hparent
    obtain ⟨hlists, hparents⟩ := listOf_modifyConsultation hl (eraseAnswer cid)
    rw [eraseAnswer_eq_erase cid l (h.nodup hl)] at hlists
    have hsame : ∀ v : DaoView,
        ({ v with answers := v.answers.erase cid } : DaoView).listOf = v.listOf := fun _ => rfl
    rw [AnswersListed, parentOf_erase, hsame, hlists, hparents]
    refine ⟨h.removeChild hl hparent, fun l' hk hl' => ?_⟩
    cases hparent.symm.trans hk
    cases hl.symm.trans hl'
    rw [Function.update_self]

/-- Once the answers of a consultation are gone it lists none. -/
theorem removeConsultationAnswers (h : view.AnswersListed) (l : List Uint256)
    (hk : view.listOf k = some l) :
    (l.foldl DaoView.removeConsultationAnswer view).AnswersListed ∧
      (l.foldl DaoView.removeConsultationAnswer view).listOf k = some [] := by
  induction l generalizing view with
  | nil => exact ⟨h, hk⟩
  | cons a l ih =>
    have hparent := (h.mem_iff hk a).mp List.mem_cons_self
    obtain ⟨h', hlist⟩ := h.removeConsultationAnswer a
    refine ih h' ?_
    rw [hlist _ hparent hk, List.erase_cons_head]

theorem removeConsultation (h : view.AnswersListed) (cid : Uint256) :
    (view.removeConsultation cid).AnswersListed := by
  unfold DaoView.removeConsultation
  cases hget : view.getConsultation cid with
  | none => exact h
  | some c =>
    have hlist : view.listOf cid = some c.vAnswers := by
      rw [listOf, (find?_of_getConsultation hget).1]
      rfl
    obtain ⟨h', hempty⟩ := h.removeConsultationAnswers c.vAnswers hlist
    unfold AnswersListed
    rw [listOf_erase]
    exact h'.removeParent hempty

end AnswersListed

end DaoView

/-! ## Blocks -/

section Blocks

variable {G : Type} [G1Group G] {nd : ChainNode G} {x : BlockContext G} {tx : CTransaction G}
  {view view' : DaoView}

/-- A transaction is connected. -/
theorem connectDao_answersListed {nProposalFee : Int} (hview : view.AnswersListed)
    (h : connectDao nd x tx nProposalFee view = .ok view') : view'.AnswersListed := by
  obtain ⟨v₁, v₂, v₃, hproposal, hrequest, hconsultation, hanswer⟩ := connectDao_adds h
  have h₁ : v₁.AnswersListed := by
    rw [hproposal.after.1]
    exact hview
  have h₂ : v₂.AnswersListed := by
    rw [hrequest.after.1]
    exact h₁
  have h₃ : v₃.AnswersListed := by
    rcases hconsultation with rfl | ⟨c, answers, _, hc, hsub, hnone, rfl⟩
    · exact h₂
    · obtain ⟨_, hempty, hanswers⟩ := txToConsultation_isNew hc
      refine (h₂.setConsultation hnone hempty).addConsultationAnswers ?_ answers
        fun a ha => (hanswers a (hsub ha)).2
      rw [DaoView.listOf_setConsultation, Function.update_self]
      rfl
  rcases hanswer with rfl | ⟨a, hvalid, ha, _, rfl⟩
  · exact h₃
  · obtain ⟨hnull, c, hc, _⟩ := txToConsultationAnswer_checked hvalid ha
    refine (h₃.addConsultationAnswer hnull ?_).1
    rw [DaoView.listOf, (DaoView.find?_of_getConsultation hc).1]
    rfl

/-- A transaction is disconnected. -/
theorem removeDaoObject_answersListed {block : CBlock G} {pprev : CBlockIndex}
    (hview : view.AnswersListed) (h : removeDaoObject nd block pprev tx view = .ok view') :
    view'.AnswersListed := by
  have hproposal : ∀ id, (view.removeProposal id).AnswersListed := by
    intro id
    unfold DaoView.removeProposal
    split <;> exact hview
  have hrequest : ∀ {v : DaoView} id, v.AnswersListed →
      (v.removePaymentRequest id).AnswersListed := by
    intro v id hv
    unfold DaoView.removePaymentRequest
    split <;> exact hv
  simp only [removeDaoObject] at h
  split at h
  · have hkept : (if tx.kind = proposalVersion then view.removeProposal (tx.getHash nd.toCrypto)
        else view).AnswersListed := by
      split
      · exact hproposal _
      · exact hview
    generalize (if tx.kind = proposalVersion then view.removeProposal (tx.getHash nd.toCrypto)
      else view) = v at h hkept
    repeat' split at h
    all_goals cases h
    · exact hrequest _ hkept
    · exact hkept.removeConsultation _
    · exact (hkept.removeConsultationAnswer (k := 0) _).1
    all_goals exact hkept
  · cases h
    exact hview

/-- The transactions of blocks that are connected and disconnected; what else changes the view
leaves the lists of the consultations and the parents of the answers. -/
inductive AnswerStep (G : Type) [G1Group G] : DaoView → DaoView → Prop
  | connect {view view' : DaoView} (nd : ChainNode G) (x : BlockContext G) (tx : CTransaction G)
      (nProposalFee : Int) (h : connectDao nd x tx nProposalFee view = .ok view') :
      AnswerStep G view view'
  | disconnect {view view' : DaoView} (nd : ChainNode G) (block : CBlock G) (pprev : CBlockIndex)
      (tx : CTransaction G) (h : removeDaoObject nd block pprev tx view = .ok view') :
      AnswerStep G view view'
  | other {view view' : DaoView} (hlists : view'.listOf = view.listOf)
      (hparents : view'.parentOf = view.parentOf) : AnswerStep G view view'

theorem AnswerStep.answersListed (hview : view.AnswersListed) (h : AnswerStep G view view') :
    view'.AnswersListed := by
  cases h with
  | connect nd x tx nProposalFee h => exact connectDao_answersListed hview h
  | disconnect nd block pprev tx h => exact removeDaoObject_answersListed hview h
  | other hlists hparents =>
    rw [DaoView.AnswersListed, hlists, hparents]
    exact hview

/-- **Consultations and their answers.**  After any run from the empty state, a consultation lists
the hash of every stored answer that names it, once, and nothing else; and the consultation of a
stored answer is there. -/
theorem answers_listed (h : Relation.ReflTransGen (AnswerStep G) {} view) :
    (∀ k c, view.getConsultation k = some c → c.vAnswers.Nodup ∧
      ∀ id, id ∈ c.vAnswers ↔ ∃ a, view.getConsultationAnswer id = some a ∧ a.parent = k) ∧
    ∀ id a, view.getConsultationAnswer id = some a → (view.getConsultation a.parent).isSome := by
  have hlisted : view.AnswersListed := by
    induction h with
    | refl => exact ParentLists.empty
    | tail _ hstep ih => exact hstep.answersListed ih
  constructor
  · intro k c hc
    have hlist : view.listOf k = some c.vAnswers := by
      rw [DaoView.listOf, (DaoView.find?_of_getConsultation hc).1]
      rfl
    exact ⟨hlisted.nodup hlist, fun id =>
      (hlisted.mem_iff hlist id).trans Option.map_eq_some_iff⟩
  · intro id a ha
    obtain ⟨l, hl, hmem⟩ := hlisted.mem_list (a := id) (by
      rw [DaoView.parentOf, ha]
      rfl)
    obtain ⟨c, hc, _⟩ := DaoView.getConsultation_of_listOf hl hmem
    rw [hc]
    rfl

end Blocks

namespace OneAnswer

def nd : ChainNode (ZMod groupOrder) := daoChain fundAndDao [([1], jsonOf [('v', numMember 5),
  ('m', numMember 0), ('n', numMember 1), ('q', textMember "question"), ('a', .arr [.str [1]])])]

def connected : Except Failure DaoView :=
  connectDao nd (.of {} (fixedIndex 2) (fixedIndex 1) {} false false)
    (contributionTx consultationVersion 0 1 [1]) 1 {}

/-- A consultation that brings an answer. -/
theorem answers_listed_connected : ∃ view, connected = .ok view ∧
    view.consultations.entries.map (·.vAnswers.length) = [1] ∧
    ∀ id a, view.getConsultationAnswer id = some a → (view.getConsultation a.parent).isSome := by
  refine Except.exists_and_of_decide (by decide +kernel) fun view hview _ => ?_
  exact (answers_listed (.single (.connect _ _ _ _ hview))).2

end OneAnswer

end Navcoin
