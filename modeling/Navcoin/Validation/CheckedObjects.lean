import Navcoin.Validation.ActiveChain

/-!
# What was checked of a consultation

A consultation or an answer that a block adds was checked on the view at that point of the block:
a consultation about parameters that no other one is active about, and an answer with a value for
every parameter of its consultation.

* `DaoChecked`: what a part of a block adds, with what was checked;
* `TipConnected.checked`: a whole block.
-/

namespace Navcoin

variable {c d : CConsultation} {a : CConsultationAnswer}

/-! ## The relation -/

theorem CConsultation.Answered.isAbout (h : c.Answered d) :
    d.isAboutConsensusParameter = c.isAboutConsensusParameter := by
  rw [h]
  rfl

/-- Consultations that are there stay, with more answers. -/
def DaoView.KeepsConsultations (view view' : DaoView) : Prop :=
  ∀ k c, view.getConsultation k = some c → ∃ d, view'.getConsultation k = some d ∧ c.Answered d

theorem DaoView.KeepsConsultations.refl (view : DaoView) : view.KeepsConsultations view :=
  fun _ c hc => ⟨c, hc, .refl c⟩

theorem DaoView.KeepsConsultations.trans {v₁ v₂ v₃ : DaoView} (h : v₁.KeepsConsultations v₂)
    (h' : v₂.KeepsConsultations v₃) : v₁.KeepsConsultations v₃ := by
  intro k c hc
  obtain ⟨d, hd, hcd⟩ := h k c hc
  obtain ⟨e, he, hde⟩ := h' k d hd
  exact ⟨e, he, hcd.trans hde⟩

/-- What was checked of a consultation of the block. -/
structure ConsultationChecked (nd : DaoNode) (pindexPrev : CBlockIndex) (blockhash : Uint256)
    (view : DaoView) (c : CConsultation) : Prop where
  isNew : c.IsNew
  question : c.strDZeel ≠ []
  txblockhash : c.txblockhash = blockhash
  inactive : c.isAboutConsensusParameter = true → ∀ p ∈ c.getParameters,
    p < ConsensusParam.all.length ∧ activeAbout nd pindexPrev view p = false

theorem ConsultationChecked.answered {nd : DaoNode} {pindexPrev : CBlockIndex} {blockhash : Uint256}
    {view : DaoView} (h : ConsultationChecked nd pindexPrev blockhash view c) (hd : c.Answered d) :
    ConsultationChecked nd pindexPrev blockhash view d := by
  rw [hd]
  exact ⟨h.isNew, h.question, h.txblockhash, h.inactive⟩

/-- What was checked of an answer to a consultation about parameters: `pairs` are the parameters
and values as they were compared. -/
structure AnswerChecked (nd : DaoNode) (pindexPrev : CBlockIndex) (view : DaoView)
    (c : CConsultation) (a : CConsultationAnswer) (pairs : List (Nat × Bytes)) : Prop where
  accepted : isValidConsensusParameterProposal nd pindexPrev view (pairs.map Prod.fst)
    (pairs.map Prod.snd) = true
  single : c.isSuper = false → pairs = c.getParameters.zip a.getAnswers
  parameters : (pairs.map Prod.fst).Perm c.getParameters
  values : (pairs.map Prod.snd).Perm a.getAnswers

theorem AnswerChecked.answered {nd : DaoNode} {pindexPrev : CBlockIndex} {view : DaoView}
    {pairs : List (Nat × Bytes)} (h : AnswerChecked nd pindexPrev view c a pairs)
    (hd : c.Answered d) :
    AnswerChecked nd pindexPrev view d a pairs := by
  rw [hd]
  exact ⟨h.accepted, h.single, h.parameters, h.values⟩

theorem AnswerChecked.valid {nd : DaoNode} {pindexPrev : CBlockIndex} {view : DaoView}
    {pairs : List (Nat × Bytes)} (h : AnswerChecked nd pindexPrev view c a pairs) :
    ∀ e ∈ pairs, isValidParameterValue nd pindexPrev view e.1 e.2 = true := by
  have hall := h.accepted
  simp only [isValidConsensusParameterProposal, Bool.and_eq_true, List.all_eq_true] at hall
  rw [← List.zip_of_prod rfl rfl] at hall
  exact hall.1.2

/-- What a part of a block adds. -/
structure DaoChecked (nd : DaoNode) (pindexPrev : CBlockIndex) (blockhash : Uint256)
    (view view' : DaoView) : Prop where
  params : view.SameParams view'
  kept : view.KeepsConsultations view'
  consultations : ∀ k c, view'.consultations.find? k = some c →
    (∃ c₀, view.consultations.find? k = some c₀ ∧ c₀.Answered c) ∨
      (view.getConsultation k = none ∧ ∃ v, view.KeepsConsultations v ∧
        ConsultationChecked nd pindexPrev blockhash v c)
  answers : ∀ k a, view'.answers.find? k = some a →
    view.answers.find? k = some a ∨
      ∃ c, view'.getConsultation a.parent = some c ∧
        (c.isAboutConsensusParameter = true → ∃ v pairs, view.SameParams v ∧
          view.KeepsConsultations v ∧ AnswerChecked nd pindexPrev v c a pairs)

namespace DaoChecked

variable {nd : DaoNode} {pindexPrev : CBlockIndex} {blockhash : Uint256}

theorem of_same {view view' : DaoView} (hparams : view.SameParams view')
    (hconsultations : view'.consultations = view.consultations)
    (hanswers : view'.answers = view.answers) :
    DaoChecked nd pindexPrev blockhash view view' := by
  refine ⟨hparams, ?_, ?_, ?_⟩
  · intro k c hc
    refine ⟨c, ?_, .refl c⟩
    rw [DaoView.getConsultation, hconsultations]
    exact hc
  · intro k c hc
    rw [hconsultations] at hc
    exact .inl ⟨c, hc, .refl c⟩
  · intro k a ha
    rw [hanswers] at ha
    exact .inl ha

theorem refl (view : DaoView) : DaoChecked nd pindexPrev blockhash view view :=
  of_same (.refl view) rfl rfl

theorem trans {v₁ v₂ v₃ : DaoView} (h : DaoChecked nd pindexPrev blockhash v₁ v₂)
    (h' : DaoChecked nd pindexPrev blockhash v₂ v₃) :
    DaoChecked nd pindexPrev blockhash v₁ v₃ := by
  refine ⟨h.params.trans h'.params, h.kept.trans h'.kept, ?_, ?_⟩
  · intro k c hc
    rcases h'.consultations k c hc with ⟨c₀, hc₀, hanswered⟩ | ⟨hnone, v, hv, hchecked⟩
    · rcases h.consultations k c₀ hc₀ with ⟨c₁, hc₁, hanswered'⟩ | ⟨hnone, v, hv, hchecked⟩
      · exact .inl ⟨c₁, hc₁, hanswered'.trans hanswered⟩
      · exact .inr ⟨hnone, v, hv, hchecked.answered hanswered⟩
    · refine .inr ⟨?_, v, h.kept.trans hv, hchecked⟩
      cases hold : v₁.getConsultation k with
      | none => rfl
      | some c₁ =>
        obtain ⟨d, hd, _⟩ := h.kept k c₁ hold
        rw [hnone] at hd
        cases hd
  · intro k a ha
    rcases h'.answers k a ha with hold | ⟨c, hc, hchecked⟩
    · rcases h.answers k a hold with hold' | ⟨c, hc, hchecked⟩
      · exact .inl hold'
      · obtain ⟨d, hd, hanswered⟩ := h'.kept _ c hc
        refine .inr ⟨d, hd, fun habout => ?_⟩
        obtain ⟨v, pairs, hparams, hv, hpairs⟩ := hchecked (hanswered.isAbout ▸ habout)
        exact ⟨v, pairs, hparams, hv, hpairs.answered hanswered⟩
    · refine .inr ⟨c, hc, fun habout => ?_⟩
      obtain ⟨v, pairs, hparams, hv, hpairs⟩ := hchecked habout
      exact ⟨v, pairs, h.params.trans hparams, h.kept.trans hv, hpairs⟩

end DaoChecked

/-! ## Consultations -/

variable {G : Type}
variable {tx : CTransaction G} {cr : Crypto G}
variable {nd : DaoNode} {pindexPrev : CBlockIndex} {view : DaoView} {m : JsonObject}

/-- The version is read as `int` when a consultation is checked and as `int64_t` when it is made;
the bits that are looked at are the same. -/
theorem signExtend_and_low (n : Int) (mask : BitVec 64) (h : mask.toNat < 2 ^ 32) :
    (BitVec.ofInt 32 n).signExtend 64 &&& mask = BitVec.ofInt 64 n &&& mask := by
  have hlow : BitVec.ofInt 32 n = (BitVec.ofInt 64 n).setWidth 32 := by
    apply BitVec.eq_of_toNat_eq
    rw [BitVec.toNat_setWidth, BitVec.toNat_ofInt, BitVec.toNat_ofInt]
    omega
  apply BitVec.eq_of_getLsbD_eq
  intro i hi
  rw [BitVec.getLsbD_and]
  by_cases hlt : i < 32
  · rw [BitVec.getLsbD_signExtend, hlow]
    simp [hlt, hi]
  · have hzero : mask.getLsbD i = false := by
      exact Nat.testBit_lt_two_pow (h.trans_le (Nat.pow_le_pow_right (by omega) (by omega)))
    simp [hzero]

theorem consultationKind_signExtend (n : Int) :
    ConsultationKind.of ((BitVec.ofInt 32 n).signExtend 64) =
      ConsultationKind.of (BitVec.ofInt 64 n) := by
  unfold ConsultationKind.of
  rw [signExtend_and_low n _ (by decide), signExtend_and_low n _ (by decide),
    signExtend_and_low n _ (by decide), signExtend_and_low n _ (by decide)]

/-- The pairs that are compared. -/
theorem isValidConsensusParameterProposal_pairs {vPos : List Nat} {vProposal : List Bytes}
    (h : isValidConsensusParameterProposal nd pindexPrev view vPos vProposal = true) :
    vPos.length = vProposal.length ∧
      isValidConsensusParameterProposal nd pindexPrev view ((vPos.zip vProposal).map Prod.fst)
        ((vPos.zip vProposal).map Prod.snd) = true := by
  have hlength : vPos.length = vProposal.length := by
    simp only [isValidConsensusParameterProposal, Bool.and_eq_true, beq_iff_eq] at h
    exact h.1.1
  rw [List.map_fst_zip hlength.le, List.map_snd_zip hlength.ge]
  exact ⟨hlength, h⟩

/-- The checks of a consultation transaction, on what it holds. -/
structure ConsultationTxOk (nd : DaoNode) (pindexPrev : CBlockIndex) (view : DaoView)
    (m : JsonObject) (n nMin nMax : Int) (vParameters : List Nat) (answers : List JsonValue) :
    Prop where
  version_eq : m.version 1 = .ok n
  nMin_eq : (if (m 'm').isNum then (m 'm').getInt64 else .ok 0) = .ok nMin
  vParameters_eq : readParameters m (.of (BitVec.ofInt 64 n)) = .ok vParameters
  answers_eq : answers = match m 'a' with
    | .arr l => l
    | _ => []
  inactive : parametersOpen nd pindexPrev view (.of (BitVec.ofInt 64 n)) nMax vParameters = true
  valid : answersValid nd pindexPrev view (.of (BitVec.ofInt 64 n)) nMin vParameters answers = true
  question : ∀ s, (m 'q').getStr = .ok s → s ≠ []

theorem isValidConsultation_ok (h : isValidConsultation nd pindexPrev tx view = true) :
    ∃ m n nMin nMax vParameters answers, nd.readObject tx.strDZeel = some m ∧
      ConsultationTxOk nd pindexPrev view m n nMin nMax vParameters answers := by
  unfold isValidConsultation at h
  split at h
  · cases h
  · next m hm =>
    have hrun := caught_eq_true h
    simp only [Except.bind_eq_ok_iff] at hrun
    obtain ⟨nMin, hmin, nMax, _, q, hq, n, hn, vParameters, hparams, htests⟩ := hrun
    rw [consultationKind_signExtend] at hparams htests
    have hok := Except.ok.inj htests
    simp only [Bool.and_eq_true] at hok
    obtain ⟨⟨⟨⟨⟨⟨⟨⟨⟨hopen, _⟩, _⟩, _⟩, hanswers⟩, hquestion⟩, _⟩, _⟩, _⟩, _⟩ := hok
    refine ⟨m, n, nMin, nMax, vParameters, _, nd.readObject_of_metadata hm, hn, hmin, hparams, rfl,
      hopen, hanswers, ?_⟩
    intro s hs
    rw [hq] at hs
    cases hs
    simpa using hquestion

theorem numbers_of_allNumbers {l : List JsonValue} {ns : List Nat} (h : allNumbers l = .ok ns) :
    numbers l = .ok ns := by
  simp only [allNumbers, Except.bind_eq_ok_iff] at h
  obtain ⟨_, _, h⟩ := h
  exact h

/-- The parameters of the consultation are the ones that were checked. -/
theorem getParameters_perm {n nMin nMin' : Int} {vParameters ns : List Nat}
    (habout : c.isAboutConsensusParameter = true) (hversion : c.nVersion = BitVec.ofInt 64 n)
    (hparams : readParameters m (.of (BitVec.ofInt 64 n)) = .ok vParameters)
    (hns : (if (ConsultationKind.of (BitVec.ofInt 64 n)).fSuper then
      (m 'm').getArray.bind allNumbers else .ok []) = .ok ns)
    (hmin : (if (ConsultationKind.of (BitVec.ofInt 64 n)).fSuper then .ok 0
      else (m 'm').getInt64) = .ok nMin')
    (hmin' : (if (m 'm').isNum then (m 'm').getInt64 else .ok 0) = .ok nMin)
    (hvp : c.vParameters = ns) (hcmin : c.nMin = toUint64 nMin') :
    (c.isSuper = true → vParameters = c.vParameters) ∧
      (c.isSuper = false → c.nMin = toUint64 nMin ∧ vParameters = [c.nMin]) ∧
      vParameters.Perm c.getParameters := by
  have hsuper : (ConsultationKind.of (BitVec.ofInt 64 n)).fSuper = c.isSuper := by
    unfold ConsultationKind.of CConsultation.isSuper
    rw [hversion]
  have habout' : (ConsultationKind.of (BitVec.ofInt 64 n)).fIsAboutConsensusParameter = true := by
    unfold CConsultation.isAboutConsensusParameter at habout
    rw [hversion] at habout
    exact habout
  rw [hsuper] at hns hmin
  unfold readParameters at hparams
  rw [habout', hsuper] at hparams
  unfold CConsultation.getParameters
  rw [if_pos habout]
  cases hc : c.isSuper with
  | true =>
    rw [hc] at hns hparams
    cases harr : m 'm' with
    | value v =>
      rw [harr] at hns
      cases hns
    | arr l =>
      rw [harr] at hns hparams
      have hnumbers := numbers_of_allNumbers hns
      have heq : vParameters = c.vParameters := by
        have hread : numbers l = .ok vParameters := hparams
        rw [hnumbers] at hread
        rw [hvp]
        exact (Except.ok.inj hread).symm
      refine ⟨fun _ => heq, by simp, ?_⟩
      rw [if_pos rfl, heq]
      exact (List.perm_insertionSort _ _).symm
  | false =>
    rw [hc] at hmin hparams
    have hnum : (m 'm').isNum = true := by
      cases hm : m 'm' with
      | arr l =>
        rw [hm] at hmin
        cases hmin
      | value v =>
        cases v with
        | num k => rfl
        | str k =>
          rw [hm] at hmin
          cases hmin
        | other =>
          rw [hm] at hmin
          cases hmin
    rw [hnum] at hmin' hparams
    have hget : (m 'm').getInt64 = .ok nMin' := hmin
    have hsame : nMin = nMin' := by
      have hget' : (m 'm').getInt64 = .ok nMin := hmin'
      rw [hget] at hget'
      exact (Except.ok.inj hget').symm
    have heq : vParameters = [c.nMin] := by
      have hread : (m 'm').getInt64.map (fun n => [toUint64 n]) = .ok vParameters := hparams
      rw [hget] at hread
      rw [hcmin]
      exact (Except.ok.inj hread).symm
    refine ⟨by simp, fun _ => ⟨by rw [hcmin, hsame], heq⟩, ?_⟩
    rw [if_neg Bool.false_ne_true, heq]

theorem map_fst_zip_perm {l l₁ : List Nat} {l' l₁' : List Bytes} (hlength : l.length = l'.length)
    (h : l.Perm l₁) (h' : l'.Perm l₁') :
    ((l.zip l').map Prod.fst).Perm l₁ ∧ ((l.zip l').map Prod.snd).Perm l₁' := by
  rw [List.map_fst_zip hlength.le, List.map_snd_zip hlength.ge]
  exact ⟨h, h'⟩

/-- **A consultation transaction.** -/
theorem txToConsultation_checked
    {hash blockhash : Uint256} {c : CConsultation × List CConsultationAnswer}
    (hvalid : isValidConsultation nd pindexPrev tx view = true)
    (h : txToConsultation nd cr tx.strDZeel hash blockhash pindexPrev = .ok c) :
    ConsultationChecked nd pindexPrev blockhash view c.1 ∧ c.1.hash = hash ∧
      ∀ a ∈ c.2, a.parent = hash ∧ (c.1.isAboutConsensusParameter = true →
        ∃ pairs, AnswerChecked nd pindexPrev view c.1 a pairs) := by
  obtain ⟨m, n, nMin, nMax, vParameters, answers, hm, hok⟩ := isValidConsultation_ok hvalid
  unfold txToConsultation at h
  rw [hm] at h
  simp only [Except.bind_eq_ok_iff, Except.pure_eq_ok_iff] at h
  obtain ⟨n', hn', text, htext, ns, hns, nMin', hmin', nMax', _, rfl⟩ := h
  rw [hok.version_eq] at hn'
  cases hn'
  dsimp only
  generalize hc : CConsultation.mk [] hash blockhash (BitVec.ofInt 64 n) 0 text 0
    (toUint64 nMin') ns (toUint64 nMax') ∅ [] 0 = c
  have habout : c.isAboutConsensusParameter =
      (ConsultationKind.of (BitVec.ofInt 64 n)).fIsAboutConsensusParameter := by rw [← hc]; rfl
  have hsuper : c.isSuper = (ConsultationKind.of (BitVec.ofInt 64 n)).fSuper := by rw [← hc]; rfl
  have hparams : c.isAboutConsensusParameter = true → _ := fun h =>
    getParameters_perm h (by rw [← hc]) hok.vParameters_eq hns hmin' hok.nMin_eq
      (by rw [← hc]) (by rw [← hc])
  refine ⟨⟨by rw [← hc]; rfl, by rw [← hc]; exact hok.question text htext, by rw [← hc], ?_⟩,
    rfl, ?_⟩
  · intro h p hp
    have hopen := hok.inactive
    rw [parametersOpen, ← habout, h] at hopen
    simp only [Bool.not_true, Bool.false_or, Bool.and_eq_true, List.all_eq_true,
      decide_eq_true_eq, Bool.not_eq_true'] at hopen
    exact hopen.2 p ((hparams h).2.2.mem_iff.mpr hp)
  · intro a ha
    cases harr : m 'a' with
    | value v =>
      rw [harr] at ha
      cases ha
    | arr l =>
      rw [harr] at ha
      dsimp only at ha
      split at ha
      · cases ha
      · obtain ⟨_, _, hparent, hsup, hsin⟩ := mem_consultationAnswers ha
        have hanswers : answers = l := by
          rw [hok.answers_eq, harr]
        have hvalid' := hok.valid
        rw [hanswers, answersValid, ← habout] at hvalid'
        refine ⟨hparent, fun h => ?_⟩
        rw [h, ← hsuper] at hvalid'
        obtain ⟨heqSuper, heqSingle, hperm⟩ := hparams h
        rw [← hsuper] at hsup hsin
        cases hc' : c.isSuper with
        | true =>
          rw [hc'] at hvalid'
          obtain ⟨texts, htexts, hproposal⟩ := (Option.any_eq_true _ _).mp hvalid'
          obtain ⟨hlength, hpairs⟩ := isValidConsensusParameterProposal_pairs hproposal
          have hstrings : JsonValue.strings l = texts := by
            unfold JsonValue.allStrings at htexts
            split at htexts
            · exact Option.some.inj htexts
            · cases htexts
          have hget := hsup hc'
          rw [hstrings] at hget
          obtain ⟨hfst, hsnd⟩ := map_fst_zip_perm hlength hperm
            (List.perm_insertionSort (· ≤ ·) texts).symm
          exact ⟨vParameters.zip texts, hpairs, by simp [hc'], hfst, by rw [hget]; exact hsnd⟩
        | false =>
          rw [hc'] at hvalid'
          obtain ⟨s, hs, hget⟩ := hsin hc'
          have hproposal := List.all_eq_true.mp hvalid' s hs
          obtain ⟨hlength, hpairs⟩ := isValidConsensusParameterProposal_pairs hproposal
          obtain ⟨hnMin, _⟩ := heqSingle hc'
          have hone : c.getParameters = [toUint64 nMin] := by
            rw [CConsultation.getParameters, if_pos h, hc', if_neg Bool.false_ne_true, hnMin]
          exact ⟨[toUint64 nMin].zip [s], hpairs, fun _ => by rw [hone, hget],
            by rw [hone]; rfl, by rw [hget]; rfl⟩

/-! ## Answers -/

theorem isValidConsultationAnswer_ok
    (h : isValidConsultationAnswer nd cr pindexPrev tx view = true) :
    ∃ m hash c vAnswers, nd.readObject tx.strDZeel = some m ∧ (m 'h').getStr = .ok hash ∧
      view.getConsultation (uint256S hash) = some c ∧ answerTexts c m = some vAnswers ∧
      vAnswers ≠ [[]] ∧ (c.isAboutConsensusParameter = true →
        isValidConsensusParameterProposal nd pindexPrev view c.getParameters vAnswers = true) := by
  unfold isValidConsultationAnswer at h
  split at h
  · cases h
  · next m hm =>
    have hrun := caught_eq_true h
    simp only [Except.bind_eq_ok_iff] at hrun
    obtain ⟨hash, hhash, _, _, htests⟩ := hrun
    have hok := Except.ok.inj htests
    split at hok
    · cases hok
    · next c hc =>
      split at hok
      · cases hok
      · next vAnswers htexts =>
        simp only [Bool.and_eq_true] at hok
        refine ⟨m, hash, c, vAnswers, nd.readObject_of_metadata hm, hhash, hc, htexts, ?_,
          fun habout => ?_⟩
        · rintro rfl
          exact Bool.false_ne_true hok.1.1.1.1
        · simpa [habout] using hok.1.2

/-- The texts of an answer are those of its transaction. -/
theorem txToConsultationAnswer_texts {strDZeel : Bytes} {hash blockhash : Uint256}
    (hm : nd.readObject strDZeel = some m)
    (h : txToConsultationAnswer nd cr strDZeel hash blockhash = .ok a) :
    ∃ parent, (m 'h').getStr = .ok parent ∧ a.parent = uint256S parent ∧
      ∀ (c : CConsultation) vAnswers, answerTexts c m = some vAnswers →
        vAnswers.Perm a.getAnswers ∧ (c.isSuper = false → a.getAnswers = vAnswers) := by
  obtain ⟨_, m', parent, hm', hparent, haparent, htexts⟩ := txToConsultationAnswer_ok h
  obtain rfl := Option.some.inj (hm.symm.trans hm')
  refine ⟨parent, hparent, haparent, fun c vAnswers hanswers => ?_⟩
  unfold answerTexts at hanswers
  rcases htexts with ⟨l, texts, harr, htexts, hget⟩ | ⟨s, hstr, hget⟩
  · rw [harr] at hanswers
    dsimp only at hanswers
    split at hanswers
    · next hc =>
      rw [htexts] at hanswers
      cases hanswers
      rw [hget]
      exact ⟨(List.perm_insertionSort _ _).symm, by simp [hc]⟩
    · cases hanswers
  · rw [hstr] at hanswers
    cases hanswers
    rw [hget]
    exact ⟨.refl _, fun _ => rfl⟩

/-- **An answer transaction.** -/
theorem txToConsultationAnswer_checked
    {hash blockhash : Uint256} (hvalid : isValidConsultationAnswer nd cr pindexPrev tx view = true)
    (h : txToConsultationAnswer nd cr tx.strDZeel hash blockhash = .ok a) :
    a.isNull = false ∧ ∃ c, view.getConsultation a.parent = some c ∧
      (c.isAboutConsensusParameter = true →
        ∃ pairs, AnswerChecked nd pindexPrev view c a pairs) := by
  obtain ⟨m, parent, c, vAnswers, hm, hparent, hc, htexts, hne, hproposal⟩ :=
    isValidConsultationAnswer_ok hvalid
  obtain ⟨parent', hparent', haparent, hanswers⟩ := txToConsultationAnswer_texts hm h
  rw [hparent] at hparent'
  cases hparent'
  obtain ⟨hperm, hsame⟩ := hanswers c vAnswers htexts
  have hnull : a.isNull = false := by
    rw [CConsultationAnswer.isNull, beq_eq_false_iff_ne]
    rintro rfl
    exact hne (List.perm_singleton.mp hperm)
  refine ⟨hnull, c, by rw [haparent]; exact hc, fun habout => ?_⟩
  obtain ⟨hlength, hpairs⟩ := isValidConsensusParameterProposal_pairs (hproposal habout)
  obtain ⟨hfst, hsnd⟩ := map_fst_zip_perm hlength (List.Perm.refl c.getParameters) hperm
  exact ⟨c.getParameters.zip vAnswers, hpairs, fun hsuper => by rw [hsame hsuper], hfst, hsnd⟩

/-! ## What is added to the view -/

variable {k : Uint256}

theorem DaoView.getConsultation_of_find?
    (h : view.consultations.find? k = some c) (hnull : c.isNull = false) :
    view.getConsultation k = some c := by
  rw [getConsultation, h, Option.filter_some, hnull]
  rfl

theorem DaoView.find?_of_getConsultation (h : view.getConsultation k = some c) :
    view.consultations.find? k = some c ∧ c.isNull = false := by
  have hfilter := Option.filter_eq_some_iff.mp h
  exact ⟨hfilter.1, by simpa using hfilter.2⟩

theorem CConsultation.isNull_of_question (h : c.strDZeel ≠ []) :
    c.isNull = false := by
  have hempty : c.strDZeel.isEmpty = false := by simpa using h
  unfold isNull
  rw [hempty]
  simp

/-- A consultation with one more answer. -/
def CConsultation.withAnswer (hash : Uint256) (c : CConsultation) : CConsultation :=
  { c with vAnswers := c.vAnswers ++ [hash] }

theorem CConsultation.isNull_withAnswer (hash : Uint256) (c : CConsultation) :
    (c.withAnswer hash).isNull = false := by
  unfold isNull withAnswer
  simp

theorem DaoView.addConsultationAnswer_eq (view : DaoView) (a : CConsultationAnswer) :
    view.addConsultationAnswer a = view ∨
      view.addConsultationAnswer a = { view with
        consultations := view.consultations.modify a.parent (.withAnswer a.hash)
        answers := view.answers.assign a } := by
  unfold addConsultationAnswer
  split
  · exact .inl rfl
  · right
    unfold modifyConsultation OrderedMap.modify setConsultationAnswer
    cases view.consultations.find? a.parent <;> rfl

theorem find?_withAnswer (m : OrderedMap CConsultation.hash) (id hash k : Uint256) :
    (m.modify id (.withAnswer hash)).find? k =
      if k = id then (m.find? id).map (.withAnswer hash) else m.find? k :=
  OrderedMap.find?_modify (f := CConsultation.withAnswer hash) (fun _ => rfl) k id m

theorem DaoView.KeepsConsultations.addConsultationAnswer (view : DaoView)
    (a : CConsultationAnswer) : view.KeepsConsultations (view.addConsultationAnswer a) := by
  rcases view.addConsultationAnswer_eq a with heq | heq
  · rw [heq]
    exact .refl view
  · rw [heq]
    intro k d hd
    obtain ⟨hd', hnull⟩ := DaoView.find?_of_getConsultation hd
    by_cases hk : k = a.parent
    · refine ⟨d.withAnswer a.hash, ?_, rfl⟩
      apply DaoView.getConsultation_of_find?
      · exact (find?_withAnswer _ _ _ k).trans (by rw [if_pos hk, ← hk, hd']; rfl)
      · exact d.isNull_withAnswer a.hash
    · refine ⟨d, DaoView.getConsultation_of_find? ?_ hnull, .refl d⟩
      exact (find?_withAnswer _ _ _ k).trans (by rw [if_neg hk, hd'])

/-- A consultation is only given more answers. -/
theorem DaoView.find?_addConsultationAnswer
    (h : (view.addConsultationAnswer a).consultations.find? k = some d) :
    ∃ c, view.consultations.find? k = some c ∧ c.Answered d := by
  rcases view.addConsultationAnswer_eq a with heq | heq
  · rw [heq] at h
    exact ⟨d, h, .refl d⟩
  · rw [heq] at h
    rw [find?_withAnswer] at h
    split at h
    · next hk =>
      obtain ⟨c, hc, rfl⟩ := Option.map_eq_some_iff.mp h
      exact ⟨c, hk ▸ hc, rfl⟩
    · exact ⟨d, h, .refl d⟩

namespace DaoChecked

variable {nd : DaoNode} {pindexPrev : CBlockIndex} {blockhash : Uint256} {view t : DaoView}

theorem setConsultation {c : CConsultation} (hnone : view.getConsultation c.hash = none)
    (hchecked : ConsultationChecked nd pindexPrev blockhash view c) :
    DaoChecked nd pindexPrev blockhash view (view.setConsultation c) := by
  have hfind : ∀ k, (view.setConsultation c).consultations.find? k =
      if k = c.hash then some c else view.consultations.find? k := fun k =>
    OrderedMap.find?_assign c k view.consultations
  refine ⟨⟨rfl, rfl⟩, ?_, ?_, fun _ _ ha => .inl ha⟩
  · intro k d hd
    refine ⟨d, ?_, .refl d⟩
    have hne : k ≠ c.hash := by
      rintro rfl
      rw [hnone] at hd
      cases hd
    rw [DaoView.getConsultation, hfind, if_neg hne]
    exact hd
  · intro k d hd
    rw [hfind] at hd
    split at hd
    · next hk =>
      subst hk
      cases hd
      exact .inr ⟨hnone, view, .refl view, hchecked⟩
    · exact .inl ⟨d, hd, .refl d⟩

/-- An answer that was checked on a view of the block. -/
theorem addAnswer (h : DaoChecked nd pindexPrev blockhash view t) {a : CConsultationAnswer}
    {c : CConsultation} (hc : t.getConsultation a.parent = some c)
    (hchecked : c.isAboutConsensusParameter = true → ∃ v pairs, view.SameParams v ∧
      view.KeepsConsultations v ∧ AnswerChecked nd pindexPrev v c a pairs) :
    DaoChecked nd pindexPrev blockhash view (t.addConsultationAnswer a) := by
  have hkept := DaoView.KeepsConsultations.addConsultationAnswer t a
  have hparams : t.SameParams (t.addConsultationAnswer a) := by
    rcases t.addConsultationAnswer_eq a with heq | heq <;> rw [heq] <;> exact ⟨rfl, rfl⟩
  have hanswers : ∀ k b, (t.addConsultationAnswer a).answers.find? k = some b →
      t.answers.find? k = some b ∨ b = a := by
    intro k b hb
    rcases t.addConsultationAnswer_eq a with heq | heq
    · rw [heq] at hb
      exact .inl hb
    · rw [heq] at hb
      rw [OrderedMap.find?_assign] at hb
      split at hb
      · cases hb
        exact .inr rfl
      · exact .inl hb
  refine ⟨h.params.trans hparams, h.kept.trans hkept, ?_, ?_⟩
  · intro k d hd
    obtain ⟨d₀, hd₀, hanswered⟩ := DaoView.find?_addConsultationAnswer hd
    rcases h.consultations k d₀ hd₀ with ⟨d₁, hd₁, hanswered'⟩ | ⟨hnone, v, hv, hchecked'⟩
    · exact .inl ⟨d₁, hd₁, hanswered'.trans hanswered⟩
    · exact .inr ⟨hnone, v, hv, hchecked'.answered hanswered⟩
  · -- the parent of an answer of the block has what was checked, also with one more answer
    have hstays : ∀ (b : CConsultationAnswer) (d : CConsultation),
        t.getConsultation b.parent = some d →
        (d.isAboutConsensusParameter = true → ∃ v pairs, view.SameParams v ∧
          view.KeepsConsultations v ∧ AnswerChecked nd pindexPrev v d b pairs) →
        ∃ e, (t.addConsultationAnswer a).getConsultation b.parent = some e ∧
          (e.isAboutConsensusParameter = true → ∃ v pairs, view.SameParams v ∧
            view.KeepsConsultations v ∧ AnswerChecked nd pindexPrev v e b pairs) := by
      intro b d hd hpairs
      obtain ⟨e, he, hanswered⟩ := hkept b.parent d hd
      refine ⟨e, he, fun habout => ?_⟩
      obtain ⟨v, pairs, hsame, hv, hok⟩ := hpairs (hanswered.isAbout ▸ habout)
      exact ⟨v, pairs, hsame, hv, hok.answered hanswered⟩
    intro k b hb
    rcases hanswers k b hb with hold | rfl
    · rcases h.answers k b hold with hold' | ⟨d, hd, hpairs⟩
      · exact .inl hold'
      · exact .inr (hstays b d hd hpairs)
    · exact .inr (hstays b c hc hchecked)

/-- The answers of a consultation are added one by one; the consultation stays, with more of
them. -/
theorem addAnswers (h : DaoChecked nd pindexPrev blockhash view t) {c d : CConsultation}
    (hd : t.getConsultation c.hash = some d) (hanswered : c.Answered d)
    (l : List CConsultationAnswer) (hl : ∀ a ∈ l, a.parent = c.hash ∧
      (c.isAboutConsensusParameter = true → ∃ pairs, AnswerChecked nd pindexPrev view c a pairs)) :
    DaoChecked nd pindexPrev blockhash view (l.foldl DaoView.addConsultationAnswer t) := by
  induction l generalizing t d with
  | nil => exact h
  | cons a l ih =>
    obtain ⟨hparent, hpairs⟩ := hl a List.mem_cons_self
    obtain ⟨e, he, hanswered'⟩ :=
      DaoView.KeepsConsultations.addConsultationAnswer t a c.hash d hd
    refine ih ?_ he (hanswered.trans hanswered') fun b hb => hl b (List.mem_cons_of_mem _ hb)
    apply h.addAnswer (by rw [hparent]; exact hd)
    intro habout
    obtain ⟨pairs, hok⟩ := hpairs (hanswered.isAbout ▸ habout)
    exact ⟨view, pairs, .refl view, .refl view, hok.answered hanswered⟩

end DaoChecked

/-! ## A block -/

section Connect

variable [G1Group G] {nd : ChainNode G} {x : BlockContext G}
variable {tx : CTransaction G}

theorem connectDao_checked {nProposalFee : Int} {view view' : DaoView}
    (h : connectDao nd x tx nProposalFee view = .ok view') :
    DaoChecked nd.toDaoNode x.pprev x.block.hash view view' := by
  obtain ⟨v₁, v₂, v₃, hproposal, hrequest, hconsultation, hanswer⟩ := connectDao_adds h
  have h₁ : DaoChecked nd.toDaoNode x.pprev x.block.hash view v₁ := by
    rw [hproposal.after.1]
    exact .of_same ⟨rfl, rfl⟩ rfl rfl
  have h₂ : DaoChecked nd.toDaoNode x.pprev x.block.hash v₁ v₂ := by
    rw [hrequest.after.1]
    exact .of_same ⟨rfl, rfl⟩ rfl rfl
  have h₃ : DaoChecked nd.toDaoNode x.pprev x.block.hash v₂ v₃ := by
    rcases hconsultation with rfl | ⟨c, answers, hvalid, hc, hsub, hnone, rfl⟩
    · exact .refl v₃
    · obtain ⟨hchecked, hhash, hanswers⟩ := txToConsultation_checked hvalid hc
      rw [← hhash] at hanswers
      have hthere : (v₂.setConsultation c.1).getConsultation c.1.hash = some c.1 :=
        DaoView.getConsultation_of_find? (OrderedMap.find?_assign_self c.1 _)
          (CConsultation.isNull_of_question hchecked.question)
      exact (DaoChecked.setConsultation hnone hchecked).addAnswers hthere (.refl _) answers
        fun a ha => hanswers a (hsub ha)
  have h₄ : DaoChecked nd.toDaoNode x.pprev x.block.hash v₃ view' := by
    rcases hanswer with rfl | ⟨a, hvalid, ha, _, rfl⟩
    · exact .refl view'
    · obtain ⟨_, c, hc, hpairs⟩ := txToConsultationAnswer_checked hvalid ha
      apply (DaoChecked.refl v₃).addAnswer hc
      intro habout
      obtain ⟨pairs, hok⟩ := hpairs habout
      exact ⟨v₃, pairs, .refl v₃, .refl v₃, hok⟩
  exact h₁.trans (h₂.trans (h₃.trans h₄))

variable [DecidableEq G]

theorem connectTransactions_checked {view : CStateView G} {s : ConnectLocals G}
    (h : (connectTransactions nd x view).result = .ok s) :
    DaoChecked nd.toDaoNode x.pprev x.block.hash view.toDaoView s.view.toDaoView := by
  refine connectTransactions_relates .trans ?_ connectDao_checked h
  intro v v' honly
  rw [honly]
  exact .of_same ⟨rfl, rfl⟩ rfl rfl

/-- **What a block adds was checked.** -/
theorem connectBlock_checked {block : CBlock G} {pindex pprev : CBlockIndex} {prev : Supply}
    {view : CStateView G} {fScriptChecks fJustCheck : Bool} {c : Connected G}
    (h : (connectBlock nd block pindex pprev prev view fScriptChecks fJustCheck).result = .ok c) :
    DaoChecked nd.toDaoNode pprev block.hash view.toDaoView c.locals.view.toDaoView := by
  by_cases hgenesis : block.hash = nd.hashGenesisBlock
  · obtain ⟨rfl, _⟩ := connectBlock_genesis hgenesis h
    exact .refl _
  · obtain ⟨_, nCoinAge, s, p, hblock⟩ := connectBlock_ok hgenesis h
    have hframe := (hblock.objects prev).frame
    refine (connectTransactions_checked hblock.transactions).trans ?_
    rw [hframe]
    exact .of_same ⟨rfl, rfl⟩ rfl rfl

end Connect

/-- **What a connected tip adds was checked.** -/
theorem NodeState.TipConnected.checked [G1Group G] [DecidableEq G] {nd : ChainNode G}
    {s s' : NodeState G} {e : BlockEntry G} {pprev : CBlockIndex} {c : Connected G}
    {r : VoteStepResult} (h : TipConnected nd s e s' pprev c r) :
    DaoChecked (s.node nd).toDaoNode pprev e.block.hash s.view.toDaoView
      c.locals.view.toDaoView :=
  connectBlock_checked h.connected

end Navcoin
