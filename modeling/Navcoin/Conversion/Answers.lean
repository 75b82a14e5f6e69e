import Navcoin.Conversion.Consultations

/-!
# Answers: what is checked and what is stored

`IsValidConsultationAnswer` looks for an answer under the hash of the texts it read;
`TxToConsultationAnswer` stores the answer under the hash of the texts it read, in the form that the
version of the transaction asks for.  The values an answer proposes are the set of its texts.

* `isValidConsultationAnswer_reads`: what a valid answer has been checked for;
* `txToConsultationAnswer_eq_ok_iff`: the answer that is stored;
* `consultationAnswers_pairwise`: the answers that come with a consultation differ in their values;
* `answers_stored_iff`: when a valid answer is stored as it was validated, with values of its own.
-/

namespace Navcoin

open JsonMember

variable {G : Type}

/-! ## Answers and their values -/

namespace CConsultationAnswer

def isSuper (a : CConsultationAnswer) : Bool := a.nVersion &&& superVersion != 0

/-- The hash of the parent and the texts, in the form of the answer. -/
def contentHash (c : Crypto G) (a : CConsultationAnswer) : Uint256 :=
  if a.isSuper then textsHash c a.parent a.vAnswer else textHash c a.parent a.sAnswer

/-- The two answers propose the same set of values. -/
def SameValues (a b : CConsultationAnswer) : Prop := ∀ s, s ∈ a.getAnswers ↔ s ∈ b.getAnswers

theorem mem_getAnswers (a : CConsultationAnswer) (s : Bytes) :
    s ∈ a.getAnswers ↔ if a.isSuper then s ∈ a.vAnswer else s = a.sAnswer := by
  by_cases h : a.nVersion &&& superVersion = 0
  · have hsuper : a.isSuper = false := by rw [isSuper, h, bne_self_eq_false]
    rw [getAnswers, if_neg (not_not.mpr h), hsuper, if_neg (by decide), List.mem_singleton]
  · have hsuper : a.isSuper = true := bne_iff_ne.mpr h
    rw [getAnswers, if_pos h, hsuper, if_pos rfl, List.mem_insertionSort]

/-- The answer is stored in the view, under the hash of its content. -/
structure StoredIn (c : Crypto G) (view : DaoView) (parent : Uint256) (a : CConsultationAnswer) :
    Prop where
  stored : view.getConsultationAnswer a.hash = some a
  parent : a.parent = parent
  hash : a.hash = a.contentHash c

end CConsultationAnswer

/-! ## What the validator reads -/

/-- What `IsValidConsultationAnswer` reads, with the consultation it finds. -/
structure AnswerFields where
  hash : Bytes
  nVersion : BitVec 32
  consultation : CConsultation
  fArray : Bool
  vAnswers : List Bytes

namespace AnswerFields

def parent (f : AnswerFields) : Uint256 := uint256S f.hash

/-- The hash under which the validator looks for an answer. -/
def testedHash (c : Crypto G) (f : AnswerFields) : Uint256 :=
  match f.vAnswers with
  | [s] => textHash c f.parent s
  | l => textsHash c f.parent l

theorem testedHash_of_ne {c : Crypto G} {f : AnswerFields} (h : ∀ s, f.vAnswers ≠ [s]) :
    f.testedHash c = textsHash c f.parent f.vAnswers := by
  unfold testedHash
  split
  · next s hs => exact absurd hs (h s)
  · rfl

theorem testedHash_of_eq {c : Crypto G} {f : AnswerFields} {s : Bytes} (h : f.vAnswers = [s]) :
    f.testedHash c = textHash c f.parent s := by
  unfold testedHash
  rw [h]

end AnswerFields

/-- The fields are those of the object, and the texts are not of the wrong kind. -/
structure JsonObject.ReadsAnswer (m : JsonObject) (view : DaoView) (f : AnswerFields) : Prop where
  hash : (m 'h').getStr = .ok f.hash
  version : ∃ v, m.version 1 = .ok v ∧ f.nVersion = BitVec.ofInt 32 v
  consultation : view.getConsultation f.parent = some f.consultation
  array : f.fArray = true → ∃ l, m 'a' = .arr l ∧ JsonValue.allStrings l = some f.vAnswers
  single : f.fArray = false → ∃ s, m 'a' = .value (.str s) ∧ f.vAnswers = [s]

theorem exists_of_answerTexts {consultation : CConsultation} {m : JsonObject}
    {vAnswers : List Bytes} (h : answerTexts consultation m = some vAnswers) :
    ∃ fArray : Bool,
      (fArray = true → ∃ l, m 'a' = .arr l ∧ JsonValue.allStrings l = some vAnswers) ∧
      (fArray = false → ∃ s, m 'a' = .value (.str s) ∧ vAnswers = [s]) := by
  unfold answerTexts at h
  split at h
  · next l hl =>
    split at h
    · exact ⟨true, fun _ => ⟨l, hl, h⟩, by simp⟩
    · cases h
  · next s hs =>
    cases h
    exact ⟨false, by simp, fun _ => ⟨s, hs, rfl⟩⟩
  · cases h

theorem isValidConsultationAnswer_reads {nd : DaoNode} {c : Crypto G} {pindexPrev : CBlockIndex}
    {tx : CTransaction G} {view : DaoView}
    (h : isValidConsultationAnswer nd c pindexPrev tx view = true) :
    ∃ m f, nd.metadata 255 tx = some m ∧ m.ReadsAnswer view f ∧
      view.getConsultationAnswer (f.testedHash c) = none := by
  unfold isValidConsultationAnswer at h
  split at h
  · cases h
  · next m hm =>
    have hrun := caught_eq_true h
    simp only [Except.bind_eq_ok_iff, Except.pure_eq_ok_iff] at hrun
    obtain ⟨hash, hhash, v, hv, h⟩ := hrun
    split at h
    · cases h
    · next consultation hconsultation =>
      split at h
      · cases h
      · next vAnswers htexts =>
        obtain ⟨fArray, harray, hsingle⟩ := exists_of_answerTexts htexts
        let f : AnswerFields := ⟨hash, BitVec.ofInt 32 v, consultation, fArray, vAnswers⟩
        refine ⟨m, f, hm, ⟨hhash, ⟨v, hv, rfl⟩, hconsultation, harray, hsingle⟩, ?_⟩
        simp only [Bool.and_eq_true, Bool.not_eq_true'] at h
        have hnone := h.1.1.1.2
        rw [Option.isSome_eq_false_iff, Option.isNone_iff_eq_none] at hnone
        rcases vAnswers with _ | ⟨s, _ | ⟨t, l⟩⟩ <;> exact hnone

/-! ## What the converter stores -/

/-- The answer with the fields that were read. -/
def AnswerFields.answer (c : Crypto G) (f : AnswerFields) (hash blockhash : Uint256) :
    CConsultationAnswer :=
  if f.fArray then
    { nVersion := f.nVersion, vAnswer := f.vAnswers, txhash := hash, parent := f.parent,
      hash := textsHash c f.parent f.vAnswers, txblockhash := blockhash }
  else
    { nVersion := f.nVersion, sAnswer := f.vAnswers.headD [], txhash := hash, parent := f.parent,
      hash := textHash c f.parent (f.vAnswers.headD []), txblockhash := blockhash }

section Convert

variable {nd : DaoNode} {c : Crypto G} {m : JsonObject} {view : DaoView} {f : AnswerFields}
  {strDZeel : Bytes} {hash blockhash : Uint256}

/-- **What `TxToConsultationAnswer` stores**: the form of the texts has to be the one that the
version names. -/
theorem txToConsultationAnswer_eq_ok_iff (hread : nd.readObject strDZeel = some m)
    (hf : m.ReadsAnswer view f) (answer : CConsultationAnswer) :
    txToConsultationAnswer nd c strDZeel hash blockhash = .ok answer ↔
      (f.nVersion &&& CConsultationAnswer.superVersion ≠ 0 ↔ f.fArray = true) ∧
        answer = f.answer c hash blockhash := by
  obtain ⟨v, hv, hversion⟩ := hf.version
  simp only [txToConsultationAnswer, hread, hv, Except.bind_eq_ok_iff, Except.ok.injEq,
    exists_eq_left', ← hversion]
  unfold AnswerFields.answer
  cases harray : f.fArray with
  | true =>
    obtain ⟨l, hl, hall⟩ := hf.array harray
    rw [hl]
    by_cases hsuper : f.nVersion &&& CConsultationAnswer.superVersion = 0
    · simp [hsuper]
    · simp only [hsuper, ne_eq, not_false_eq_true, if_true, hall, hf.hash, Except.bind_eq_ok_iff,
        Except.ok.injEq, exists_eq_left', pure, Except.pure, true_and]
      exact eq_comm
  | false =>
    obtain ⟨s, hs, hanswers⟩ := hf.single harray
    rw [hs]
    by_cases hsuper : f.nVersion &&& CConsultationAnswer.superVersion = 0
    · simp only [hsuper, ne_eq, not_true_eq_false, if_false, hanswers, hf.hash,
        Except.bind_eq_ok_iff, Except.ok.injEq, exists_eq_left', pure, Except.pure,
        Bool.false_eq_true, true_and, List.headD_cons]
      exact eq_comm
    · simp only [hsuper, ne_eq, not_false_eq_true, if_true, reduceCtorEq, Bool.false_eq_true,
        iff_false, not_true_eq_false, false_and]

/-- In the form that its version names, the answer is stored under the hash of its content and
proposes the texts that were read. -/
theorem AnswerFields.answer_spec (c : Crypto G) (hash blockhash : Uint256)
    (hf : m.ReadsAnswer view f)
    (hform : f.nVersion &&& CConsultationAnswer.superVersion ≠ 0 ↔ f.fArray = true) :
    (f.answer c hash blockhash).isSuper = f.fArray ∧
      (f.answer c hash blockhash).hash = (f.answer c hash blockhash).contentHash c ∧
      ∀ s, s ∈ (f.answer c hash blockhash).getAnswers ↔ s ∈ f.vAnswers := by
  have hsuper : (f.answer c hash blockhash).isSuper = f.fArray := by
    rw [Bool.eq_iff_iff, ← hform, CConsultationAnswer.isSuper, bne_iff_ne]
    unfold AnswerFields.answer
    split <;> rfl
  refine ⟨hsuper, ?_, ?_⟩
  · rw [CConsultationAnswer.contentHash, hsuper]
    unfold AnswerFields.answer
    split <;> rfl
  · intro s
    rw [CConsultationAnswer.mem_getAnswers, hsuper]
    unfold AnswerFields.answer
    cases harray : f.fArray with
    | true => rfl
    | false =>
      obtain ⟨t, -, ht⟩ := hf.single harray
      simp [ht]

end Convert

/-! ## Answers of a consultation -/

theorem consultationAnswers_pairwise (c : Crypto G) (fExclude fSuper : Bool)
    (hash blockhash : Uint256) (l : List JsonValue) :
    ((consultationAnswers c fExclude fSuper hash blockhash l).Pairwise fun a b =>
        ¬ a.SameValues b) ∧
      ∀ a ∈ consultationAnswers c fExclude fSuper hash blockhash l,
        a.parent = hash ∧ a.hash = a.contentHash c := by
  cases fSuper with
  | true =>
    have hbit : ∀ b : Bool, ((CConsultationAnswer.baseVersion |||
        if b then CConsultationAnswer.excludeVersion else 0) |||
          CConsultationAnswer.superVersion) &&& CConsultationAnswer.superVersion ≠ 0 := by decide
    simp only [consultationAnswers, if_true, List.pairwise_singleton, List.mem_singleton,
      forall_eq, true_and]
    rw [CConsultationAnswer.contentHash, CConsultationAnswer.isSuper,
      if_pos (bne_iff_ne.mpr (hbit fExclude))]
  | false =>
    have hbit : ∀ b : Bool, (CConsultationAnswer.baseVersion |||
        if b then CConsultationAnswer.excludeVersion else 0) &&&
          CConsultationAnswer.superVersion = 0 := by decide
    have hsuper : ∀ s : Bytes, CConsultationAnswer.isSuper
        { hash := textHash c hash s, parent := hash, sAnswer := s,
          nVersion := CConsultationAnswer.baseVersion |||
            if fExclude then CConsultationAnswer.excludeVersion else 0,
          txblockhash := blockhash } = false := by
      intro s
      rw [CConsultationAnswer.isSuper, hbit fExclude, bne_self_eq_false]
    simp only [consultationAnswers, Bool.false_eq_true, if_false]
    constructor
    · rw [List.pairwise_map]
      refine List.Pairwise.imp ?_ (List.nodup_reverse.mpr (List.nodup_dedup _))
      intro s t hne hsame
      have hs := (hsame s).mp (by rw [CConsultationAnswer.mem_getAnswers, hsuper]; rfl)
      rw [CConsultationAnswer.mem_getAnswers, hsuper] at hs
      exact hne hs
    · rintro a ha
      obtain ⟨s, -, rfl⟩ := List.mem_map.mp ha
      rw [CConsultationAnswer.contentHash, hsuper]
      exact ⟨rfl, rfl⟩

/-! ## When the two agree -/

/-- The answer is stored under the hash that was tested, its consultation takes new answers, and no
answer stored before proposes the same values. -/
structure AnswerFields.StoredAs (nd : DaoNode) (c : Crypto G) (view : DaoView) (f : AnswerFields)
    (answer : CConsultationAnswer) : Prop where
  tested : answer.hash = f.testedHash c
  content : answer.hash = answer.contentHash c
  parent : answer.parent = f.parent
  admits : f.consultation.canHaveNewAnswers nd.toDaoRules = true
  fresh : ∀ a : CConsultationAnswer, a.StoredIn c view f.parent → ¬ a.SameValues answer

/-- What the validator does not look at: the form of the texts is the one that the version names, a
list of one text has the hash of the text, the consultation takes new answers, and an answer with
the same values has them in the same form and order. -/
structure AnswerFields.Plain (nd : DaoNode) (c : Crypto G) (view : DaoView) (f : AnswerFields) :
    Prop where
  form : f.nVersion &&& CConsultationAnswer.superVersion ≠ 0 ↔ f.fArray = true
  single : f.fArray = true → ∀ s, f.vAnswers = [s] →
    textsHash c f.parent [s] = textHash c f.parent s
  admits : f.consultation.canHaveNewAnswers nd.toDaoRules = true
  alike : ∀ a : CConsultationAnswer, a.StoredIn c view f.parent →
    (∀ s, s ∈ a.getAnswers ↔ s ∈ f.vAnswers) →
      a.isSuper = f.fArray ∧ (if f.fArray then a.vAnswer else [a.sAnswer]) = f.vAnswers

section Stored

variable {nd : DaoNode} {c : Crypto G} {m : JsonObject} {view : DaoView} {f : AnswerFields}
  {strDZeel : Bytes} {hash blockhash : Uint256}

/-- The hash that is tested is the one of the answer, but for a list of one text. -/
theorem AnswerFields.answer_hash_eq_iff (c : Crypto G) (hash blockhash : Uint256)
    (hf : m.ReadsAnswer view f) :
    (f.answer c hash blockhash).hash = f.testedHash c ↔
      (f.fArray = true → ∀ s, f.vAnswers = [s] →
        textsHash c f.parent [s] = textHash c f.parent s) := by
  unfold AnswerFields.answer
  cases harray : f.fArray with
  | true =>
    simp only [if_true, forall_const]
    by_cases h : ∃ s, f.vAnswers = [s]
    · obtain ⟨s, hs⟩ := h
      rw [testedHash_of_eq hs, hs]
      simp
    · rw [testedHash_of_ne (not_exists.mp h)]
      simp only [true_iff]
      intro s hs
      exact absurd ⟨s, hs⟩ h
  | false =>
    obtain ⟨s, -, hs⟩ := hf.single harray
    rw [testedHash_of_eq hs, hs]
    simp

/-- An answer in the same form and order is stored under the hash of this one. -/
theorem AnswerFields.contentHash_of_alike {a : CConsultationAnswer}
    (hparent : a.parent = f.parent) (hsuper : a.isSuper = f.fArray)
    (htexts : (if f.fArray then a.vAnswer else [a.sAnswer]) = f.vAnswers) :
    a.contentHash c = (f.answer c hash blockhash).hash := by
  rw [CConsultationAnswer.contentHash, hsuper, hparent]
  unfold AnswerFields.answer
  cases harray : f.fArray with
  | true =>
    rw [harray, if_pos rfl] at htexts
    rw [if_pos rfl, if_pos rfl, htexts]
  | false =>
    rw [harray, if_neg (by decide)] at htexts
    rw [if_neg (by decide), ← htexts]
    rfl

theorem answer_stored_iff (hread : nd.readObject strDZeel = some m) (hf : m.ReadsAnswer view f)
    (hnone : view.getConsultationAnswer (f.testedHash c) = none) :
    (∃ answer, txToConsultationAnswer nd c strDZeel hash blockhash = .ok answer ∧
      f.StoredAs nd c view answer) ↔ f.Plain nd c view := by
  constructor
  · rintro ⟨answer, hconvert, hstored⟩
    obtain ⟨hform, rfl⟩ := (txToConsultationAnswer_eq_ok_iff hread hf answer).mp hconvert
    obtain ⟨-, -, hvalues⟩ := AnswerFields.answer_spec c hash blockhash hf hform
    have hsingle := (AnswerFields.answer_hash_eq_iff c hash blockhash hf).mp hstored.tested
    refine ⟨hform, hsingle, hstored.admits, ?_⟩
    intro a ha hsame
    exact absurd (fun s => (hsame s).trans (hvalues s).symm) (hstored.fresh a ha)
  · rintro ⟨hform, hsingle, hadmits, halike⟩
    refine ⟨_, (txToConsultationAnswer_eq_ok_iff hread hf _).mpr ⟨hform, rfl⟩, ?_⟩
    obtain ⟨-, hcontent, hvalues⟩ := AnswerFields.answer_spec c hash blockhash hf hform
    have htested := (AnswerFields.answer_hash_eq_iff c hash blockhash hf).mpr hsingle
    refine ⟨htested, hcontent, ?_, hadmits, ?_⟩
    · unfold AnswerFields.answer
      split <;> rfl
    · intro a ha hsame
      -- in the same form it has the hash that the validator did not find
      obtain ⟨hsuper, htexts⟩ := halike a ha fun s => (hsame s).trans (hvalues s)
      have hhash : a.hash = f.testedHash c := by
        rw [ha.hash, ← htested]
        exact AnswerFields.contentHash_of_alike ha.parent hsuper htexts
      have hstored := ha.stored
      rw [hhash, hnone] at hstored
      cases hstored

end Stored

/-- **Answers are stored as they were validated, each with values of its own**: an answer
transaction exactly when it is plain, the answers that come with a consultation always. -/
theorem answers_stored_iff (nd : DaoNode) (c : Crypto G) (pindexPrev : CBlockIndex) :
    (∀ (tx : CTransaction G) (view : DaoView) (hash blockhash : Uint256),
      isValidConsultationAnswer nd c pindexPrev tx view = true →
        ∃ m f, nd.metadata 255 tx = some m ∧ m.ReadsAnswer view f ∧
          ((∃ answer, txToConsultationAnswer nd c tx.strDZeel hash blockhash = .ok answer ∧
            f.StoredAs nd c view answer) ↔ f.Plain nd c view)) ∧
    ∀ (strDZeel : Bytes) (hash blockhash : Uint256) (consultation : CConsultation)
      (vAnswers : List CConsultationAnswer),
      txToConsultation nd c strDZeel hash blockhash pindexPrev = .ok (consultation, vAnswers) →
        (vAnswers.Pairwise fun a b => ¬ a.SameValues b) ∧
          ∀ a ∈ vAnswers, a.parent = hash ∧ a.hash = a.contentHash c := by
  refine ⟨?_, ?_⟩
  · intro tx view hash blockhash h
    obtain ⟨m, f, hm, hf, hnone⟩ := isValidConsultationAnswer_reads h
    exact ⟨m, f, hm, hf, answer_stored_iff (nd.readObject_of_metadata hm) hf hnone⟩
  · intro strDZeel hash blockhash consultation vAnswers h
    unfold txToConsultation at h
    split at h
    · cases h
    · next m _ =>
      simp only [Except.bind_eq_ok_iff, Except.pure_eq_ok_iff, Prod.mk.injEq] at h
      obtain ⟨v, -, text, -, ps, -, low, -, high, -, -, rfl⟩ := h
      split
      · split
        · simp
        · exact consultationAnswers_pairwise c _ _ hash blockhash _
      · simp

namespace AnswerTexts

def plain : Bytes := ascii "\x7b\"h\":\"1\",\"v\":5,\"a\":[\"z\",\"y\"]\x7d"

/-- The values of an answer that is there, in the other order. -/
def swapped : Bytes := ascii "\x7b\"h\":\"1\",\"v\":5,\"a\":[\"y\",\"x\"]\x7d"

/-- A list without the version of one. -/
def unversioned : Bytes := ascii "\x7b\"h\":\"1\",\"a\":[\"z\",\"y\"]\x7d"

def listMember (s t : String) : JsonMember := .arr [.str (ascii s), .str (ascii t)]

def nd : ChainNode (ZMod groupOrder) :=
  daoChain fundAndDao
    [(plain, jsonOf [('h', textMember "1"), ('v', numMember 5), ('a', listMember "z" "y")]),
     (swapped, jsonOf [('h', textMember "1"), ('v', numMember 5), ('a', listMember "y" "x")]),
     (unversioned, jsonOf [('h', textMember "1"), ('a', listMember "z" "y")])]

/-- A hash that depends on every byte. -/
def crypto : Crypto (ZMod groupOrder) :=
  { nd.toCrypto with
    hash := fun vch => BitVec.ofNat 256 (vch.foldl (fun n b => 257 * n + b.toNat + 1) 0) }

def consultation : CConsultation :=
  { hash := 1, nVersion := CConsultation.baseVersion ||| CConsultation.moreAnswersVersion |||
      CConsultation.superVersion, nMax := 1 }

def present : CConsultationAnswer :=
  { nVersion := 5, vAnswer := [ascii "x", ascii "y"], parent := 1,
    hash := textsHash crypto 1 [ascii "x", ascii "y"] }

def view : DaoView := (({} : DaoView).setConsultation consultation).setConsultationAnswer present

def answerTx (strDZeel : Bytes) : CTransaction (ZMod groupOrder) := { strDZeel := strDZeel }

theorem eq_present {a : CConsultationAnswer} (h : a.StoredIn crypto view 1) : a = present := by
  have hfind := (Option.filter_eq_some_iff.mp h.stored).1
  have hmem : a ∈ view.answers.entries := List.mem_of_find?_eq_some hfind
  exact List.mem_singleton.mp hmem

theorem plainAnswer_stored :
    ∃ answer, txToConsultationAnswer nd.toDaoNode crypto plain 2 3 = .ok answer ∧
      AnswerFields.StoredAs nd.toDaoNode crypto view
        ⟨ascii "1", 5, consultation, true, [ascii "z", ascii "y"]⟩ answer := by
  have hvalid : isValidConsultationAnswer nd.toDaoNode crypto (fixedIndex 1) (answerTx plain) view =
      true := by decide +kernel
  obtain ⟨m, f, hm, hf, hiff⟩ :=
    (answers_stored_iff nd.toDaoNode crypto (fixedIndex 1)).1 (answerTx plain) view 2 3 hvalid
  cases hm
  obtain ⟨hash, nVersion, found, fArray, vAnswers⟩ := f
  obtain ⟨hhash, ⟨v, hv, hversion⟩, hfound, harray, hsingle⟩ := hf
  cases hhash
  cases hv
  cases hversion
  cases hfound
  cases fArray with
  | false =>
    obtain ⟨s, hs, -⟩ := hsingle rfl
    cases hs
  | true =>
    obtain ⟨l, hl, hall⟩ := harray rfl
    cases hl
    cases hall
    refine hiff.mpr ⟨by decide, ?_, by decide +kernel, ?_⟩
    · rintro - s ⟨⟩
    · intro a ha hsame
      -- the only answer that is stored proposes something else
      rw [eq_present ha] at hsame
      exact absurd ((hsame (ascii "z")).mpr (by decide)) (by decide)

/-- Values that are there already are valid in another order, and stored a second time; and a list
is valid without the version that the converter asks for. -/
theorem swapped_valid :
    isValidConsultationAnswer nd.toDaoNode crypto (fixedIndex 1) (answerTx swapped) view = true ∧
      (∃ answer, txToConsultationAnswer nd.toDaoNode crypto swapped 2 3 = .ok answer ∧
        present.getAnswers = answer.getAnswers) ∧
      present.StoredIn crypto view 1 ∧
      isValidConsultationAnswer nd.toDaoNode crypto (fixedIndex 1) (answerTx unversioned) view =
        true ∧
      (txToConsultationAnswer nd.toDaoNode crypto unversioned 2 3).isOk = false := by
  refine ⟨by decide +kernel, ⟨_, rfl, by decide +kernel⟩, ⟨by decide +kernel, rfl, rfl⟩,
    by decide +kernel, rfl⟩

end AnswerTexts

end Navcoin
