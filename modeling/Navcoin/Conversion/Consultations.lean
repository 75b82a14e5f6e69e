import Navcoin.Conversion.Fund

/-!
# Consultations: what is checked and what is stored

`IsValidConsultation` and `TxToConsultation` read the same text.  The validator skips what it cannot
use and has defaults for what is missing; the converter raises or gives up.

* `isValidConsultation_reads`: what a valid consultation has been checked for;
* `txToConsultation_eq_ok_iff`: when there is a consultation to store, and which one;
* `consultation_stored_iff`: when it is the one that was validated.
-/

namespace Navcoin

open JsonMember

variable {G : Type}
variable {k : ConsultationKind}

/-! ## What the validator reads -/

/-- The elements of the array `a`, if it is one. -/
def JsonObject.answerElements (m : JsonObject) : List JsonValue :=
  match m 'a' with
  | .arr l => l
  | _ => []

/-- What `IsValidConsultation` reads. -/
structure ConsultationFields where
  nMin : Int
  nMax : Int
  sQuestion : Bytes
  nVersion : BitVec 32
  vParameters : List Nat
  answers : List JsonValue
  deriving DecidableEq, Repr

def JsonObject.consultationFields (m : JsonObject) : Except Failure ConsultationFields := do
  let nMin ← (if (m 'm').isNum then (m 'm').getInt64 else .ok 0)
  let nMax ← (m 'n').getInt64
  let sQuestion ← (m 'q').getStr
  let v ← m.version 1
  let nVersion := BitVec.ofInt 32 v
  let vParameters ← readParameters m (ConsultationKind.of (nVersion.signExtend 64))
  pure { nMin, nMax, sQuestion, nVersion, vParameters, answers := m.answerElements }

namespace ConsultationFields

def kind (f : ConsultationFields) : ConsultationKind := .of (f.nVersion.signExtend 64)

/-- The texts among the answers. -/
def texts (f : ConsultationFields) : List Bytes := JsonValue.strings f.answers

/-- Some of what the validator checks. -/
structure Checked (f : ConsultationFields) : Prop where
  about : f.kind.fIsAboutConsensusParameter = true → f.kind.fRange = false ∧ f.vParameters ≠ []
  sizes : f.kind.fSuper = true → f.vParameters.length = f.answers.length
  bounds : boundsValid f.kind f.nMin f.nMax = true

end ConsultationFields

theorem isValidConsultation_reads {nd : DaoNode} {pindexPrev : CBlockIndex} {tx : CTransaction G}
    {view : DaoView} (h : isValidConsultation nd pindexPrev tx view = true) :
    ∃ m f, nd.metadata 1024 tx = some m ∧ m.consultationFields = .ok f ∧ f.Checked := by
  unfold isValidConsultation at h
  split at h
  · cases h
  · next m hm =>
    have hb := caught_eq_true h
    simp only [Except.bind_eq_ok_iff, Except.pure_eq_ok_iff] at hb
    obtain ⟨nMin, hmin, nMax, hmax, sQuestion, hquestion, v, hv, vParameters, hparams, htests⟩ :=
      hb
    refine ⟨m, ⟨nMin, nMax, sQuestion, BitVec.ofInt 32 v, vParameters, m.answerElements⟩, hm,
      ?_, ?_⟩
    · simp only [JsonObject.consultationFields, Except.bind_eq_ok_iff]
      exact ⟨nMin, hmin, nMax, hmax, sQuestion, hquestion, v, hv, vParameters, hparams, rfl⟩
    · simp only [Bool.and_eq_true] at htests
      obtain ⟨⟨⟨⟨⟨⟨⟨⟨⟨hopen, -⟩, -⟩, hsizes⟩, -⟩, -⟩, -⟩, hbounds⟩, -⟩, -⟩ := htests
      refine ⟨?_, ?_, hbounds⟩
      · intro habout
        have habout' : (ConsultationKind.of ((BitVec.ofInt 32 v).signExtend
          64)).fIsAboutConsensusParameter = true := habout
        simp only [parametersOpen, habout', Bool.not_true, Bool.false_or, Bool.and_eq_true,
          Bool.not_eq_true', List.isEmpty_eq_false_iff] at hopen
        exact ⟨hopen.1.1.1.1, hopen.1.1.2⟩
      · intro hsuper
        have hsuper' : (ConsultationKind.of ((BitVec.ofInt 32 v).signExtend 64)).fSuper = true :=
          hsuper
        simp only [hsuper', Bool.true_and, Bool.not_eq_true', bne_eq_false_iff_eq] at hsizes
        exact hsizes

/-! ## What the converter stores -/

/-- The consultation with the fields that were read. -/
def ConsultationFields.consultation (f : ConsultationFields) (nMin : Int) (vParameters : List Nat)
    (hash blockhash : Uint256) : CConsultation :=
  { nVersion := f.nVersion.signExtend 64, hash := hash, strDZeel := f.sQuestion,
    vParameters := vParameters, nMin := toUint64 nMin, nMax := toUint64 f.nMax,
    txblockhash := blockhash }

/-- The answers that come with it. -/
def ConsultationFields.storedAnswers (f : ConsultationFields) (c : Crypto G) (fExclude : Bool)
    (hash blockhash : Uint256) (m : JsonObject) : List CConsultationAnswer :=
  match m 'a' with
  | .arr l => if f.kind.fRange then []
      else consultationAnswers c fExclude f.kind.fSuper hash blockhash l
  | _ => []

/-- The parameters of a super consultation, or the lower bound of another one. -/
def ConsultationFields.readBounds (f : ConsultationFields) (m : JsonObject) :
    Except Failure (Int × List Nat) :=
  if f.kind.fSuper then ((m 'm').getArray.bind allNumbers).map fun vParameters => (0, vParameters)
  else (m 'm').getInt64.map fun nMin => (nMin, [])

/-- The version has no bits beyond those of an `int`. -/
def JsonObject.ShortVersion (m : JsonObject) : Prop :=
  ∀ v, m.version 1 = .ok v → BitVec.ofInt 64 v = (BitVec.ofInt 32 v).signExtend 64

section Convert

variable {nd : DaoNode} {c : Crypto G} {m : JsonObject} {f : ConsultationFields} {strDZeel : Bytes}
  {hash blockhash : Uint256} {pindexPrev : CBlockIndex} {consultation : CConsultation}
  {vAnswers : List CConsultationAnswer}

/-- The version that is stored is the one that was validated only if it is short. -/
theorem shortVersion_of_txToConsultation (hread : nd.readObject strDZeel = some m)
    (hf : m.consultationFields = .ok f)
    (h : txToConsultation nd c strDZeel hash blockhash pindexPrev = .ok (consultation, vAnswers))
    (hversion : consultation.nVersion = f.nVersion.signExtend 64) : m.ShortVersion := by
  simp only [JsonObject.consultationFields, Except.bind_eq_ok_iff, Except.pure_eq_ok_iff] at hf
  obtain ⟨nMin, -, nMax, -, sQuestion, -, v, hv, vParameters, -, rfl⟩ := hf
  simp only [txToConsultation, hread, hv, Except.bind_eq_ok_iff, Except.ok.injEq, exists_eq_left',
    pure, Except.pure, Prod.mk.injEq] at h
  obtain ⟨text, -, params, -, low, -, high, -, rfl, -⟩ := h
  intro w hw
  cases hv.symm.trans hw
  exact hversion

/-- The two reads of the converter, as one. -/
theorem exists_bounds_iff {fSuper : Bool} {x : Except Failure (List Nat)} {y : Except Failure Int}
    (P : Int → List Nat → Prop) :
    (∃ vParameters, (if fSuper then x else .ok []) = .ok vParameters ∧
      ∃ nMin, (if fSuper then .ok 0 else y) = .ok nMin ∧ P nMin vParameters) ↔
    ∃ bounds : Int × List Nat, (if fSuper then x.map fun vParameters => ((0 : Int), vParameters)
      else y.map fun nMin => (nMin, [])) = .ok bounds ∧ P bounds.1 bounds.2 := by
  cases fSuper with
  | true =>
    constructor
    · rintro ⟨vParameters, hparams, nMin, hmin, hP⟩
      cases hmin
      exact ⟨(0, vParameters), by rw [if_pos rfl] at hparams ⊢; rw [hparams]; rfl, hP⟩
    · rintro ⟨bounds, hbounds, hP⟩
      obtain ⟨vParameters, hparams, rfl⟩ := Except.exists_of_map_eq_ok hbounds
      exact ⟨vParameters, hparams, 0, rfl, hP⟩
  | false =>
    constructor
    · rintro ⟨vParameters, hparams, nMin, hmin, hP⟩
      cases hparams
      exact ⟨(nMin, []), by rw [if_neg (by decide)] at hmin ⊢; rw [hmin]; rfl, hP⟩
    · rintro ⟨bounds, hbounds, hP⟩
      obtain ⟨nMin, hmin, rfl⟩ := Except.exists_of_map_eq_ok hbounds
      exact ⟨[], rfl, nMin, hmin, hP⟩

/-- **What `TxToConsultation` stores** for a short version, in terms of what the validator read. -/
theorem txToConsultation_eq_ok_iff (hread : nd.readObject strDZeel = some m)
    (hf : m.consultationFields = .ok f) (hshort : m.ShortVersion) :
    txToConsultation nd c strDZeel hash blockhash pindexPrev = .ok (consultation, vAnswers) ↔
      ∃ bounds, f.readBounds m = .ok bounds ∧
        f.consultation bounds.1 bounds.2 hash blockhash = consultation ∧
        f.storedAnswers c (nd.deployments pindexPrev).exclude hash blockhash m = vAnswers := by
  simp only [JsonObject.consultationFields, Except.bind_eq_ok_iff, Except.pure_eq_ok_iff] at hf
  obtain ⟨nMin, -, nMax, hmax, sQuestion, hquestion, v, hv, vParameters, -, rfl⟩ := hf
  simp only [txToConsultation, hread, hv, hmax, hquestion, hshort v hv, Except.bind_eq_ok_iff,
    Except.ok.injEq, exists_eq_left', pure, Except.pure, Prod.mk.injEq]
  let f : ConsultationFields :=
    ⟨nMin, nMax, sQuestion, BitVec.ofInt 32 v, vParameters, m.answerElements⟩
  exact @exists_bounds_iff f.kind.fSuper ((m 'm').getArray.bind allNumbers) (m 'm').getInt64
    fun low params => f.consultation low params hash blockhash = consultation ∧
      f.storedAnswers c (nd.deployments pindexPrev).exclude hash blockhash m = vAnswers

end Convert

/-! ## When the two agree -/

namespace ConsultationFields

/-- The consultation and its answers are those that were validated: a super consultation has one
answer with all the texts, another one an answer for each text. -/
structure StoredAs (f : ConsultationFields) (consultation : CConsultation)
    (vAnswers : List CConsultationAnswer) : Prop where
  version : consultation.nVersion = f.nVersion.signExtend 64
  nMin : (consultation.nMin : Int) = f.nMin
  nMax : (consultation.nMax : Int) = f.nMax
  question : consultation.strDZeel = f.sQuestion
  parameters : (if f.kind.fSuper then consultation.vParameters
    else if f.kind.fIsAboutConsensusParameter then [consultation.nMin] else []) = f.vParameters
  combined : f.kind.fSuper = true → ∃ a, vAnswers = [a] ∧ a.vAnswer = f.texts ∧
    a.nVersion &&& CConsultationAnswer.superVersion ≠ 0
  distinct : f.kind.fSuper = false → (vAnswers.map CConsultationAnswer.sAnswer).Nodup ∧
    (∀ s, s ∈ vAnswers.map CConsultationAnswer.sAnswer ↔ s ∈ f.texts) ∧
    ∀ a ∈ vAnswers, a.nVersion &&& CConsultationAnswer.superVersion = 0

/-- What the converter takes for granted: a short version, bounds that are `uint64_t`, a member `m`
of the right kind, and answers only where it keeps them. -/
structure Plain (m : JsonObject) (f : ConsultationFields) : Prop where
  version : m.ShortVersion
  nMin : 0 ≤ f.nMin ∧ f.nMin < 2 ^ 64
  nMax : f.nMax < 2 ^ 64
  low : f.kind.fSuper = false → (m 'm').isNum = true
  parameters : f.kind.fSuper = true →
    ∃ l, m 'm' = .arr l ∧ ∀ v ∈ l, (JsonMember.value v).isNum = true
  alone : f.kind.fSuper = true → f.kind.fIsAboutConsensusParameter = false →
    m 'm' = .arr [] ∧ (m 'a').isArray = true ∧ f.kind.fRange = false
  range : f.kind.fSuper = false → f.kind.fRange = true → f.texts = []

end ConsultationFields

theorem cast_toUint64_eq_iff (n : Int) : ((toUint64 n : Nat) : Int) = n ↔ 0 ≤ n ∧ n < 2 ^ 64 := by
  unfold toUint64
  omega

/-! ### The parameters of a super consultation -/

variable {ps : List Nat}

theorem length_of_numbers {l : List JsonValue} (h : numbers l = .ok ps)
    (hall : ∀ v ∈ l, (JsonMember.value v).isNum = true) : ps.length = l.length := by
  unfold numbers at h
  rw [List.filter_eq_self.mpr hall] at h
  clear hall
  induction l generalizing ps with
  | nil =>
    cases h
    rfl
  | cons v l ih =>
    rw [List.mapM_cons, Except.bind_eq_ok_iff] at h
    obtain ⟨p, -, h⟩ := h
    rw [Except.bind_eq_ok_iff] at h
    obtain ⟨qs, hqs, h⟩ := h
    cases h
    rw [List.length_cons, List.length_cons, ih hqs]

theorem allNumbers_eq_ok_iff (l : List JsonValue) (ps : List Nat) :
    allNumbers l = .ok ps ↔
      (∀ v ∈ l, (JsonMember.value v).isNum = true) ∧ numbers l = .ok ps := by
  simp only [allNumbers, Except.bind_eq_ok_iff, Except.rejectIf_eq_ok_iff, exists_const,
    Bool.not_eq_true', Bool.not_eq_false, List.all_eq_true]

/-- The parameters that the validator keeps of an array. -/
theorem readParameters_of_array {m : JsonObject} {l : List JsonValue} (hm : m 'm' = .arr l)
    (hsuper : k.fSuper = true) (habout : k.fIsAboutConsensusParameter = true) :
    readParameters m k = numbers l := by
  simp [readParameters, hm, hsuper, habout, JsonMember.isNum, JsonMember.isArray,
    JsonMember.getArray, Except.bind]

theorem readParameters_of_not_about {m : JsonObject} (h : k.fIsAboutConsensusParameter = false) :
    readParameters m k = .ok [] := by
  simp [readParameters, h]

/-- The array of parameters is stored as it was validated exactly when it holds nothing but
numbers, and none that the validator did not look at. -/
theorem superParameters_iff {m : JsonObject} (hread : readParameters m k = .ok ps)
    (hsuper : k.fSuper = true) :
    (m 'm').getArray.bind allNumbers = .ok ps ↔
      (∃ l, m 'm' = .arr l ∧ ∀ v ∈ l, (JsonMember.value v).isNum = true) ∧
        (k.fIsAboutConsensusParameter = false → m 'm' = .arr []) := by
  have hbind : (m 'm').getArray.bind allNumbers = .ok ps ↔
      ∃ l, m 'm' = .arr l ∧ allNumbers l = .ok ps := by
    simp only [← getArray_eq_ok_iff]
    exact Except.bind_eq_ok_iff _ _ _
  rw [hbind]
  cases habout : k.fIsAboutConsensusParameter with
  | true =>
    simp only [Bool.true_eq_false, false_implies, and_true]
    refine exists_congr fun l => and_congr_right fun hm => ?_
    rw [readParameters_of_array hm hsuper habout] at hread
    rw [allNumbers_eq_ok_iff, hread, and_iff_left rfl]
  | false =>
    rw [readParameters_of_not_about habout] at hread
    cases hread
    simp only [forall_const]
    constructor
    · rintro ⟨l, hm, hl⟩
      obtain ⟨hall, hnumbers⟩ := (allNumbers_eq_ok_iff _ _).mp hl
      have hlength := length_of_numbers hnumbers hall
      rw [List.length_nil, eq_comm, List.length_eq_zero_iff] at hlength
      subst hlength
      exact ⟨⟨[], hm, by simp⟩, hm⟩
    · rintro ⟨-, hm⟩
      exact ⟨[], hm, rfl⟩

/-! ### The answers -/

theorem JsonObject.consultationFields_spec {m : JsonObject} {f : ConsultationFields}
    (h : m.consultationFields = .ok f) :
    (if (m 'm').isNum then (m 'm').getInt64 else .ok 0) = .ok f.nMin ∧
      readParameters m f.kind = .ok f.vParameters ∧ f.answers = m.answerElements := by
  simp only [JsonObject.consultationFields, Except.bind_eq_ok_iff, Except.pure_eq_ok_iff] at h
  obtain ⟨nMin, hmin, nMax, -, sQuestion, -, v, -, vParameters, hparams, rfl⟩ := h
  exact ⟨hmin, hparams, rfl⟩

section Answers

variable {m : JsonObject} {f : ConsultationFields} {c : Crypto G} {fExclude : Bool}
  {hash blockhash : Uint256}

theorem storedAnswers_of_super (hanswers : f.answers = m.answerElements)
    (hsuper : f.kind.fSuper = true) :
    (∃ a, f.storedAnswers c fExclude hash blockhash m = [a] ∧ a.vAnswer = f.texts ∧
      a.nVersion &&& CConsultationAnswer.superVersion ≠ 0) ↔
    (m 'a').isArray = true ∧ f.kind.fRange = false := by
  unfold ConsultationFields.storedAnswers ConsultationFields.texts
  rw [hanswers, JsonObject.answerElements]
  cases m 'a' with
  | value v => simp [JsonMember.isArray]
  | arr l =>
    cases hrange : f.kind.fRange with
    | true => simp
    | false =>
      have hbit : ∀ b : Bool, ((CConsultationAnswer.baseVersion |||
          if b then CConsultationAnswer.excludeVersion else 0) |||
            CConsultationAnswer.superVersion) &&& CConsultationAnswer.superVersion ≠ 0 := by decide
      simp only [Bool.false_eq_true, if_false, JsonMember.isArray, and_self, iff_true, hsuper,
        consultationAnswers, if_true]
      exact ⟨_, rfl, rfl, hbit fExclude⟩

theorem storedAnswers_of_single (hanswers : f.answers = m.answerElements)
    (hsuper : f.kind.fSuper = false) :
    (((f.storedAnswers c fExclude hash blockhash m).map CConsultationAnswer.sAnswer).Nodup ∧
      (∀ s, s ∈ (f.storedAnswers c fExclude hash blockhash m).map CConsultationAnswer.sAnswer ↔
        s ∈ f.texts) ∧
      ∀ a ∈ f.storedAnswers c fExclude hash blockhash m,
        a.nVersion &&& CConsultationAnswer.superVersion = 0) ↔
    (f.kind.fRange = true → f.texts = []) := by
  unfold ConsultationFields.storedAnswers ConsultationFields.texts
  rw [hanswers, JsonObject.answerElements]
  cases m 'a' with
  | value v => simp [JsonValue.strings]
  | arr l =>
    cases hrange : f.kind.fRange with
    | true => simp [List.eq_nil_iff_forall_not_mem]
    | false =>
      have hbit : ∀ b : Bool, (CConsultationAnswer.baseVersion |||
          if b then CConsultationAnswer.excludeVersion else 0) &&&
            CConsultationAnswer.superVersion = 0 := by decide
      have htexts : ((consultationAnswers c fExclude false hash blockhash l).map
          CConsultationAnswer.sAnswer) = (JsonValue.strings l).reverse.dedup.reverse := by
        simp [consultationAnswers, Function.comp_def]
      simp only [Bool.false_eq_true, if_false, hsuper, htexts, List.nodup_reverse,
        List.nodup_dedup, List.mem_reverse, List.mem_dedup, implies_true, true_and, false_implies,
        iff_true]
      intro a ha
      obtain ⟨s, -, rfl⟩ := List.mem_map.mp ha
      exact hbit fExclude

/-- The answers of a valid consultation about several parameters are kept. -/
theorem ConsultationFields.Checked.kept (hf : m.consultationFields = .ok f) (h : f.Checked)
    (hsuper : f.kind.fSuper = true) (habout : f.kind.fIsAboutConsensusParameter = true) :
    (m 'a').isArray = true ∧ f.kind.fRange = false := by
  obtain ⟨hrange, hne⟩ := h.about habout
  refine ⟨?_, hrange⟩
  have hsizes := h.sizes hsuper
  rw [(JsonObject.consultationFields_spec hf).2.2, JsonObject.answerElements] at hsizes
  cases hm : m 'a' with
  | value v =>
    rw [hm, List.length_nil, List.length_eq_zero_iff] at hsizes
    exact absurd hsizes hne
  | arr l => rfl

end Answers

/-! ### The bounds -/

theorem ConsultationFields.Checked.nMax_nonneg {f : ConsultationFields} (h : f.Checked) :
    0 ≤ f.nMax := by
  have hbounds := h.bounds
  unfold boundsValid at hbounds
  split at hbounds <;> simp only [Bool.and_eq_true, decide_eq_true_eq] at hbounds <;> omega

/-- A lower bound that can be read was read by the validator. -/
theorem nMin_of_getInt64 {m : JsonObject} {n nMin : Int}
    (hmin : (if (m 'm').isNum then (m 'm').getInt64 else .ok 0) = .ok nMin)
    (hn : (m 'm').getInt64 = .ok n) : (m 'm').isNum = true ∧ n = nMin := by
  have hnum : (m 'm').isNum = true := by
    rw [(getInt64_eq_iff n).mp hn]
    rfl
  rw [hnum, if_pos rfl, hn, Except.ok.injEq] at hmin
  exact ⟨hnum, hmin⟩

/-- The parameter of a consultation about one parameter is its lower bound. -/
theorem readParameters_single_iff {m : JsonObject} {n : Int}
    (hread : readParameters m k = .ok ps) (hsuper : k.fSuper = false)
    (hn : (m 'm').getInt64 = .ok n) :
    (if k.fIsAboutConsensusParameter then [toUint64 n] else []) = ps := by
  cases habout : k.fIsAboutConsensusParameter with
  | false =>
    rw [readParameters_of_not_about habout] at hread
    exact Except.ok.inj hread
  | true =>
    have hm := (getInt64_eq_iff n).mp hn
    simpa [readParameters, habout, hsuper, hm, JsonMember.isNum, JsonMember.getInt64,
      Except.map] using hread

/-! ### Both -/

section Stored

variable {nd : DaoNode} {c : Crypto G} {m : JsonObject} {f : ConsultationFields} {strDZeel : Bytes}
  {hash blockhash : Uint256} {pindexPrev : CBlockIndex}

theorem ConsultationFields.StoredAs.plain (hread : nd.readObject strDZeel = some m)
    (hf : m.consultationFields = .ok f) {consultation : CConsultation}
    {vAnswers : List CConsultationAnswer}
    (h : txToConsultation nd c strDZeel hash blockhash pindexPrev = .ok (consultation, vAnswers))
    (hstored : f.StoredAs consultation vAnswers) : f.Plain m := by
  have hshort := shortVersion_of_txToConsultation hread hf h hstored.version
  obtain ⟨bounds, hbounds, rfl, rfl⟩ := (txToConsultation_eq_ok_iff hread hf hshort).mp h
  obtain ⟨hmin, hparams, hanswers⟩ := JsonObject.consultationFields_spec hf
  have hlow : 0 ≤ f.nMin ∧ f.nMin < 2 ^ 64 := by
    have hcast : ((toUint64 bounds.1 : Nat) : Int) = f.nMin := hstored.nMin
    have hlt : toUint64 bounds.1 < 2 ^ 64 := by
      unfold toUint64
      omega
    omega
  have hhigh := (cast_toUint64_eq_iff f.nMax).mp hstored.nMax
  cases hsuper : f.kind.fSuper with
  | true =>
    -- the array of parameters is stored as it was validated
    have hstoredParams := hstored.parameters
    rw [hsuper, if_pos rfl] at hstoredParams
    unfold ConsultationFields.readBounds at hbounds
    rw [hsuper, if_pos rfl] at hbounds
    obtain ⟨ps, hps, rfl⟩ := Except.exists_of_map_eq_ok hbounds
    rw [show ps = f.vParameters from hstoredParams] at hps
    obtain ⟨hall, halone⟩ := (superParameters_iff hparams hsuper).mp hps
    have hkept := (storedAnswers_of_super hanswers hsuper).mp (hstored.combined hsuper)
    exact ⟨hshort, hlow, hhigh.2, by simp [hsuper], fun _ => hall,
      fun _ habout => ⟨halone habout, hkept⟩, by simp [hsuper]⟩
  | false =>
    unfold ConsultationFields.readBounds at hbounds
    rw [hsuper, if_neg (by decide)] at hbounds
    obtain ⟨n, hn, rfl⟩ := Except.exists_of_map_eq_ok hbounds
    exact ⟨hshort, hlow, hhigh.2, fun _ => (nMin_of_getInt64 hmin hn).1, by simp [hsuper],
      by simp [hsuper], fun _ => (storedAnswers_of_single hanswers hsuper).mp
        (hstored.distinct hsuper)⟩

theorem ConsultationFields.Plain.stored (hread : nd.readObject strDZeel = some m)
    (hf : m.consultationFields = .ok f) (hchecked : f.Checked) (h : f.Plain m) :
    ∃ consultation vAnswers,
      txToConsultation nd c strDZeel hash blockhash pindexPrev = .ok (consultation, vAnswers) ∧
        f.StoredAs consultation vAnswers := by
  obtain ⟨hmin, hparams, hanswers⟩ := JsonObject.consultationFields_spec hf
  have hhigh := (cast_toUint64_eq_iff f.nMax).mpr ⟨hchecked.nMax_nonneg, h.nMax⟩
  cases hsuper : f.kind.fSuper with
  | true =>
    have hkept : (m 'a').isArray = true ∧ f.kind.fRange = false := by
      cases habout : f.kind.fIsAboutConsensusParameter with
      | true => exact hchecked.kept hf hsuper habout
      | false => exact (h.alone hsuper habout).2
    have hps := (superParameters_iff hparams hsuper).mpr
      ⟨h.parameters hsuper, fun habout => (h.alone hsuper habout).1⟩
    -- an array is no number, so the lower bound is its default
    have hzero : f.nMin = 0 := by
      obtain ⟨l, hl, -⟩ := h.parameters hsuper
      rw [hl] at hmin
      exact (Except.ok.inj hmin).symm
    have hbounds : f.readBounds m = .ok (0, f.vParameters) := by
      rw [ConsultationFields.readBounds, hsuper, if_pos rfl, hps]
      rfl
    refine ⟨_, _, (txToConsultation_eq_ok_iff hread hf h.version).mpr
      ⟨_, hbounds, rfl, rfl⟩, ?_⟩
    constructor
    case version => rfl
    case nMin => exact hzero.symm
    case nMax => exact hhigh
    case question => rfl
    case parameters => rw [hsuper, if_pos rfl]; rfl
    case combined => exact fun _ => (storedAnswers_of_super hanswers hsuper).mpr hkept
    case distinct => simp [hsuper]
  | false =>
    have hnum := h.low hsuper
    rw [hnum, if_pos rfl] at hmin
    have hbounds : f.readBounds m = .ok (f.nMin, []) := by
      rw [ConsultationFields.readBounds, hsuper, if_neg (by decide), hmin]
      rfl
    refine ⟨_, _, (txToConsultation_eq_ok_iff hread hf h.version).mpr
      ⟨_, hbounds, rfl, rfl⟩, ?_⟩
    constructor
    case version => rfl
    case nMin => exact (cast_toUint64_eq_iff f.nMin).mpr h.nMin
    case nMax => exact hhigh
    case question => rfl
    case parameters =>
      rw [hsuper, if_neg (by decide)]
      exact readParameters_single_iff hparams hsuper hmin
    case combined => simp [hsuper]
    case distinct =>
      exact fun _ => (storedAnswers_of_single hanswers hsuper).mpr (h.range hsuper)

end Stored

/-- **A valid consultation is stored as it was validated** exactly when it is plain. -/
theorem consultation_stored_iff {nd : DaoNode} {pindexPrev : CBlockIndex} {tx : CTransaction G}
    {view : DaoView} (h : isValidConsultation nd pindexPrev tx view = true) (c : Crypto G)
    (hash blockhash : Uint256) :
    ∃ m f, nd.metadata 1024 tx = some m ∧ m.consultationFields = .ok f ∧
      ((∃ consultation vAnswers,
          txToConsultation nd c tx.strDZeel hash blockhash pindexPrev =
            .ok (consultation, vAnswers) ∧ f.StoredAs consultation vAnswers) ↔ f.Plain m) := by
  obtain ⟨m, f, hm, hf, hchecked⟩ := isValidConsultation_reads h
  refine ⟨m, f, hm, hf, ?_⟩
  constructor
  · rintro ⟨consultation, vAnswers, hconvert, hstored⟩
    exact hstored.plain (nd.readObject_of_metadata hm) hf hconvert
  · intro hplain
    exact hplain.stored (nd.readObject_of_metadata hm) hf hchecked

namespace ConsultationTexts

def plain : Bytes :=
  ascii "\x7b\"q\":\"q\",\"m\":0,\"n\":1,\"a\":[\"x\",\"y\",\"x\",3]\x7d"

/-- No lower bound. -/
def unbounded : Bytes := ascii "\x7b\"q\":\"q\",\"n\":1,\"a\":[\"x\",\"y\"]\x7d"

/-- A consultation about several parameters, one of which is no number. -/
def mixed : Bytes :=
  ascii "\x7b\"q\":\"q\",\"n\":1,\"v\":45,\"m\":[\"x\",0],\"a\":[\"1\"]\x7d"

def nd : ChainNode (ZMod groupOrder) :=
  daoChain { fundAndDao with daoSuper := true }
    [(plain, jsonOf
      [('q', textMember "q"), ('m', numMember 0), ('n', numMember 1),
       ('a', .arr [.str (ascii "x"), .str (ascii "y"), .str (ascii "x"), .num (some 3)])]),
     (unbounded, jsonOf
      [('q', textMember "q"), ('n', numMember 1),
       ('a', .arr [.str (ascii "x"), .str (ascii "y")])]),
     (mixed, jsonOf
      [('q', textMember "q"), ('n', numMember 1), ('v', numMember 45),
       ('m', .arr [.str (ascii "x"), .num (some 0)]), ('a', .arr [.str (ascii "1")])])]

def consultationTx (strDZeel : Bytes) : CTransaction (ZMod groupOrder) := { strDZeel := strDZeel }

theorem plainConsultation_stored :
    ∃ consultation vAnswers,
      txToConsultation nd.toDaoNode nd.toCrypto plain 2 3 (fixedIndex 1) =
        .ok (consultation, vAnswers) ∧
      ConsultationFields.StoredAs
        ⟨0, 1, ascii "q", 1, [],
          [.str (ascii "x"), .str (ascii "y"), .str (ascii "x"), .num (some 3)]⟩
        consultation vAnswers := by
  have hvalid : isValidConsultation nd.toDaoNode (fixedIndex 1) (consultationTx plain) {} = true :=
    by decide +kernel
  obtain ⟨m, f, hm, hf, hiff⟩ := consultation_stored_iff hvalid nd.toCrypto 2 3
  cases hm
  cases hf
  refine hiff.mpr ⟨?_, by decide, by decide, fun _ => rfl, fun h => absurd h (by decide),
    fun h => absurd h (by decide), fun _ h => absurd h (by decide)⟩
  rintro v ⟨⟩
  decide

/-- The validator has a default for the lower bound and skips what is no number among the
parameters; the converter raises, or gives up. -/
theorem valid_not_stored :
    isValidConsultation nd.toDaoNode (fixedIndex 1) (consultationTx unbounded) {} = true ∧
      (txToConsultation nd.toDaoNode nd.toCrypto unbounded 2 3 (fixedIndex 1)).isOk = false ∧
      isValidConsultation nd.toDaoNode (fixedIndex 1) (consultationTx mixed) {} = true ∧
      (txToConsultation nd.toDaoNode nd.toCrypto mixed 2 3 (fixedIndex 1)).isOk = false := by
  refine ⟨?_, rfl, ?_, rfl⟩ <;> decide +kernel

end ConsultationTexts

end Navcoin
