import Navcoin.Dotnav.Owners
import Navcoin.Validation.ActiveChain

/-!
# What the validators of DAO transactions raise

The text of a DAO transaction is whatever its sender wrote.  Here the validators keep what the
verdicts of `Navcoin.Dao.Transactions` leave out: the exception that a reader of numbers throws,
and an index outside a vector, which no `try` block catches.

* `Raising.isValidConsensusParameterProposal`, `Raising.isValidConsultation`,
  `Raising.isValidConsultationAnswer`: the validators with their faults;
* `isValidConsultation_eq`: a consultation is always judged;
* `isValidProposal_returns_iff`, `isValidPaymentRequest_returns_iff`,
  `isValidConsultationAnswer_returns_iff`, `isValidConsensusParameterProposal_returns_iff`: when
  the others are;
* `validators_return_iff`: all five.
-/

namespace Navcoin

variable {G : Type}

/-! ## Faults -/

/-- How a validator can end without a verdict. -/
inductive Fault where
  | exception
  /-- an element is read where a vector or an array has none -/
  | outOfRange
  deriving DecidableEq, Repr

/-- What the readers of JSON values throw. -/
def thrown {α : Type} (x : Except Failure α) : Except Fault α := x.mapError fun _ => .exception

/-- A `try` block around a whole test: only exceptions are caught. -/
def tried : Except Fault Bool → Except Fault Bool
  | .error .exception => .ok false
  | x => x

/-- A reader comes first in both forms of a test. -/
theorem tried_thrown_bind {α : Type} {x : Except Failure α} {f : α → Except Fault Bool}
    {g : α → Except Failure Bool} (h : ∀ a, x = .ok a → tried (f a) = .ok (caught (g a))) :
    tried (thrown x >>= f) = .ok (caught (x >>= g)) := by
  cases x with
  | error e => rfl
  | ok a => exact h a rfl

/-- There is a verdict. -/
def Returns {ε : Type} (x : Except ε Bool) : Prop := ∃ b, x = .ok b

theorem returns_iff_forall_ne {ε : Type} (x : Except ε Bool) :
    Returns x ↔ ∀ e, x ≠ .error e := by
  cases x with
  | error e => simp [Returns]
  | ok b => simp [Returns]

theorem returns_tried_iff (x : Except Fault Bool) :
    Returns (tried x) ↔ x ≠ .error .outOfRange := by
  rcases x with ⟨_ | _⟩ | b <;> simp [Returns, tried]

theorem bind_ok_eq_error_iff {x : Except Fault Bool} {c : Bool} {f : Fault} :
    (x >>= fun ok => Except.ok (ok && c)) = .error f ↔ x = .error f := by
  cases x with
  | error e => rfl
  | ok b => simp [bind, Except.bind]

/-- Caught, a test gives `b`. -/
def Settles (x : Except Fault Bool) (b : Bool) : Prop := tried x = .ok b

namespace Settles

variable {x : Except Fault Bool}

theorem cases {b : Bool} (h : Settles x b) :
    x = .ok b ∨ x = .error .exception ∧ b = false := by
  rcases x with ⟨_ | _⟩ | c
  · exact .inr ⟨rfl, (Except.ok.inj h).symm⟩
  · cases h
  · exact .inl h

theorem and {b : Bool} (h : Settles x b) (c : Bool) :
    Settles (x >>= fun ok => .ok (ok && c)) (b && c) := by
  rcases h.cases with rfl | ⟨rfl, rfl⟩ <;> rfl

/-- Tests before and after one that may throw. -/
theorem between {b c : Bool} (h : c = true → Settles x b) (d : Bool) :
    Settles (if !c then .ok false else x >>= fun ok => .ok (ok && d)) (c && (b && d)) := by
  cases c with
  | false => rfl
  | true => exact (h rfl).and d

/-- A loop of tests, caught as a whole. -/
theorem allM {α : Type} {f : α → Except Fault Bool} {g : α → Bool} {l : List α}
    (h : ∀ a ∈ l, Settles (f a) (g a)) : Settles (l.allM f) (l.all g) := by
  induction l with
  | nil => rfl
  | cons a l ih =>
    obtain ⟨ha, hrest⟩ := List.forall_mem_cons.mp h
    rw [List.allM, List.all_cons]
    rcases ha.cases with ha | ⟨ha, hg⟩
    · rw [ha]
      cases g a with
      | false => rfl
      | true => exact ih hrest
    · rw [ha, hg]
      rfl

end Settles

/-! ## The validators -/

namespace Raising

open JsonMember

/-- The cast to `ConsensusParamsPos`, which has 32 bits. -/
def castPos (pos : Nat) : Nat := pos % 2 ^ 32

theorem castPos_of_lt {pos : Nat} (h : pos < ConsensusParam.all.length) : castPos pos = pos :=
  Nat.mod_eq_of_lt (h.trans (by decide))

/-- One round of `IsValidConsensusParameterProposal`: the value is read by `stoll`, then the
position is an index into `vConsensusParamsType`. -/
def parameterRound (nd : DaoNode) (pindexPrev : CBlockIndex) (view : DaoView)
    (e : Nat × Bytes) : Except Fault Bool :=
  if e.2.isEmpty || !e.2.all isDigit then .ok false
  else match stoll e.2, ConsensusParam.ofNat? e.1 with
    | none, _ => .error .exception
    | some _, none => .error .outOfRange
    | some _, some _ => .ok (isValidParameterValue nd pindexPrev view e.1 e.2)

/-- `IsValidConsensusParameterProposal` -/
def isValidConsensusParameterProposal (nd : DaoNode) (pindexPrev : CBlockIndex) (view : DaoView)
    (vPos : List Nat) (vProposal : List Bytes) : Except Fault Bool :=
  if vPos.length != vProposal.length then .ok false
  else do
    let ok ← ((vPos.map castPos).zip vProposal).allM (parameterRound nd pindexPrev view)
    .ok (ok && vProposal != (vPos.map castPos).map (currentValue view))

/-- The values that the answers of a consultation propose. -/
def answersValid (nd : DaoNode) (pindexPrev : CBlockIndex) (view : DaoView)
    (k : ConsultationKind) (nMin : Int) (vParameters : List Nat) (answers : List JsonValue) :
    Except Fault Bool :=
  if k.fIsAboutConsensusParameter && k.fSuper then
    match JsonValue.allStrings answers with
    | none => .ok false
    | some vAnswers =>
      isValidConsensusParameterProposal nd pindexPrev view vParameters vAnswers
  else if k.fIsAboutConsensusParameter then
    (JsonValue.strings answers).allM fun s =>
      isValidConsensusParameterProposal nd pindexPrev view [toUint64 nMin] [s]
  else .ok true

/-- `IsValidConsultation`; the parameters are in range before the answers are looked at. -/
def isValidConsultation (nd : DaoNode) (pindexPrev : CBlockIndex) (tx : CTransaction G)
    (view : DaoView) : Except Fault Bool :=
  match nd.metadata 1024 tx with
  | none => .ok false
  | some m => tried do
    let nMin ← thrown (if (m 'm').isNum then (m 'm').getInt64 else .ok 0)
    let nMax ← thrown (m 'n').getInt64
    let sQuestion ← thrown (m 'q').getStr
    let nVersion ← thrown (m.version 1)
    let nVersion := BitVec.ofInt 32 nVersion
    let k := ConsultationKind.of (nVersion.signExtend 64)
    let vParameters ← thrown (readParameters m k)
    let answers := match m 'a' with
      | .arr l => l
      | _ => []
    if !(parametersOpen nd pindexPrev view k nMax vParameters &&
      !(k.fRange && k.fAcceptMoreAnswers) &&
      (k.fAcceptMoreAnswers || k.fRange || toUint64 nMax ≤ answers.length) &&
      !(k.fSuper && vParameters.length != answers.length)) then .ok false
    else
      answersValid nd pindexPrev view k nMin vParameters answers >>= fun ok => .ok (ok &&
        (!sQuestion.isEmpty && tx.nContribution ≥ consultationFee view answers.length &&
          boundsValid k nMin nMax &&
          (k.fAcceptMoreAnswers || k.fRange || (JsonValue.strings answers).dedup.length > 1) &&
          !masked nVersion (nConsultationMask (nd.deployments pindexPrev))))

/-- The hash under which an answer is looked up. -/
def answerHash (c : Crypto G) (parent : Uint256) : List Bytes → Uint256
  | [s] => textHash c parent s
  | l => textsHash c parent l

/-- The tests of an answer about the values it proposes are reached. -/
def proposesValues (c : Crypto G) (view : DaoView) (hash : Uint256) (consultation : CConsultation)
    (vAnswers : List Bytes) : Bool :=
  !(vAnswers.headD []).isEmpty &&
    !(view.getConsultationAnswer (answerHash c hash vAnswers)).isSome && !consultation.isRange

/-- The verdict on the texts of an answer, the first of which is read without a look at their
number. -/
def answerVerdict (nd : DaoNode) (c : Crypto G) (pindexPrev : CBlockIndex) (tx : CTransaction G)
    (view : DaoView) (hash : Uint256) (consultation : CConsultation) (vAnswers : List Bytes) :
    Except Fault Bool :=
  if vAnswers.isEmpty then .error .outOfRange
  else if !proposesValues c view hash consultation vAnswers then .ok false
  else (if consultation.isAboutConsensusParameter then
      isValidConsensusParameterProposal nd pindexPrev view consultation.getParameters vAnswers
    else .ok true) >>= fun ok =>
      .ok (ok && toUint64 tx.nContribution ≥ view.param .consultationAnswerMinFee)

/-- `IsValidConsultationAnswer` -/
def isValidConsultationAnswer (nd : DaoNode) (c : Crypto G) (pindexPrev : CBlockIndex)
    (tx : CTransaction G) (view : DaoView) : Except Fault Bool :=
  match nd.metadata 255 tx with
  | none => .ok false
  | some m => tried do
    let hash ← thrown (m 'h').getStr
    let _ ← thrown (m.version 1)
    match view.getConsultation (uint256S hash) with
    | none => .ok false
    | some consultation =>
      match answerTexts consultation m with
      | none => .ok false
      | some vAnswers =>
        answerVerdict nd c pindexPrev tx view (uint256S hash) consultation vAnswers

/-! ## Values of parameters -/

/-- Nothing but digits, and at least one. -/
def Numeral (s : Bytes) : Prop := s ≠ [] ∧ ∀ c ∈ s, isDigit c = true

section Rounds

variable (nd : DaoNode) (pindexPrev : CBlockIndex) (view : DaoView)
variable {e : Nat × Bytes}

theorem numeral_iff (s : Bytes) : Numeral s ↔ (s.isEmpty || !s.all isDigit) = false := by
  simp [Numeral]

theorem isValidParameterValue_of_not_numeral (h : ¬ Numeral e.2) :
    isValidParameterValue nd pindexPrev view e.1 e.2 = false := by
  unfold isValidParameterValue
  split
  · rw [numeral_iff, Bool.not_eq_false] at h
    have hdigits : (!e.2.isEmpty && e.2.all isDigit) = false := by
      rw [← Bool.not_not (_ && _), Bool.not_and, Bool.not_not, h]
      rfl
    rw [hdigits]
    rfl
  · rfl

/-- What a round does with digits. -/
theorem parameterRound_of_numeral (h : Numeral e.2) :
    parameterRound nd pindexPrev view e =
      if 2 ^ 63 ≤ digitsValue e.2 then .error .exception
      else if ConsensusParam.all.length ≤ e.1 then .error .outOfRange
      else .ok (isValidParameterValue nd pindexPrev view e.1 e.2) := by
  have hread := stoll_of_isDigit h.1 h.2
  unfold parameterRound
  rw [if_neg (by rw [(numeral_iff _).mp h]; decide), hread]
  by_cases hfits : 2 ^ 63 ≤ digitsValue e.2
  · rw [if_pos hfits, if_neg (by omega)]
  · rw [if_neg hfits, if_pos (by omega)]
    by_cases hpos : ConsensusParam.all.length ≤ e.1
    · rw [if_pos hpos, ConsensusParam.ofNat?, List.getElem?_eq_none hpos]
    · rw [if_neg hpos, ConsensusParam.ofNat?, List.getElem?_eq_getElem (by omega)]

theorem parameterRound_of_not_numeral (h : ¬ Numeral e.2) :
    parameterRound nd pindexPrev view e = .ok false := by
  rw [numeral_iff, Bool.not_eq_false] at h
  unfold parameterRound
  rw [if_pos h]

theorem parameterRound_eq_error_iff (e : Nat × Bytes) (f : Fault) :
    parameterRound nd pindexPrev view e = .error f ↔ Numeral e.2 ∧
      (2 ^ 63 ≤ digitsValue e.2 ∧ f = .exception ∨
        digitsValue e.2 < 2 ^ 63 ∧ ConsensusParam.all.length ≤ e.1 ∧ f = .outOfRange) := by
  by_cases h : Numeral e.2
  · rw [parameterRound_of_numeral nd pindexPrev view h]
    split
    · next hlarge =>
      simp only [Except.error.injEq, h, hlarge, hlarge.not_gt, true_and, false_and, or_false]
      exact eq_comm
    · next hfits =>
      have hlt : digitsValue e.2 < 2 ^ 63 := by omega
      split
      · next hpos =>
        simp only [Except.error.injEq, h, hfits, hlt, hpos, true_and, false_and, false_or]
        exact eq_comm
      · next hpos => simp only [hfits, hpos, false_and, and_false, or_false, reduceCtorEq]
  · simp [parameterRound_of_not_numeral nd pindexPrev view h, h]

theorem parameterRound_settles (h : e.1 < ConsensusParam.all.length) :
    Settles (parameterRound nd pindexPrev view e)
      (isValidParameterValue nd pindexPrev view e.1 e.2) := by
  by_cases hnum : Numeral e.2
  · rw [parameterRound_of_numeral nd pindexPrev view hnum]
    split
    · next hlarge =>
      -- a value that `stoll` does not read is refused
      have hread := stoll_of_isDigit hnum.1 hnum.2
      rw [if_neg (by omega)] at hread
      unfold isValidParameterValue
      rw [hread]
      cases ConsensusParam.ofNat? e.1 <;> rfl
    · rw [if_neg (by omega)]
      rfl
  · rw [parameterRound_of_not_numeral nd pindexPrev view hnum,
      isValidParameterValue_of_not_numeral nd pindexPrev view hnum]
    rfl

theorem parameterRound_eq_true_iff (e : Nat × Bytes) :
    parameterRound nd pindexPrev view e = .ok true ↔
      isValidParameterValue nd pindexPrev view e.1 e.2 = true := by
  by_cases hpos : e.1 < ConsensusParam.all.length
  · rcases (parameterRound_settles nd pindexPrev view hpos).cases with h | ⟨h, hfalse⟩
    · rw [h, Except.ok.injEq]
    · rw [h, hfalse]
      simp
  · have hnone : ConsensusParam.ofNat? e.1 = none := List.getElem?_eq_none (by omega)
    have hfalse : isValidParameterValue nd pindexPrev view e.1 e.2 = false := by
      unfold isValidParameterValue
      rw [hnone]
    rw [hfalse]
    by_cases hnum : Numeral e.2
    · rw [parameterRound_of_numeral nd pindexPrev view hnum, if_pos (by omega : _ ≤ e.1)]
      split <;> simp
    · simp [parameterRound_of_not_numeral nd pindexPrev view hnum]

/-- The rounds before this one are passed, so that it takes place. -/
def Reached (vPos : List Nat) (vProposal : List Bytes) (pos : Nat) (proposal : Bytes) : Prop :=
  vPos.length = vProposal.length ∧
    ∃ pre post, (vPos.map castPos).zip vProposal = pre ++ (pos, proposal) :: post ∧
      ∀ e ∈ pre, isValidParameterValue nd pindexPrev view e.1 e.2 = true

theorem isValidConsensusParameterProposal_eq_error_iff (vPos : List Nat) (vProposal : List Bytes)
    (f : Fault) :
    isValidConsensusParameterProposal nd pindexPrev view vPos vProposal = .error f ↔
      ∃ pos proposal, Reached nd pindexPrev view vPos vProposal pos proposal ∧
        Numeral proposal ∧ (2 ^ 63 ≤ digitsValue proposal ∧ f = .exception ∨
          digitsValue proposal < 2 ^ 63 ∧ ConsensusParam.all.length ≤ pos ∧ f = .outOfRange) := by
  unfold isValidConsensusParameterProposal Reached
  by_cases hlength : vPos.length = vProposal.length
  · rw [if_neg (by simp [hlength])]
    rw [bind_ok_eq_error_iff, Except.allM_eq_error_iff]
    constructor
    · rintro ⟨pre, ⟨pos, proposal⟩, post, hsplit, hpre, herror⟩
      refine ⟨pos, proposal, ⟨hlength, pre, post, hsplit, ?_⟩,
        (parameterRound_eq_error_iff nd pindexPrev view _ f).mp herror⟩
      intro e he
      exact (parameterRound_eq_true_iff nd pindexPrev view e).mp (hpre e he)
    · rintro ⟨pos, proposal, ⟨_, pre, post, hsplit, hpre⟩, hfault⟩
      refine ⟨pre, (pos, proposal), post, hsplit, ?_,
        (parameterRound_eq_error_iff nd pindexPrev view _ f).mpr hfault⟩
      intro e he
      exact (parameterRound_eq_true_iff nd pindexPrev view e).mpr (hpre e he)
  · simp [hlength]

/-- On positions in range, the verdict is that of `Navcoin.isValidConsensusParameterProposal`. -/
theorem isValidConsensusParameterProposal_settles {vPos : List Nat} (vProposal : List Bytes)
    (h : ∀ pos ∈ vPos, pos < ConsensusParam.all.length) :
    Settles (isValidConsensusParameterProposal nd pindexPrev view vPos vProposal)
      (Navcoin.isValidConsensusParameterProposal nd pindexPrev view vPos vProposal) := by
  have hcast : vPos.map castPos = vPos := List.map_congr_left (fun pos hpos =>
    castPos_of_lt (h pos hpos)) |>.trans (List.map_id vPos)
  unfold isValidConsensusParameterProposal Navcoin.isValidConsensusParameterProposal
  rw [hcast]
  by_cases hlength : vPos.length = vProposal.length
  · rw [if_neg (by simp [hlength]), beq_iff_eq.mpr hlength]
    refine Settles.and (Settles.allM ?_) _
    intro e he
    exact parameterRound_settles nd pindexPrev view (h e.1 (List.of_mem_zip he).1)
  · rw [if_pos (by simp [hlength]), beq_eq_false_iff_ne.mpr hlength]
    rfl

end Rounds

/-! ## Consultations -/

section Consultations

variable (nd : DaoNode) (pindexPrev : CBlockIndex) (view : DaoView)

theorem readParameters_single {m : JsonObject} {k : ConsultationKind} {vParameters : List Nat}
    {nMin : Int} (habout : k.fIsAboutConsensusParameter = true) (hsuper : k.fSuper = false)
    (hmin : (if (m 'm').isNum then (m 'm').getInt64 else .ok 0) = .ok nMin)
    (h : readParameters m k = .ok vParameters) : vParameters = [toUint64 nMin] := by
  unfold readParameters at h
  rw [habout, hsuper] at h
  cases hnum : (m 'm').isNum with
  | true =>
    rw [hnum, if_pos rfl] at hmin
    rw [hnum, hmin] at h
    exact (Except.ok.inj h).symm
  | false =>
    rw [hnum] at hmin h
    cases hmin
    simp only [Bool.not_true, Bool.false_eq_true, if_false, Bool.false_and, Bool.and_false] at h
    exact (Except.ok.inj h).symm

theorem answersValid_settles {k : ConsultationKind} {nMin : Int} {vParameters : List Nat}
    (answers : List JsonValue)
    (hparams : k.fIsAboutConsensusParameter = true →
      ∀ pos ∈ vParameters, pos < ConsensusParam.all.length)
    (hmin : k.fIsAboutConsensusParameter = true → k.fSuper = false →
      vParameters = [toUint64 nMin]) :
    Settles (answersValid nd pindexPrev view k nMin vParameters answers)
      (Navcoin.answersValid nd pindexPrev view k nMin vParameters answers) := by
  unfold answersValid Navcoin.answersValid
  cases habout : k.fIsAboutConsensusParameter with
  | false => rfl
  | true =>
    cases hsuper : k.fSuper with
    | true =>
      cases JsonValue.allStrings answers with
      | none => rfl
      | some vAnswers =>
        exact isValidConsensusParameterProposal_settles nd pindexPrev view vAnswers
          (hparams habout)
    | false =>
      refine Settles.allM fun s _ => ?_
      apply isValidConsensusParameterProposal_settles
      rw [← hmin habout hsuper]
      exact hparams habout

/-- **Every consultation is judged**, whatever its text. -/
theorem isValidConsultation_eq (tx : CTransaction G) :
    isValidConsultation nd pindexPrev tx view =
      .ok (Navcoin.isValidConsultation nd pindexPrev tx view) := by
  unfold isValidConsultation Navcoin.isValidConsultation
  cases nd.metadata 1024 tx with
  | none => rfl
  | some m =>
    refine tried_thrown_bind fun nMin hmin => tried_thrown_bind fun nMax _ =>
      tried_thrown_bind fun sQuestion _ => tried_thrown_bind fun n _ =>
      tried_thrown_bind fun vParameters hparams => ?_
    generalize ConsultationKind.of ((BitVec.ofInt 32 n).signExtend 64) = k at hparams ⊢
    -- the parameters have been found in range when the answers are looked at
    have hanswers : ∀ answers, parametersOpen nd pindexPrev view k nMax vParameters = true →
        Settles (answersValid nd pindexPrev view k nMin vParameters answers)
          (Navcoin.answersValid nd pindexPrev view k nMin vParameters answers) := by
      intro answers hopen
      refine answersValid_settles nd pindexPrev view answers ?_
        fun habout hsuper => readParameters_single habout hsuper hmin hparams
      intro habout pos hpos
      simp only [parametersOpen, habout, Bool.not_true, Bool.false_or, Bool.and_eq_true,
        List.all_eq_true, decide_eq_true_eq] at hopen
      exact (hopen.2 pos hpos).1
    refine (Settles.between (fun hearly => hanswers _ ?_) _).trans (congrArg Except.ok ?_)
    · simp only [Bool.and_eq_true] at hearly
      exact hearly.1.1.1
    · cases m 'a' with
      | value v => simp only [caught, pure, Except.pure, Bool.and_assoc]
      | arr l => simp only [caught, pure, Except.pure, Bool.and_assoc]

end Consultations

/-! ## Numbers of the JSON object -/

/-- A number that is no `int64_t`: one with a fraction or an exponent, or one too large. -/
def unreadable : JsonMember := .value (.num none)

theorem getInt64_eq_ok_iff {j : JsonMember} (h : j.isNum = true) :
    (∃ n, j.getInt64 = .ok n) ↔ j ≠ unreadable := by
  rcases j with ⟨_ | ⟨_ | n⟩ | _⟩ | l
  all_goals simp_all [JsonMember.isNum, JsonMember.getInt64, unreadable]

theorem version_eq_ok_iff (m : JsonObject) (n : Int) :
    (∃ v, m.version n = .ok v) ↔ m 'v' ≠ unreadable := by
  unfold JsonObject.version
  cases h : (m 'v').isNum with
  | true =>
    exact getInt64_eq_ok_iff h
  | false =>
    have hne : m 'v' ≠ unreadable := by
      intro heq
      rw [heq] at h
      cases h
    simp [hne]

theorem returns_bind_iff {ε α : Type} (x : Except ε α) (f : α → Except ε Bool) :
    Returns (x >>= f) ↔ ∃ a, x = .ok a ∧ Returns (f a) := by
  cases x with
  | error e => simp [Returns, bind, Except.bind]
  | ok a => simp [Returns, bind, Except.bind]

/-- The four members that are asked for first. -/
theorem returns_members_iff {ε : Type} {k₁ k₂ k₃ k₄ : Bool} {x : Except ε Bool} {P : Prop}
    (h : k₁ = true → k₂ = true → k₃ = true → k₄ = true → (Returns x ↔ P)) :
    Returns (if !(k₁ && k₂ && k₃ && k₄) then .ok false else x) ↔
      (k₁ = true → k₂ = true → k₃ = true → k₄ = true → P) := by
  cases k₁ <;> cases k₂ <;> cases k₃ <;> cases k₄ <;> simp_all [Returns]

/-! ## Proposals and payment requests -/

/-- The numbers of a proposal are `int64_t`. -/
def ReadableProposal (nd : DaoNode) (tx : CTransaction G) : Prop :=
  ∀ m, nd.metadata 1024 tx = some m →
    (m 'n').isNum = true → (m 'a').isStr = true → (m 'd').isNum = true → (m 's').isStr = true →
    m 'n' ≠ unreadable ∧ m 'd' ≠ unreadable ∧ m 'v' ≠ unreadable

theorem isValidProposal_returns_iff (nd : DaoNode) (pindexPrev : CBlockIndex)
    (tx : CTransaction G) (view : DaoView) :
    Returns (isValidProposal nd pindexPrev tx view) ↔ ReadableProposal nd tx := by
  unfold isValidProposal ReadableProposal
  cases hm : nd.metadata 1024 tx with
  | none => simp [Returns]
  | some m =>
    simp only [Option.some.injEq, forall_eq']
    refine returns_members_iff fun hn ha hd hs => ?_
    obtain ⟨ownerAddress, howner⟩ := exists_getStr ha
    obtain ⟨paymentAddress, hpayment⟩ := exists_optional_getStr (m 'p') ownerAddress
    simp only [← getInt64_eq_ok_iff hn, ← getInt64_eq_ok_iff hd, ← version_eq_ok_iff m 1,
      returns_bind_iff, howner, hpayment, Except.ok.injEq, exists_eq_left']
    constructor
    · rintro ⟨nAmount, hamount, nDeadline, hdeadline, nVersion, hversion, _⟩
      exact ⟨⟨nAmount, hamount⟩, ⟨nDeadline, hdeadline⟩, ⟨nVersion, hversion⟩⟩
    · rintro ⟨⟨nAmount, hamount⟩, ⟨nDeadline, hdeadline⟩, ⟨nVersion, hversion⟩⟩
      exact ⟨nAmount, hamount, nDeadline, hdeadline, nVersion, hversion, _, rfl⟩

/-- The numbers of a payment request are `int64_t`, and the owner of its proposal has an address
that can be a key. -/
def ReadablePaymentRequest (nd : DaoNode) (tx : CTransaction G) (view : DaoView) : Prop :=
  ∀ m, nd.metadata 1024 tx = some m →
    (m 'n').isNum = true → (m 's').isStr = true → (m 'h').isStr = true → (m 'i').isStr = true →
    m 'n' ≠ unreadable ∧ m 'v' ≠ unreadable ∧
      ∀ nAmount hash proposal, m 'n' = .value (.num (some nAmount)) → m 'h' = .value (.str hash) →
        view.getProposal (uint256S hash) = some proposal → 0 ≤ nAmount →
        proposal.getLastState nd.mapBlockIndex = .accepted →
        nd.isValidAddress proposal.ownerAddress = true

/-- Only the message about an owner without a valid address throws. -/
theorem returns_owner_iff {nd : DaoNode} (o : Option CProposal) (f : CProposal → Bool) :
    Returns (match o with
      | none => pure false
      | some proposal => do
        Except.rejectIf (!nd.isValidAddress proposal.ownerAddress) Failure.exception
        pure (f proposal)) ↔
      ∀ proposal, o = some proposal → nd.isValidAddress proposal.ownerAddress = true := by
  cases o with
  | none => simp [Returns, pure, Except.pure]
  | some proposal =>
    cases h : nd.isValidAddress proposal.ownerAddress <;>
      simp [Returns, Except.rejectIf, h, bind, Except.bind, pure, Except.pure]

theorem isValidPaymentRequest_returns_iff (nd : DaoNode) (pindexPrev : CBlockIndex)
    (tx : CTransaction G) (view : DaoView) :
    Returns (isValidPaymentRequest nd pindexPrev tx view) ↔ ReadablePaymentRequest nd tx view := by
  unfold isValidPaymentRequest ReadablePaymentRequest
  cases hm : nd.metadata 1024 tx with
  | none => simp [Returns]
  | some m =>
    simp only [Option.some.injEq, forall_eq']
    refine returns_members_iff fun hn hs hh hi => ?_
    obtain ⟨signature, hsignature⟩ := exists_getStr hs
    obtain ⟨hash, hhash⟩ := exists_getStr hh
    obtain ⟨text, htext⟩ := exists_getStr hi
    obtain ⟨sRandom, hrandom⟩ := exists_optional_getStr (m 'r') []
    simp only [← getInt64_eq_ok_iff hn, ← version_eq_ok_iff m 1, ← getInt64_eq_iff,
      ← getStr_eq_ok_iff, returns_bind_iff, hsignature, hhash, htext, hrandom, Except.ok.injEq,
      exists_eq_left']
    constructor
    · rintro ⟨nAmount, hamount, nVersion, hversion, h⟩
      refine ⟨⟨nAmount, hamount⟩, ⟨nVersion, hversion⟩, ?_⟩
      rintro nAmount' _ proposal hamount' rfl hproposal hpositive haccepted
      cases hamount.symm.trans hamount'
      exact (returns_owner_iff _ _).mp h proposal (by simp [hproposal, hpositive, haccepted])
    · rintro ⟨⟨nAmount, hamount⟩, ⟨nVersion, hversion⟩, hvalid⟩
      refine ⟨nAmount, hamount, nVersion, hversion, (returns_owner_iff _ _).mpr ?_⟩
      intro proposal hproposal
      rw [Option.filter_eq_some_iff, Bool.and_eq_true, decide_eq_true_eq, beq_iff_eq] at hproposal
      exact hvalid nAmount hash proposal hamount rfl hproposal.1 hproposal.2.1 hproposal.2.2

/-! ## Answers -/

section Answers

variable (nd : DaoNode) (c : Crypto G) (pindexPrev : CBlockIndex) (tx : CTransaction G)
  (view : DaoView)

/-- An answer has a text, and the values it proposes are for parameters that exist. -/
def TextsInRange (hash : Uint256) (consultation : CConsultation) (vAnswers : List Bytes) : Prop :=
  vAnswers ≠ [] ∧
    (proposesValues c view hash consultation vAnswers = true →
      consultation.isAboutConsensusParameter = true →
      ∀ pos proposal, Reached nd pindexPrev view consultation.getParameters vAnswers pos proposal →
        Numeral proposal → digitsValue proposal < 2 ^ 63 → pos < ConsensusParam.all.length)

theorem answerVerdict_ne_outOfRange_iff (hash : Uint256) (consultation : CConsultation)
    (vAnswers : List Bytes) :
    answerVerdict nd c pindexPrev tx view hash consultation vAnswers ≠ .error .outOfRange ↔
      TextsInRange nd c pindexPrev view hash consultation vAnswers := by
  unfold answerVerdict TextsInRange
  cases vAnswers with
  | nil => simp
  | cons s l =>
    rw [if_neg (by simp)]
    cases hproposes : proposesValues c view hash consultation (s :: l) with
    | false => simp
    | true =>
      cases habout : consultation.isAboutConsensusParameter with
      | false => simp [bind, Except.bind]
      | true =>
        simp only [Bool.not_true, Bool.false_eq_true, if_false, if_true, ne_eq,
          bind_ok_eq_error_iff, isValidConsensusParameterProposal_eq_error_iff, reduceCtorEq,
          and_false, false_or, and_true, not_exists, not_and, not_le, not_false_eq_true, true_and, true_implies]

/-- Every text that gets as far as being read as an answer is in range. -/
def AnswerInRange : Prop :=
  ∀ m hash consultation vAnswers, nd.metadata 255 tx = some m → m 'h' = .value (.str hash) →
    m 'v' ≠ unreadable → view.getConsultation (uint256S hash) = some consultation →
    answerTexts consultation m = some vAnswers →
    TextsInRange nd c pindexPrev view (uint256S hash) consultation vAnswers

theorem isValidConsultationAnswer_returns_iff :
    Returns (isValidConsultationAnswer nd c pindexPrev tx view) ↔
      AnswerInRange nd c pindexPrev tx view := by
  unfold isValidConsultationAnswer AnswerInRange
  cases hm : nd.metadata 255 tx with
  | none => simp [Returns]
  | some m =>
    rw [returns_tried_iff]
    constructor
    · rintro h _ hash consultation vAnswers ⟨⟩ hhash hversion hconsultation htexts
      obtain ⟨n, hn⟩ := (version_eq_ok_iff m 1).mpr hversion
      rw [(getStr_eq_ok_iff hash).mpr hhash, hn] at h
      simp only [thrown, Except.mapError, bind, Except.bind, hconsultation, htexts] at h
      exact (answerVerdict_ne_outOfRange_iff nd c pindexPrev tx view _ _ _).mp h
    · intro h
      cases hhash : (m 'h').getStr with
      | error _ => simp [thrown, Except.mapError, bind, Except.bind]
      | ok hash =>
        cases hversion : m.version 1 with
        | error _ => simp [thrown, Except.mapError, bind, Except.bind]
        | ok n =>
          simp only [thrown, Except.mapError, bind, Except.bind]
          cases hconsultation : view.getConsultation (uint256S hash) with
          | none => simp
          | some consultation =>
            dsimp only
            cases htexts : answerTexts consultation m with
            | none => simp
            | some vAnswers =>
              exact (answerVerdict_ne_outOfRange_iff nd c pindexPrev tx view _ _ _).mpr
                (h m hash consultation vAnswers rfl ((getStr_eq_ok_iff hash).mp hhash)
                  ((version_eq_ok_iff m 1).mp ⟨n, hversion⟩) hconsultation htexts)

end Answers

/-! ## All validators -/

/-- The values are `long long`, and for parameters that exist. -/
def ReadableValues (nd : DaoNode) (pindexPrev : CBlockIndex) (view : DaoView) (vPos : List Nat)
    (vProposal : List Bytes) : Prop :=
  ∀ pos proposal, Reached nd pindexPrev view vPos vProposal pos proposal → Numeral proposal →
    digitsValue proposal < 2 ^ 63 ∧ pos < ConsensusParam.all.length

theorem isValidConsensusParameterProposal_returns_iff (nd : DaoNode) (pindexPrev : CBlockIndex)
    (view : DaoView) (vPos : List Nat) (vProposal : List Bytes) :
    Returns (isValidConsensusParameterProposal nd pindexPrev view vPos vProposal) ↔
      ReadableValues nd pindexPrev view vPos vProposal := by
  simp only [returns_iff_forall_ne, ne_eq, isValidConsensusParameterProposal_eq_error_iff,
    ReadableValues]
  constructor
  · intro h pos proposal hreached hnum
    by_contra hnot
    rcases not_and_or.mp hnot with hlarge | hpos
    · exact h .exception ⟨pos, proposal, hreached, hnum, .inl ⟨by omega, rfl⟩⟩
    · by_cases hlarge : 2 ^ 63 ≤ digitsValue proposal
      · exact h .exception ⟨pos, proposal, hreached, hnum, .inl ⟨hlarge, rfl⟩⟩
      · exact h .outOfRange
          ⟨pos, proposal, hreached, hnum, .inr ⟨by omega, by omega, rfl⟩⟩
  · rintro h f ⟨pos, proposal, hreached, hnum, hfault⟩
    obtain ⟨hfits, hpos⟩ := h pos proposal hreached hnum
    omega

/-- **The five validators give a verdict** on exactly the texts and views that meet these
conditions. -/
theorem validators_return_iff (nd : DaoNode) (c : Crypto G) (pindexPrev : CBlockIndex)
    (tx : CTransaction G) (view : DaoView) (vPos : List Nat) (vProposal : List Bytes) :
    (Returns (isValidProposal nd pindexPrev tx view) ∧
      Returns (isValidPaymentRequest nd pindexPrev tx view) ∧
      Returns (isValidConsultation nd pindexPrev tx view) ∧
      Returns (isValidConsultationAnswer nd c pindexPrev tx view) ∧
      Returns (isValidConsensusParameterProposal nd pindexPrev view vPos vProposal)) ↔
    ReadableProposal nd tx ∧ ReadablePaymentRequest nd tx view ∧
      AnswerInRange nd c pindexPrev tx view ∧
      ReadableValues nd pindexPrev view vPos vProposal := by
  have hconsultation : Returns (isValidConsultation nd pindexPrev tx view) :=
    ⟨_, isValidConsultation_eq nd pindexPrev view tx⟩
  rw [isValidProposal_returns_iff, isValidPaymentRequest_returns_iff,
    isValidConsultationAnswer_returns_iff, isValidConsensusParameterProposal_returns_iff]
  simp only [hconsultation, true_and]

/-! ## Texts without a verdict -/

namespace Unjudged

def fraction : Bytes := ascii "\x7b\"n\":1.5,\"a\":\"a\",\"d\":1,\"s\":\"s\"\x7d"

def request : Bytes := ascii "\x7b\"n\":1e3,\"s\":\"s\",\"h\":\"1\",\"i\":\"i\"\x7d"

def noAnswer : Bytes := ascii "\x7b\"h\":\"1\",\"a\":[]\x7d"

def nd : ChainNode (ZMod groupOrder) :=
  daoChain fundAndDao
    [(fraction, jsonOf
      [('n', unreadable), ('a', textMember "a"), ('d', numMember 1), ('s', textMember "s")]),
     (request, jsonOf
      [('n', unreadable), ('s', textMember "s"), ('h', textMember "1"), ('i', textMember "i")]),
     (noAnswer, jsonOf [('h', textMember "1"), ('a', .arr [])])]

/-- A consultation about two parameters at once. -/
def consultation : CConsultation :=
  { hash := 1, nVersion := CConsultation.baseVersion ||| CConsultation.moreAnswersVersion |||
      CConsultation.consensusParameterVersion ||| CConsultation.superVersion,
    vParameters := [0, 1], nMax := 1 }

def view : DaoView := ({} : DaoView).setConsultation consultation

/-- A number with a fraction or an exponent is an exception for a proposal and for a payment
request, an answer without texts is read outside its vector, and a value of `2 ^ 63` is an
exception. -/
theorem validators_raise :
    isValidProposal nd.toDaoNode (fixedIndex 1)
        ({ strDZeel := fraction } : CTransaction (ZMod groupOrder)) view = .error .exception ∧
      isValidPaymentRequest nd.toDaoNode (fixedIndex 1)
        ({ strDZeel := request } : CTransaction (ZMod groupOrder)) view = .error .exception ∧
      isValidConsultationAnswer nd.toDaoNode nd.toCrypto (fixedIndex 1)
        { strDZeel := noAnswer } view = .error .outOfRange ∧
      isValidConsensusParameterProposal nd.toDaoNode (fixedIndex 1) view [0]
        [ascii "9223372036854775808"] = .error .exception :=
  ⟨rfl, rfl, rfl, rfl⟩

end Unjudged

end Raising

end Navcoin
