import Navcoin.Dao.Json
import Navcoin.Dao.Predicates

/-!
# DAO transactions

How a transaction with a JSON object becomes a proposal, a payment request, a consultation or an
answer, and when it is valid as such.  Addresses and signed messages are those of the node.
-/

namespace Navcoin

/-- What the DAO transactions are read with. -/
structure DaoNode extends DaoRules where
  deployments : CBlockIndex → Deployments
  /-- the object that a string holds as JSON -/
  readObject : Bytes → Option JsonObject
  isValidAddress : Bytes → Bool
  isPrivateAddress : Bytes → Bool
  /-- the signature of a message by the key of an address -/
  checkMessage : (address message signature : Bytes) → Bool
  /-- `chainActive.Contains`, while a block on top of the first one is looked at -/
  chainActiveContains : CBlockIndex → CBlockIndex → Bool

def proposalVersion : BitVec 32 := 4
def paymentRequestVersion : BitVec 32 := 5
def consultationVersion : BitVec 32 := 6
def answerVersion : BitVec 32 := 7
def voteVersion : BitVec 32 := 8

variable {G : Type}

/-- `nVersion & 0xF` -/
def CTransaction.kind (tx : CTransaction G) : BitVec 32 := tx.nVersion &&& 0xf

/-- The value of the outputs that contribute to the fund. -/
def CTransaction.nContribution (tx : CTransaction G) : Int :=
  ((tx.vout.filter CTxOut.isCommunityFundContribution).map CTxOut.nValue).sum

variable (d : Deployments) (nd : DaoNode) (c : Crypto G) (pindexPrev : CBlockIndex)

/-- The object of a transaction, if its text is not too long. -/
def DaoNode.metadata (maxLength : Nat) (tx : CTransaction G) : Option JsonObject :=
  if tx.strDZeel.length > maxLength then none else nd.readObject tx.strDZeel

theorem DaoNode.readObject_of_metadata {n : Nat} {tx : CTransaction G} {m : JsonObject}
    (h : nd.metadata n tx = some m) : nd.readObject tx.strDZeel = some m := by
  unfold DaoNode.metadata at h
  split at h
  · cases h
  · exact h

/-- The member `v`. -/
def JsonObject.version (m : JsonObject) (default : Int) : Except Failure Int :=
  if (m 'v').isNum then (m 'v').getInt64 else .ok default

/-! ## Version masks -/

/-- `GetVersionMask` for one kind of object: the bits of what is not deployed are cleared. -/
def versionMask (allVersion : BitVec 64) (bits : List (Bool × BitVec 64)) : BitVec 64 :=
  bits.foldl (fun mask e => if e.1 then mask else mask &&& ~~~e.2) allVersion

def nProposalMask : BitVec 64 :=
  versionMask 0x7f [(d.reducedCFundQuorum, 4), (d.dao, 8), (d.exclude, 32), (d.daoSuper, 64)]

def nPaymentRequestMask : BitVec 64 :=
  versionMask 0x3f [(d.reducedCFundQuorum, 4), (d.dao, 8), (d.exclude, 16), (d.daoSuper, 32)]

def nConsultationMask : BitVec 64 :=
  versionMask 0x3f [(d.exclude, 16), (d.daoSuper, 32)]

/-- `nVersion & ~mask`, with the sign of the `int` extended. -/
def masked (nVersion : BitVec 32) (mask : BitVec 64) : Bool :=
  nVersion.signExtend 64 &&& ~~~mask != 0

/-! ## Proposals and payment requests -/

def isValidProposal (tx : CTransaction G) (view : DaoView) : Except Failure Bool :=
  match nd.metadata 1024 tx with
  | none => .ok false
  | some m =>
    if !((m 'n').isNum && (m 'a').isStr && (m 'd').isNum && (m 's').isStr) then .ok false
    else do
      let nAmount ← (m 'n').getInt64
      let ownerAddress ← (m 'a').getStr
      let paymentAddress ← (if (m 'p').isStr then (m 'p').getStr else .ok ownerAddress)
      let nDeadline ← (m 'd').getInt64
      let nVersion ← m.version 1
      pure (nd.isValidAddress ownerAddress && nd.isValidAddress paymentAddress &&
        !nd.isPrivateAddress ownerAddress && !nd.isPrivateAddress paymentAddress &&
        toUint64 tx.nContribution ≥ view.param .proposalMinFee && !ownerAddress.isEmpty &&
        !paymentAddress.isEmpty && nAmount < maxMoney && nAmount > 0 && nDeadline > 0 &&
        !masked (BitVec.ofInt 32 nVersion) (nProposalMask (nd.deployments pindexPrev)))

/-- `TxToProposal`; the payment address is read from the owner's member. -/
def txToProposal (strDZeel : Bytes) (hash blockhash : Uint256)
    (nProposalFee : Int) : Except Failure CProposal :=
  match nd.readObject strDZeel with
  | none => .error .returnFalse
  | some m => do
    let nVersion ← (if (m 'v').isNum then (m 'v').getInt else .ok 1)
    let nAmount ← (m 'n').getInt64
    let ownerAddress ← (m 'a').getStr
    let nDeadline ← (m 'd').getInt64
    let text ← (m 's').getStr
    let nVersion := BitVec.ofInt 32 nVersion
    Except.rejectIf (nAmount < 0) .returnFalse
    pure
      { nVersion := if (m 'p').isStr then nVersion ||| CProposal.paymentAddressVersion
          else nVersion &&& ~~~CProposal.paymentAddressVersion
        nAmount := nAmount, ownerAddress := ownerAddress, paymentAddress := ownerAddress,
        nDeadline := UInt32.ofInt nDeadline, strDZeel := text, nFee := nProposalFee, hash := hash,
        txblockhash := blockhash }

def ascii (s : String) : Bytes := s.toList.map fun c => UInt8.ofNat c.toNat

/-- `uint256::ToString` -/
def hashText (hash : Uint256) : Bytes := hexStr (toBE 32 hash.toNat)

/-- The text the owner of a proposal signs. -/
def withdrawText (sRandom : Bytes) (nAmount : Int) (hash : Uint256) (text : Bytes) : Bytes :=
  sRandom ++ ascii "I kindly ask to withdraw " ++ decimal nAmount.toNat ++
    ascii "NAV from the proposal " ++ hashText hash ++ ascii ". Payment request id: " ++ text

/-- The last test of the source compares the conjunction of fee and version with zero, and the
message about an owner without a valid address has an argument too many, which is an exception. -/
def isValidPaymentRequest (tx : CTransaction G) (view : DaoView) : Except Failure Bool :=
  match nd.metadata 1024 tx with
  | none => .ok false
  | some m =>
    if !((m 'n').isNum && (m 's').isStr && (m 'h').isStr && (m 'i').isStr) then .ok false
    else do
      let nAmount ← (m 'n').getInt64
      let signature ← (m 's').getStr
      let hash ← (m 'h').getStr
      let text ← (m 'i').getStr
      let nVersion ← m.version 1
      let sRandom ← (if (m 'r').isStr then (m 'r').getStr else .ok [])
      let nVersion := BitVec.ofInt 32 nVersion
      match (view.getProposal (uint256S hash)).filter fun proposal =>
        nAmount ≥ 0 && proposal.getLastState nd.mapBlockIndex == .accepted with
      | none => pure false
      | some proposal =>
        Except.rejectIf (!nd.isValidAddress proposal.ownerAddress) .exception
        pure (nd.checkMessage proposal.ownerAddress
            (withdrawText (if CPaymentRequest.baseVersion ≤ nVersion then sRandom else [])
              nAmount proposal.hash text) signature &&
          nAmount ≤ proposal.getAvailable nd.toDaoRules view true &&
          !(toUint64 tx.nContribution ≥ view.param .paymentRequestMinFee &&
            masked nVersion (nPaymentRequestMask (nd.deployments pindexPrev))))

def txToPaymentRequest (strDZeel : Bytes) (hash blockhash : Uint256) :
    Except Failure CPaymentRequest :=
  match nd.readObject strDZeel with
  | none => .error .returnFalse
  | some m => do
    let nAmount ← (m 'n').getInt64
    let proposalhash ← (m 'h').getStr
    let text ← (m 'i').getStr
    let nVersion ← (if (m 'v').isNum then (m 'v').getInt else .ok 1)
    Except.rejectIf (nAmount < 0) .returnFalse
    pure
      { hash := hash, nAmount := nAmount,
        proposalhash := uint256S (ascii "0x" ++ proposalhash),
        strDZeel := text, nVersion := BitVec.ofInt 32 nVersion, txblockhash := blockhash }

/-! ## Values of consensus parameters -/

/-- A consultation about the parameter is going on. -/
def activeAbout (view : DaoView) (param : Nat) : Bool :=
  view.getAllConsultations.entries.any fun c =>
    (c.txblockhash == 0 ||
      (nd.mapBlockIndex c.txblockhash).any (nd.chainActiveContains pindexPrev)) &&
    c.isAboutConsensusParameter && !c.isFinished nd.toDaoRules && c.getParameters.contains param

/-- The range of a value. -/
def ConsensusParam.admits (view : DaoView) (p : ConsensusParam) (val : Nat) : Bool :=
  !(p.type == .percent && val > 10000) && !(p.type == .nav && val > maxMoney.toNat) &&
    !(p.type == .number && (val == 0 || val > 2 ^ 24)) &&
    !(p == .consultationMinCycles && val > view.param .consultationMaxSupportCycles) &&
    !(p == .consultationMaxSupportCycles && val < view.param .consultationMinCycles) &&
    !(p.type == .bool && val != 0 && val != 1)

/-- One round of `IsValidConsensusParameterProposal`; the positions are in range there. -/
def isValidParameterValue (view : DaoView) (pos : Nat) (proposal : Bytes) : Bool :=
  match ConsensusParam.ofNat? pos, stoll proposal with
  | some p, some val =>
    !proposal.isEmpty && proposal.all isDigit && p.admits view (toUint64 val) &&
      !(p == .consultationMinCycles &&
        activeAbout nd pindexPrev view (ConsensusParam.toNat .consultationMaxSupportCycles)) &&
      !(p == .consultationMaxSupportCycles &&
        activeAbout nd pindexPrev view (ConsensusParam.toNat .consultationMinCycles))
  | _, _ => false

/-- The current value of the parameter at a position, as text. -/
def currentValue (view : DaoView) (pos : Nat) : Bytes :=
  ((ConsensusParam.ofNat? pos).map fun p => decimal (view.param p)).getD []

/-- `IsValidConsensusParameterProposal`: values are paired with positions in the order given, and
not all of them may be the current ones. -/
def isValidConsensusParameterProposal
    (view : DaoView) (vPos : List Nat) (vProposal : List Bytes) : Bool :=
  vPos.length == vProposal.length &&
    (vPos.zip vProposal).all (fun e => isValidParameterValue nd pindexPrev view e.1 e.2) &&
    vProposal != vPos.map (currentValue view)

/-! ## Consultations -/

/-- A test whose exceptions are caught. -/
def caught (x : Except Failure Bool) : Bool :=
  match x with
  | .ok b => b
  | .error _ => false

theorem caught_eq_true {x : Except Failure Bool} (h : caught x = true) : x = .ok true := by
  cases x with
  | error e => cases h
  | ok b => exact congrArg Except.ok h

/-- The version bits that `IsValidConsultation` reads. -/
structure ConsultationKind where
  fRange : Bool
  fAcceptMoreAnswers : Bool
  fIsAboutConsensusParameter : Bool
  fSuper : Bool

def ConsultationKind.of (nVersion : BitVec 64) : ConsultationKind :=
  { fRange := nVersion &&& CConsultation.answerIsARangeVersion != 0
    fAcceptMoreAnswers := nVersion &&& CConsultation.moreAnswersVersion != 0
    fIsAboutConsensusParameter := nVersion &&& CConsultation.consensusParameterVersion != 0
    fSuper := nVersion &&& CConsultation.superVersion != 0 }

/-- The numbers of an array, as `uint64_t`. -/
def numbers (l : List JsonValue) : Except Failure (List Nat) :=
  (l.filter fun v => (JsonMember.value v).isNum).mapM fun v => do
    let n ← (JsonMember.value v).getInt64
    pure (toUint64 n)

/-- `vParameters`, in the order of the transaction. -/
def readParameters (m : JsonObject) (k : ConsultationKind) : Except Failure (List Nat) :=
  if !k.fIsAboutConsensusParameter then .ok []
  else if (m 'm').isNum && !k.fSuper then (m 'm').getInt64.map fun n => [toUint64 n]
  else if (m 'm').isArray && k.fSuper then (m 'm').getArray.bind numbers
  else .ok [0]

/-- The tests of a consultation about parameters before its answers are looked at. -/
def parametersOpen (view : DaoView)
    (k : ConsultationKind) (nMax : Int) (vParameters : List Nat) : Bool :=
  !k.fIsAboutConsensusParameter ||
    (!k.fRange && k.fAcceptMoreAnswers && !vParameters.isEmpty && nMax == 1 &&
      vParameters.all fun param => param < ConsensusParam.all.length &&
        !activeAbout nd pindexPrev view param)

/-- The values that the answers propose. -/
def answersValid (view : DaoView) (k : ConsultationKind) (nMin : Int) (vParameters : List Nat)
    (answers : List JsonValue) : Bool :=
  if k.fIsAboutConsensusParameter && k.fSuper then
    (JsonValue.allStrings answers).any
      (isValidConsensusParameterProposal nd pindexPrev view vParameters)
  else !k.fIsAboutConsensusParameter || (JsonValue.strings answers).all fun s =>
    isValidConsensusParameterProposal nd pindexPrev view [toUint64 nMin] [s]

/-- The bounds of the answers. -/
def boundsValid (k : ConsultationKind) (nMin nMax : Int) : Bool :=
  if k.fRange then nMax > nMin && nMin ≥ 1 && toUint64 nMax < toUint64 VoteFlags.voteAbstain
  else 1 ≤ nMax && nMax ≤ 15

def consultationFee (view : DaoView) (answers : Nat) : Int :=
  (BitVec.ofNat 64 (view.param .consultationMinFee + view.param .consultationAnswerMinFee *
    answers)).toInt

def isValidConsultation (tx : CTransaction G) (view : DaoView) : Bool :=
  match nd.metadata 1024 tx with
  | none => false
  | some m => caught do
    let nMin ← (if (m 'm').isNum then (m 'm').getInt64 else .ok 0)
    let nMax ← (m 'n').getInt64
    let sQuestion ← (m 'q').getStr
    let nVersion ← m.version 1
    let nVersion := BitVec.ofInt 32 nVersion
    let k := ConsultationKind.of (nVersion.signExtend 64)
    let vParameters ← readParameters m k
    let answers := match m 'a' with
      | .arr l => l
      | _ => []
    pure (parametersOpen nd pindexPrev view k nMax vParameters &&
      !(k.fRange && k.fAcceptMoreAnswers) &&
      (k.fAcceptMoreAnswers || k.fRange || toUint64 nMax ≤ answers.length) &&
      !(k.fSuper && vParameters.length != answers.length) &&
      answersValid nd pindexPrev view k nMin vParameters answers &&
      !sQuestion.isEmpty && tx.nContribution ≥ consultationFee view answers.length &&
      boundsValid k nMin nMax &&
      (k.fAcceptMoreAnswers || k.fRange || (JsonValue.strings answers).dedup.length > 1) &&
      !masked nVersion (nConsultationMask (nd.deployments pindexPrev)))

/-- The hash of an answer with one text. -/
def textHash (parent : Uint256) (s : Bytes) : Uint256 :=
  c.hash (writeUint256 parent ++ writeVector s)

/-- The hash of an answer with a list of texts. -/
def textsHash (parent : Uint256) (l : List Bytes) : Uint256 :=
  c.hash (writeUint256 parent ++ (writeCompactSize l.length ++ l.flatMap writeVector))

/-- The answers that a consultation brings with it. -/
def consultationAnswers (fExclude fSuper : Bool) (hash blockhash : Uint256)
    (answers : List JsonValue) : List CConsultationAnswer :=
  let nVersion := CConsultationAnswer.baseVersion |||
    if fExclude then CConsultationAnswer.excludeVersion else 0
  let texts := JsonValue.strings answers
  if fSuper then
    [{ hash := textsHash c hash texts, parent := hash, vAnswer := texts,
       nVersion := nVersion ||| CConsultationAnswer.superVersion, txblockhash := blockhash }]
  else
    texts.reverse.dedup.reverse.map fun s =>
      { hash := textHash c hash s, parent := hash, sAnswer := s, nVersion := nVersion,
        txblockhash := blockhash }

/-- All elements as numbers, or `return false`. -/
def allNumbers (l : List JsonValue) : Except Failure (List Nat) := do
  Except.rejectIf (!l.all fun v => (JsonMember.value v).isNum) .returnFalse
  numbers l

def txToConsultation (strDZeel : Bytes) (hash blockhash : Uint256)
    (pindexPrev : CBlockIndex) : Except Failure (CConsultation × List CConsultationAnswer) :=
  match nd.readObject strDZeel with
  | none => .error .returnFalse
  | some m => do
    let nVersion ← m.version 1
    let nVersion := BitVec.ofInt 64 nVersion
    let text ← (m 'q').getStr
    let k := ConsultationKind.of nVersion
    let vParameters ← (if k.fSuper then (m 'm').getArray.bind allNumbers else .ok [])
    let nMin ← (if k.fSuper then .ok 0 else (m 'm').getInt64)
    let nMax ← (m 'n').getInt64
    let answers := match m 'a' with
      | .arr l => if k.fRange then [] else consultationAnswers c
          (nd.deployments pindexPrev).exclude k.fSuper hash blockhash l
      | _ => []
    pure ({ nVersion := nVersion, hash := hash, strDZeel := text, vParameters := vParameters,
            nMin := toUint64 nMin, nMax := toUint64 nMax, txblockhash := blockhash }, answers)

/-! ## Answers -/

/-- The texts of an answer transaction, in its order. -/
def answerTexts (consultation : CConsultation) (m : JsonObject) : Option (List Bytes) :=
  match m 'a' with
  | .arr l => if consultation.isSuper then JsonValue.allStrings l else none
  | .value (.str s) => some [s]
  | _ => none

/-- An answer has to have a first text; to read it without one is not defined. -/
def isValidConsultationAnswer (tx : CTransaction G) (view : DaoView) : Bool :=
  match nd.metadata 255 tx with
  | none => false
  | some m => caught do
    let hash ← (m 'h').getStr
    let _ ← m.version 1
    pure (match view.getConsultation (uint256S hash) with
      | none => false
      | some consultation =>
        match answerTexts consultation m with
        | none => false
        | some vAnswers =>
          !(vAnswers.headD []).isEmpty &&
            !(view.getConsultationAnswer (match vAnswers with
              | [s] => textHash c (uint256S hash) s
              | l => textsHash c (uint256S hash) l)).isSome &&
            !consultation.isRange &&
            (!consultation.isAboutConsensusParameter || isValidConsensusParameterProposal nd
              pindexPrev view consultation.getParameters vAnswers) &&
            toUint64 tx.nContribution ≥ view.param .consultationAnswerMinFee)

def txToConsultationAnswer (strDZeel : Bytes)
    (hash blockhash : Uint256) : Except Failure CConsultationAnswer :=
  match nd.readObject strDZeel with
  | none => .error .returnFalse
  | some m => do
    let nVersion ← m.version 1
    let nVersion := BitVec.ofInt 32 nVersion
    if nVersion &&& CConsultationAnswer.superVersion ≠ 0 then
      match m 'a' with
      | .arr l =>
        match JsonValue.allStrings l with
        | none => .error .returnFalse
        | some vAnswer => do
          let parent ← (m 'h').getStr
          pure { nVersion := nVersion, vAnswer := vAnswer, txhash := hash,
                 parent := uint256S parent, hash := textsHash c (uint256S parent) vAnswer,
                 txblockhash := blockhash }
      | _ => .error .returnFalse
    else
      match m 'a' with
      | .value (.str s) => do
        let parent ← (m 'h').getStr
        pure { nVersion := nVersion, sAnswer := s, txhash := hash, parent := uint256S parent,
               hash := textHash c (uint256S parent) s, txblockhash := blockhash }
      | _ => .error .returnFalse

end Navcoin
