import Navcoin.Dao.VoteList
import Navcoin.Primitives.Transaction

/-!
# Votes in scripts

The predicates and extractors of `script/script.cpp` for outputs that vote, and the script that
names a staker.
-/

namespace Navcoin

def opIf : UInt8 := 0x63
def opDrop : UInt8 := 0x75
def opProp : UInt8 := 0xc2
def opPreq : UInt8 := 0xc3
def opYes : UInt8 := 0xc4
def opNo : UInt8 := 0xc5
def opCoinstake : UInt8 := 0xc6
def opAbstain : UInt8 := 0xc7
def opRemove : UInt8 := 0xc8
def opDao : UInt8 := 0xc9
def opAnswer : UInt8 := 0xca
def opConsultation : UInt8 := 0xcb

namespace CScript

/-- A script that starts with the given bytes. -/
def startsWith (ops : Bytes) (script : CScript) : Bool := ops.isPrefixOf script

/-- The four votes on objects of one kind: `OP_RETURN OP_CFUND kind vote 0x20` and a hash. -/
def isFundVote (kind vote : UInt8) (script : CScript) : Bool :=
  script.length == 37 && script.startsWith [opReturn, opCfund, kind, vote, 0x20]

def isProposalVote (script : CScript) : Bool :=
  script.isFundVote opProp opYes || script.isFundVote opProp opNo ||
    script.isFundVote opProp opAbstain || script.isFundVote opProp opRemove

def isPaymentRequestVote (script : CScript) : Bool :=
  script.isFundVote opPreq opYes || script.isFundVote opPreq opNo ||
    script.isFundVote opPreq opAbstain || script.isFundVote opPreq opRemove

def isSupportVoteYes (script : CScript) : Bool :=
  script.length == 36 && script.startsWith [opReturn, opDao, opYes, 0x20]

def isSupportVoteRemove (script : CScript) : Bool :=
  script.length == 36 && script.startsWith [opReturn, opDao, opRemove, 0x20]

def isSupportVote (script : CScript) : Bool :=
  script.isSupportVoteYes || script.isSupportVoteRemove

def isConsultationVoteAnswer (script : CScript) : Bool :=
  script.length ≥ 36 && script.startsWith [opReturn, opConsultation, opAnswer, 0x20]

def isConsultationVoteAbstention (script : CScript) : Bool :=
  script.length == 36 && script.startsWith [opReturn, opConsultation, opAbstain, 0x20]

def isConsultationVoteRemove (script : CScript) : Bool :=
  script.length == 36 && script.startsWith [opReturn, opConsultation, opRemove, 0x20]

def isConsultationVote (script : CScript) : Bool :=
  script.isConsultationVoteAnswer || script.isConsultationVoteAbstention ||
    script.isConsultationVoteRemove

/-- The hash in the bytes from `n` on. -/
def hashAt (script : CScript) (n : Nat) : Uint256 :=
  BitVec.ofNat 256 (ofLE ((script.drop n).take 32))

/-- `CScriptNum::set_vch` -/
def setVch (vch : Bytes) : Int :=
  let result := ofLE vch
  match vch.getLast? with
  | none => 0
  | some b => if b &&& 0x80 ≠ 0 then -((result - 0x80 * 256 ^ (vch.length - 1) : Nat) : Int)
      else result

def extractVote (script : CScript) : Uint256 × Int :=
  (script.hashAt 5,
    if script[3]? = some opRemove then VoteFlags.voteRemove
    else if script[3]? = some opAbstain then VoteFlags.voteAbstain
    else if script[3]? = some opYes then VoteFlags.voteYes
    else VoteFlags.voteNo)

def extractSupportVote (script : CScript) : Uint256 × Int :=
  (script.hashAt 4,
    if script[2]? = some opYes then VoteFlags.support
    else if script[2]? = some opRemove then VoteFlags.supportRemove
    else 0)

/-- The vote of `ExtractConsultationVote`; a number of more than four bytes is an exception. -/
def consultationVote (script : CScript) : Option Int :=
  if script[2]? = some opRemove then some VoteFlags.voteRemove
  else if script[2]? = some opAbstain then some VoteFlags.voteAbstain
  else if script.length > 36 then
    if script.length = 37 ∧ script[36]? = some 0 then some 0
    else if (script.drop 37).length > 4 then none
    else some (setVch (script.drop 37))
  else some 1

def extractConsultationVote (script : CScript) : Option (Uint256 × Int) :=
  script.consultationVote.map fun vote => (script.hashAt 4, vote)

def isColdStakingv2 (script : CScript) : Bool :=
  script.length > 24 && script[0]? == some 0x14 && script[21]? == some opDrop &&
    script[22]? == some opCoinstake && script[23]? == some opIf

def isPayToPublicKeyHash (script : CScript) : Bool :=
  script.length == 25 && script[0]? == some opDup && script[1]? == some opHash160 &&
    script[2]? == some 0x14 && script[23]? == some opEqualVerify && script[24]? == some opCheckSig

/-- `GetStakerScript`, which never fails. -/
def getStakerScript (script : CScript) : Bytes :=
  if script.isColdStakingv2 then script.take 20
  else if script.isPayToPublicKeyHash then (script.drop 2).take 20
  else script

end CScript

namespace CTxOut

variable {G : Type}

def isProposalVote (o : CTxOut G) : Bool := o.scriptPubKey.isProposalVote
def isPaymentRequestVote (o : CTxOut G) : Bool := o.scriptPubKey.isPaymentRequestVote
def isVote (o : CTxOut G) : Bool := o.isProposalVote || o.isPaymentRequestVote
def isSupportVote (o : CTxOut G) : Bool := o.scriptPubKey.isSupportVote
def isConsultationVote (o : CTxOut G) : Bool := o.scriptPubKey.isConsultationVote

end CTxOut

end Navcoin
