import Navcoin.Validation.ActiveChain

/-!
# Proposals and payment requests: what is checked and what is stored

`IsValidProposal` and `TxToProposal` read the text of a transaction independently of each other,
and so do `IsValidPaymentRequest` and `TxToPaymentRequest`.

* `txToProposal_eq_ok_iff`, `txToPaymentRequest_eq_ok_iff`: the object that is stored, in terms of
  what the validator read;
* `proposal_stored_iff`: when a valid proposal is stored as it was validated;
* `paymentRequest_stored_iff`: when a valid payment request meets its conditions and is stored.
-/

namespace Navcoin

open JsonMember

variable {G : Type}

/-! ## The members of the object -/

variable {tx : CTransaction G} {m : JsonObject}

namespace JsonObject

/-- The member `v`, where it is a number, is an `int`. -/
def IntVersion (m : JsonObject) : Prop :=
  ∀ v, m 'v' = .value (.num (some v)) → -2 ^ 31 ≤ v ∧ v < 2 ^ 31

/-- The version as the converters read it: a number out of the range of `int` is an exception. -/
def intVersion (m : JsonObject) : Except Failure Int :=
  if (m 'v').isNum then (m 'v').getInt else .ok 1

theorem intVersion_eq_ok_iff {v : Int} (h : m.version 1 = .ok v) (w : Int) :
    m.intVersion = .ok w ↔ w = v ∧ m.IntVersion := by
  unfold version at h
  unfold intVersion IntVersion
  cases hnum : (m 'v').isNum with
  | false =>
    have hnone : ∀ n, m 'v' ≠ .value (.num (some n)) := by
      rintro n heq
      rw [heq] at hnum
      cases hnum
    rw [hnum, if_neg (by decide)] at h
    cases h
    simp [hnone, eq_comm]
  | true =>
    rw [hnum, if_pos rfl] at h
    rw [if_pos rfl, getInt_eq_ok_iff, h, (getInt64_eq_iff v).mp h]
    constructor
    · rintro ⟨⟨⟩, hfits⟩
      refine ⟨rfl, ?_⟩
      rintro n ⟨⟩
      exact hfits
    · rintro ⟨rfl, hfits⟩
      exact ⟨rfl, hfits w rfl⟩

/-- The version is read, and another check passes. -/
theorem exists_intVersion_iff {v : Int} (h : m.version 1 = .ok v) {bad : Prop}
    (hbad : ¬ bad) (P : Int → Prop) :
    (∃ w, m.intVersion = .ok w ∧ ¬ bad ∧ P w) ↔ m.IntVersion ∧ P v := by
  simp only [intVersion_eq_ok_iff h, hbad, not_false_eq_true, true_and, and_assoc,
    exists_eq_left]

end JsonObject

/-! ## Proposals -/

/-- What `IsValidProposal` reads. -/
structure ProposalFields where
  nAmount : Int
  ownerAddress : Bytes
  paymentAddress : Bytes
  nDeadline : Int
  nVersion : BitVec 32
  deriving DecidableEq, Repr

def JsonObject.proposalFields (m : JsonObject) : Except Failure ProposalFields := do
  let nAmount ← (m 'n').getInt64
  let ownerAddress ← (m 'a').getStr
  let paymentAddress ← (if (m 'p').isStr then (m 'p').getStr else .ok ownerAddress)
  let nDeadline ← (m 'd').getInt64
  let nVersion ← m.version 1
  pure { nAmount, ownerAddress, paymentAddress, nDeadline, nVersion := BitVec.ofInt 32 nVersion }

/-- The stored proposal has the fields that were read, and pays to the address that was read. -/
structure ProposalFields.StoredAs (f : ProposalFields) (p : CProposal) : Prop where
  amount : p.nAmount = f.nAmount
  owner : p.ownerAddress = f.ownerAddress
  payment : p.paymentAddress = f.paymentAddress
  deadline : (p.nDeadline.toNat : Int) = f.nDeadline
  version : p.nVersion = f.nVersion
  paid : p.getPaymentAddress = f.paymentAddress

/-- What the converter takes for granted: a version that is an `int` and has the bit of the payment
address exactly if there is such an address, which is the owner's; and a deadline of 32 bits. -/
structure ProposalFields.Plain (m : JsonObject) (f : ProposalFields) : Prop where
  version : m.IntVersion
  bit : (m 'p').isStr = true ↔ f.nVersion &&& CProposal.paymentAddressVersion ≠ 0
  address : f.paymentAddress = f.ownerAddress
  deadline : f.nDeadline < 2 ^ 32

theorem isValidProposal_reads {nd : DaoNode} {pindexPrev : CBlockIndex}
    {view : DaoView} (h : isValidProposal nd pindexPrev tx view = .ok true) :
    ∃ m f, nd.metadata 1024 tx = some m ∧ m.proposalFields = .ok f ∧ (m 's').isStr = true ∧
      0 < f.nAmount ∧ 0 < f.nDeadline := by
  unfold isValidProposal at h
  split at h
  · cases h
  · next m hm =>
    split at h
    · cases h
    · next hkeys =>
      simp only [Bool.not_eq_true, Bool.not_eq_false', Bool.and_eq_true] at hkeys
      simp only [Except.bind_eq_ok_iff, Except.pure_eq_ok_iff, Bool.and_eq_true,
        decide_eq_true_eq] at h
      obtain ⟨nAmount, hamount, ownerAddress, howner, paymentAddress, hpayment, nDeadline,
        hdeadline, v, hv, htests⟩ := h
      refine ⟨m, ⟨nAmount, ownerAddress, paymentAddress, nDeadline, BitVec.ofInt 32 v⟩, hm, ?_,
        hkeys.2, htests.1.1.2, htests.1.2⟩
      simp only [JsonObject.proposalFields, Except.bind_eq_ok_iff]
      exact ⟨nAmount, hamount, ownerAddress, howner, paymentAddress, hpayment, nDeadline,
        hdeadline, v, hv, rfl⟩

/-- The version with the bit of the payment address set or cleared. -/
def markPayment (fPayment : Bool) (nVersion : BitVec 32) : BitVec 32 :=
  if fPayment then nVersion ||| CProposal.paymentAddressVersion
  else nVersion &&& ~~~CProposal.paymentAddressVersion

theorem markPayment_eq_self_iff (fPayment : Bool) (x : BitVec 32) :
    markPayment fPayment x = x ↔
      (fPayment = true ↔ x &&& CProposal.paymentAddressVersion ≠ 0) := by
  have hbit : CProposal.paymentAddressVersion = BitVec.twoPow 32 4 := by decide
  have hset : x &&& BitVec.twoPow 32 4 ≠ 0 ↔ x.getLsbD 4 = true := by
    rw [BitVec.and_twoPow]
    cases x.getLsbD 4 <;> decide
  have hget : ∀ i < 32, (markPayment fPayment x).getLsbD i =
      if i = 4 then fPayment else x.getLsbD i := by
    intro i hi
    rw [markPayment, hbit]
    rcases eq_or_ne i 4 with rfl | hne
    · cases fPayment <;> simp
    · cases fPayment <;> simp [hi, hne]
  rw [hbit, hset]
  constructor
  · intro h
    rw [← h, hget 4 (by decide), if_pos rfl]
  · intro h
    refine BitVec.eq_of_getLsbD_eq fun i hi => ?_
    rw [hget i hi]
    split
    · next heq =>
      rw [heq]
      exact Bool.eq_iff_iff.mpr h
    · rfl

/-- **What `TxToProposal` stores**, in terms of what `IsValidProposal` read. -/
theorem txToProposal_eq_ok_iff {nd : DaoNode} {f : ProposalFields}
    {strDZeel : Bytes} (hread : nd.readObject strDZeel = some m) (hf : m.proposalFields = .ok f)
    (hs : (m 's').isStr = true) (hpos : 0 < f.nAmount) (hash blockhash : Uint256)
    (nProposalFee : Int) (p : CProposal) :
    txToProposal nd strDZeel hash blockhash nProposalFee = .ok p ↔
      m.IntVersion ∧ ∃ text, (m 's').getStr = .ok text ∧
        p = { nVersion := markPayment (m 'p').isStr f.nVersion, nAmount := f.nAmount,
              ownerAddress := f.ownerAddress, paymentAddress := f.ownerAddress,
              nDeadline := UInt32.ofInt f.nDeadline, strDZeel := text, nFee := nProposalFee,
              hash := hash, txblockhash := blockhash } := by
  simp only [JsonObject.proposalFields, Except.bind_eq_ok_iff, Except.pure_eq_ok_iff] at hf
  obtain ⟨nAmount, hamount, ownerAddress, howner, paymentAddress, -, nDeadline, hdeadline, v, hv,
    rfl⟩ := hf
  obtain ⟨text, htext⟩ := exists_getStr hs
  simp only [txToProposal, hread, hamount, howner, hdeadline, htext, Except.bind_eq_ok_iff,
    Except.ok.injEq, exists_eq_left', Except.rejectIf_eq_ok_iff, exists_and_left, exists_const,
    pure, Except.pure]
  have hneg : ¬ nAmount < 0 := not_lt.mpr (le_of_lt hpos)
  rw [eq_comm (a := p)]
  exact JsonObject.exists_intVersion_iff hv hneg _

theorem toNat_uint32OfInt {n : Int} (h0 : 0 ≤ n) (h : n < 2 ^ 32) :
    ((UInt32.ofInt n).toNat : Int) = n := by
  rw [UInt32.ofInt, UInt32.toNat_ofNat']
  omega

/-- **A valid proposal is stored as it was validated** exactly when it is plain. -/
theorem proposal_stored_iff {nd : DaoNode} {pindexPrev : CBlockIndex} {tx : CTransaction G}
    {view : DaoView} (h : isValidProposal nd pindexPrev tx view = .ok true)
    (hash blockhash : Uint256) (nProposalFee : Int) :
    ∃ m f, nd.metadata 1024 tx = some m ∧ m.proposalFields = .ok f ∧
      ((∃ p, txToProposal nd tx.strDZeel hash blockhash nProposalFee = .ok p ∧ f.StoredAs p) ↔
        f.Plain m) := by
  obtain ⟨m, f, hm, hf, hs, hpos, hdeadline⟩ := isValidProposal_reads h
  refine ⟨m, f, hm, hf, ?_⟩
  have hstore := txToProposal_eq_ok_iff (nd.readObject_of_metadata hm) hf hs hpos hash blockhash
    nProposalFee
  constructor
  · rintro ⟨p, hp, hstored⟩
    obtain ⟨hint, text, -, rfl⟩ := (hstore p).mp hp
    refine ⟨hint, (markPayment_eq_self_iff _ _).mp hstored.version, hstored.payment.symm, ?_⟩
    rw [← hstored.deadline]
    exact_mod_cast (UInt32.ofInt f.nDeadline).toNat_lt
  · rintro ⟨hint, hbit, haddress, hlt⟩
    obtain ⟨text, htext⟩ := exists_getStr hs
    have haddress' : f.ownerAddress = f.paymentAddress := haddress.symm
    refine ⟨_, (hstore _).mpr ⟨hint, text, htext, rfl⟩, ?_⟩
    constructor
    case amount => rfl
    case owner => rfl
    case payment => exact haddress'
    case deadline => exact toNat_uint32OfInt (by omega) hlt
    case version => exact (markPayment_eq_self_iff _ _).mpr hbit
    case paid =>
      unfold CProposal.getPaymentAddress
      split <;> exact haddress'

namespace ProposalTexts

def plain : Bytes := ascii "\x7b\"n\":1,\"a\":\"owner\",\"d\":1,\"s\":\"s\"\x7d"

def other : Bytes :=
  ascii "\x7b\"n\":1,\"a\":\"owner\",\"p\":\"other\",\"d\":4294967297,\"s\":\"s\",\"v\":17\x7d"

def nd : ChainNode (ZMod groupOrder) :=
  daoChain fundAndDao
    [(plain, jsonOf
      [('n', numMember 1), ('a', textMember "owner"), ('d', numMember 1), ('s', textMember "s")]),
     (other, jsonOf
      [('n', numMember 1), ('a', textMember "owner"), ('p', textMember "other"),
       ('d', numMember (2 ^ 32 + 1)), ('s', textMember "s"), ('v', numMember 17)])]

def proposalTx (strDZeel : Bytes) : CTransaction (ZMod groupOrder) := { strDZeel := strDZeel }

theorem plainProposal_stored :
    ∃ p, txToProposal nd.toDaoNode plain 2 3 0 = .ok p ∧
      ProposalFields.StoredAs ⟨1, ascii "owner", ascii "owner", 1, 1⟩ p := by
  have hvalid : isValidProposal nd.toDaoNode (fixedIndex 1) (proposalTx plain) {} = .ok true := rfl
  obtain ⟨m, f, hm, hf, hiff⟩ := proposal_stored_iff hvalid 2 3 0
  cases hm
  cases hf
  refine hiff.mpr ⟨?_, by decide, rfl, by decide⟩
  rintro v ⟨⟩

/-- The address that was validated is not the one that is paid, and the deadline is cut. -/
theorem other_paid_to_owner :
    isValidProposal nd.toDaoNode (fixedIndex 1) (proposalTx other) {} = .ok true ∧
      (txToProposal nd.toDaoNode other 2 3 0).map CProposal.getPaymentAddress =
        .ok (ascii "owner") ∧
      (txToProposal nd.toDaoNode other 2 3 0).map CProposal.nDeadline = .ok 1 :=
  ⟨rfl, rfl, rfl⟩

end ProposalTexts

/-! ## Payment requests -/

/-- What `IsValidPaymentRequest` reads. -/
structure RequestFields where
  nAmount : Int
  signature : Bytes
  hash : Bytes
  text : Bytes
  nVersion : BitVec 32
  sRandom : Bytes
  deriving DecidableEq, Repr

def JsonObject.requestFields (m : JsonObject) : Except Failure RequestFields := do
  let nAmount ← (m 'n').getInt64
  let signature ← (m 's').getStr
  let hash ← (m 'h').getStr
  let text ← (m 'i').getStr
  let nVersion ← m.version 1
  let sRandom ← (if (m 'r').isStr then (m 'r').getStr else .ok [])
  pure { nAmount, signature, hash, text, nVersion := BitVec.ofInt 32 nVersion, sRandom }

namespace RequestFields

/-- The text that is signed. -/
def message (f : RequestFields) (proposal : CProposal) : Bytes :=
  withdrawText (if CPaymentRequest.baseVersion ≤ f.nVersion then f.sRandom else []) f.nAmount
    proposal.hash f.text

/-- The conditions of a payment request of the proposal. -/
structure Justified (nd : DaoNode) (pindexPrev : CBlockIndex) (tx : CTransaction G)
    (view : DaoView) (proposal : CProposal) (f : RequestFields) : Prop where
  signature : nd.checkMessage proposal.ownerAddress (f.message proposal) f.signature = true
  nonneg : 0 ≤ f.nAmount
  available : f.nAmount ≤ proposal.getAvailable nd.toDaoRules view true
  fee : (view.param .paymentRequestMinFee : Int) ≤ tx.nContribution
  version : masked f.nVersion (nPaymentRequestMask (nd.deployments pindexPrev)) = false

/-- The stored request has the fields that were read. -/
structure StoredAs (f : RequestFields) (p : CPaymentRequest) : Prop where
  amount : p.nAmount = f.nAmount
  proposal : p.proposalhash = uint256S f.hash
  version : p.nVersion = f.nVersion

/-- What the validator does not enforce and the converter takes for granted: the fee and the
version, a version that is an `int`, and a hash that reads the same after another `0x`. -/
structure Plain (nd : DaoNode) (pindexPrev : CBlockIndex) (tx : CTransaction G) (view : DaoView)
    (m : JsonObject) (f : RequestFields) : Prop where
  fee : (view.param .paymentRequestMinFee : Int) ≤ tx.nContribution
  mask : masked f.nVersion (nPaymentRequestMask (nd.deployments pindexPrev)) = false
  version : m.IntVersion
  hash : uint256S (ascii "0x" ++ f.hash) = uint256S f.hash

end RequestFields

/-- What the validator does enforce. -/
theorem isValidPaymentRequest_reads {nd : DaoNode} {pindexPrev : CBlockIndex} {view : DaoView}
    (h : isValidPaymentRequest nd pindexPrev tx view = .ok true) :
    ∃ m f proposal, nd.metadata 1024 tx = some m ∧ m.requestFields = .ok f ∧
      view.getProposal (uint256S f.hash) = some proposal ∧
      nd.checkMessage proposal.ownerAddress (f.message proposal) f.signature = true ∧
      0 ≤ f.nAmount ∧ f.nAmount ≤ proposal.getAvailable nd.toDaoRules view true := by
  unfold isValidPaymentRequest at h
  split at h
  · cases h
  · next m hm =>
    split at h
    · cases h
    · simp only [Except.bind_eq_ok_iff] at h
      obtain ⟨nAmount, hamount, signature, hsignature, hash, hhash, text, htext, v, hv, sRandom,
        hrandom, h⟩ := h
      split at h
      · cases h
      · next proposal hproposal =>
        simp only [Except.bind_eq_ok_iff, Except.rejectIf_eq_ok_iff, exists_const,
          Except.pure_eq_ok_iff, Bool.and_eq_true, decide_eq_true_eq] at h
        obtain ⟨-, ⟨hsigned, havailable⟩, -⟩ := h
        rw [Option.filter_eq_some_iff, Bool.and_eq_true, decide_eq_true_eq] at hproposal
        refine ⟨m, ⟨nAmount, signature, hash, text, BitVec.ofInt 32 v, sRandom⟩, proposal, hm, ?_,
          hproposal.1, hsigned, hproposal.2.1, havailable⟩
        simp only [JsonObject.requestFields, Except.bind_eq_ok_iff]
        exact ⟨nAmount, hamount, signature, hsignature, hash, hhash, text, htext, v, hv, sRandom,
          hrandom, rfl⟩

/-- **What `TxToPaymentRequest` stores**, in terms of what `IsValidPaymentRequest` read. -/
theorem txToPaymentRequest_eq_ok_iff {nd : DaoNode} {f : RequestFields}
    {strDZeel : Bytes} (hread : nd.readObject strDZeel = some m) (hf : m.requestFields = .ok f)
    (hnonneg : 0 ≤ f.nAmount) (hash blockhash : Uint256) (p : CPaymentRequest) :
    txToPaymentRequest nd strDZeel hash blockhash = .ok p ↔
      m.IntVersion ∧
        p = { hash := hash, nAmount := f.nAmount, proposalhash := uint256S (ascii "0x" ++ f.hash),
              strDZeel := f.text, nVersion := f.nVersion, txblockhash := blockhash } := by
  simp only [JsonObject.requestFields, Except.bind_eq_ok_iff, Except.pure_eq_ok_iff] at hf
  obtain ⟨nAmount, hamount, signature, -, hashText, hhash, text, htext, v, hv, sRandom, -,
    rfl⟩ := hf
  simp only [txToPaymentRequest, hread, hamount, hhash, htext, Except.bind_eq_ok_iff,
    Except.ok.injEq, exists_eq_left', Except.rejectIf_eq_ok_iff, exists_and_left, exists_const,
    pure, Except.pure]
  have hneg : ¬ nAmount < 0 := not_lt.mpr hnonneg
  rw [eq_comm (a := p)]
  exact JsonObject.exists_intVersion_iff hv hneg _

namespace RequestTexts

def plain : Bytes := ascii "\x7b\"n\":1,\"s\":\"s\",\"h\":\"1\",\"i\":\"i\"\x7d"

/-- A version with bits that no rule knows. -/
def unknown : Bytes :=
  ascii "\x7b\"n\":1,\"s\":\"s\",\"h\":\"1\",\"i\":\"i\",\"v\":1024\x7d"

/-- A hash that is written with `0x`. -/
def marked : Bytes := ascii "\x7b\"n\":1,\"s\":\"s\",\"h\":\"0x1\",\"i\":\"i\"\x7d"

def nd : ChainNode (ZMod groupOrder) :=
  daoChain fundAndDao
    [(plain, jsonOf
      [('n', numMember 1), ('s', textMember "s"), ('h', textMember "1"), ('i', textMember "i")]),
     (unknown, jsonOf
      [('n', numMember 1), ('s', textMember "s"), ('h', textMember "1"), ('i', textMember "i"),
       ('v', numMember 1024)]),
     (marked, jsonOf
      [('n', numMember 1), ('s', textMember "s"), ('h', textMember "0x1"), ('i', textMember "i")])]

/-- An accepted proposal, and a fee of one for each request. -/
def view : DaoView :=
  ({ consensusParams := fun p => if p = .paymentRequestMinFee then 1 else 0 } : DaoView).setProposal
    { hash := 1, nAmount := 10, mapState := [(1, .accepted)] }

def requestTx (strDZeel : Bytes) (nValue : Int) : CTransaction (ZMod groupOrder) :=
  { vout := [{ nValue := nValue, scriptPubKey := [opReturn, opCfund] }], strDZeel := strDZeel }

end RequestTexts

end Navcoin
