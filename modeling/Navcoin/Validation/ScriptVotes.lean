import Navcoin.Validation.DaoValidators

/-!
# Votes and voters in scripts

What a script says about a vote, and what it says about the voter.

* `Raising.extractVote_eq`, `Raising.extractSupportVote_eq`, `Raising.extractConsultationVote_eq`:
  the extractors with their accesses written out;
* `votes_extracted_iff`: a vote that is recognised is read;
* `CScript.getStakerScript_faithful_iff`: one staker has one key.
-/

namespace Navcoin

variable {G : Type}

/-! ## Reading votes -/

namespace Raising

/-- `operator[]` -/
def byteAt (script : CScript) (i : Nat) : Except Fault UInt8 :=
  match script[i]? with
  | some b => .ok b
  | none => .error .outOfRange

/-- The bytes from one iterator to another. -/
def between (script : CScript) (first last : Nat) : Except Fault Bytes :=
  if first ≤ last ∧ last ≤ script.length then .ok ((script.drop first).take (last - first))
  else .error .outOfRange

/-- A hash of 32 bytes. -/
def hashFrom (script : CScript) (first : Nat) : Except Fault Uint256 := do
  return BitVec.ofNat 256 (ofLE (← between script first (first + 32)))

def extractVote (script : CScript) : Except Fault (Option (Uint256 × Int)) := do
  if !script.isPaymentRequestVote && !script.isProposalVote then return none
  let hash ← hashFrom script 5
  let op ← byteAt script 3
  return some (hash, if op = opRemove then VoteFlags.voteRemove
    else if op = opAbstain then VoteFlags.voteAbstain
    else if op = opYes then VoteFlags.voteYes else VoteFlags.voteNo)

def extractSupportVote (script : CScript) : Except Fault (Option (Uint256 × Int)) := do
  if !script.isSupportVote then return none
  let hash ← hashFrom script 4
  let op ← byteAt script 2
  return some (hash, if op = opYes then VoteFlags.support
    else if op = opRemove then VoteFlags.supportRemove else 0)

/-- The script ends after the opcode of the number zero. -/
def endsInZero (script : CScript) : Except Fault Bool :=
  if script.length = 37 then (· == 0) <$> byteAt script 36 else .ok false

/-- The number after the hash: `CScriptNum` throws beyond four bytes. -/
def voteNumber (script : CScript) : Except Fault Int := do
  if ← endsInZero script then .ok 0
  else do
    let vVote ← between script 37 script.length
    if vVote.length > 4 then .error .exception else .ok (CScript.setVch vVote)

def extractConsultationVote (script : CScript) : Except Fault (Option (Uint256 × Int)) := do
  if !script.isConsultationVote then return none
  let hash ← hashFrom script 4
  let op ← byteAt script 2
  let vote ← if op = opRemove then .ok VoteFlags.voteRemove
    else if op = opAbstain then .ok VoteFlags.voteAbstain
    else if script.length > 36 then voteNumber script
    else .ok 1
  return some (hash, vote)

variable {script : CScript}

theorem hashFrom_eq {first : Nat} (h : first + 32 ≤ script.length) :
    hashFrom script first = .ok (script.hashAt first) := by
  simp [hashFrom, between, h, bind, Except.bind, pure, Except.pure, CScript.hashAt]

theorem byteAt_eq {i : Nat} {b : UInt8} (h : script[i]? = some b) : byteAt script i = .ok b := by
  rw [byteAt, h]

theorem length_of_isVote (h : (script.isPaymentRequestVote || script.isProposalVote) = true) :
    script.length = 37 := by
  simp only [CScript.isPaymentRequestVote, CScript.isProposalVote, CScript.isFundVote,
    Bool.or_eq_true, Bool.and_eq_true, beq_iff_eq] at h
  tauto

/-- A vote on an object of the fund is read. -/
theorem extractVote_eq (h : (script.isPaymentRequestVote || script.isProposalVote) = true) :
    extractVote script = .ok (some script.extractVote) := by
  have hlength := length_of_isVote h
  obtain ⟨op, hop⟩ : ∃ op, script[3]? = some op := ⟨_, List.getElem?_eq_getElem (by omega)⟩
  have hvotes : (!script.isPaymentRequestVote && !script.isProposalVote) = false := by
    rw [← Bool.not_or, h]
    rfl
  simp only [extractVote, hvotes, Bool.false_eq_true, if_false]
  simp [hashFrom_eq (show 5 + 32 ≤ script.length by omega), byteAt_eq hop,
    bind, Except.bind, pure, Except.pure, CScript.extractVote, hop]

theorem extractSupportVote_eq (h : script.isSupportVote = true) :
    extractSupportVote script = .ok (some script.extractSupportVote) := by
  have hlength : script.length = 36 := by
    simp only [CScript.isSupportVote, CScript.isSupportVoteYes, CScript.isSupportVoteRemove,
      Bool.or_eq_true, Bool.and_eq_true, beq_iff_eq] at h
    tauto
  obtain ⟨op, hop⟩ : ∃ op, script[2]? = some op := ⟨_, List.getElem?_eq_getElem (by omega)⟩
  simp [extractSupportVote, h, byteAt_eq hop,
    hashFrom_eq (show 4 + 32 ≤ script.length by omega), bind, Except.bind, pure, Except.pure,
    CScript.extractSupportVote, hop]

theorem voteNumber_eq (h : 36 < script.length) : voteNumber script =
    if script.length = 37 ∧ script[36]? = some 0 then .ok 0
    else if (script.drop 37).length > 4 then .error .exception
    else .ok (CScript.setVch (script.drop 37)) := by
  have htail : between script 37 script.length = .ok (script.drop 37) := by
    rw [between, if_pos ⟨by omega, le_refl _⟩, List.take_of_length_le (by simp)]
  have hzero : endsInZero script =
      .ok (decide (script.length = 37 ∧ script[36]? = some 0)) := by
    unfold endsInZero
    by_cases hlength : script.length = 37
    · obtain ⟨b, hb⟩ : ∃ b, script[36]? = some b := ⟨_, List.getElem?_eq_getElem h⟩
      simp only [hlength, byteAt_eq hb, hb, if_true, true_and, Option.some.injEq]
      rfl
    · simp [hlength]
  simp only [voteNumber, hzero, htail, bind, Except.bind, decide_eq_true_eq]

/-- A vote on a consultation is read unless the number throws. -/
theorem extractConsultationVote_eq (h : script.isConsultationVote = true) :
    extractConsultationVote script = match script.extractConsultationVote with
      | some v => .ok (some v)
      | none => .error .exception := by
  have hlength : 36 ≤ script.length := by
    simp only [CScript.isConsultationVote, CScript.isConsultationVoteAnswer,
      CScript.isConsultationVoteAbstention, CScript.isConsultationVoteRemove, Bool.or_eq_true,
      Bool.and_eq_true, decide_eq_true_eq, beq_iff_eq] at h
    omega
  obtain ⟨op, hop⟩ : ∃ op, script[2]? = some op := ⟨_, List.getElem?_eq_getElem (by omega)⟩
  have hhash := hashFrom_eq (show 4 + 32 ≤ script.length by omega)
  simp only [extractConsultationVote, h, byteAt_eq hop, hhash, bind,
    Except.bind, pure, Except.pure, CScript.extractConsultationVote, CScript.consultationVote, hop,
    Option.some.injEq, Bool.not_true, Bool.false_eq_true, if_false]
  split
  · rfl
  · split
    · rfl
    · split
      · next hnumber =>
        rw [voteNumber_eq hnumber]
        by_cases hzero : script.length = 37 ∧ script[36]? = some 0
        · rw [if_pos hzero, if_pos hzero]
          rfl
        · rw [if_neg hzero, if_neg hzero]
          by_cases hlong : (script.drop 37).length > 4
          · rw [if_pos hlong, if_pos hlong]
            rfl
          · rw [if_neg hlong, if_neg hlong]
            rfl
      · rfl

/-- A number of more than four bytes follows an answer only. -/
theorem isSome_extractConsultationVote_iff (h : script.isConsultationVote = true) :
    script.extractConsultationVote.isSome = true ↔ script.length ≤ 41 := by
  have hshort : 36 < script.length → script[2]? = some opAnswer := by
    intro hlong
    simp only [CScript.isConsultationVote, CScript.isConsultationVoteAnswer,
      CScript.isConsultationVoteAbstention, CScript.isConsultationVoteRemove, Bool.or_eq_true,
      Bool.and_eq_true, decide_eq_true_eq, beq_iff_eq, CScript.startsWith] at h
    rcases h with (⟨_, hops⟩ | ⟨hlength, _⟩) | ⟨hlength, _⟩
    · obtain ⟨t, rfl⟩ := List.isPrefixOf_iff_prefix.mp hops
      rfl
    · omega
    · omega
  rw [CScript.extractConsultationVote, CScript.consultationVote]
  by_cases hlong : 36 < script.length
  · rw [hshort hlong]
    simp only [Option.some.injEq, hlong, if_true, List.length_drop,
      show ¬ opAnswer = opRemove by decide, show ¬ opAnswer = opAbstain by decide, if_false]
    split
    · simp; omega
    · split <;> simp <;> omega
  · constructor
    · omega
    · intro _
      split
      · rfl
      · split <;> rfl

end Raising

/-- **Votes are read** by the predicate that recognises them, and so by `ConnectBlock`, unless the
script has more than four bytes of a number. -/
theorem votes_extracted_iff (o : CTxOut G) :
    ((o.isVote = true → ∃ v, Raising.extractVote o.scriptPubKey = .ok (some v)) ∧
        (o.isSupportVote = true → ∃ v, Raising.extractSupportVote o.scriptPubKey = .ok (some v)) ∧
        (o.isConsultationVote = true →
          ∃ v, Raising.extractConsultationVote o.scriptPubKey = .ok (some v)) ∧
        ∃ v, readVote o = .ok v) ↔
      (o.isConsultationVote = true → o.scriptPubKey.length ≤ 41) := by
  constructor
  · rintro ⟨_, _, hextract, _⟩ h
    obtain ⟨v, hv⟩ := hextract h
    rw [Raising.extractConsultationVote_eq h] at hv
    rw [← Raising.isSome_extractConsultationVote_iff h]
    cases hmodel : o.scriptPubKey.extractConsultationVote with
    | none => simp [hmodel] at hv
    | some _ => rfl
  · intro hshort
    have hread : o.isConsultationVote = true →
        ∃ v, o.scriptPubKey.extractConsultationVote = some v := fun h =>
      Option.isSome_iff_exists.mp ((Raising.isSome_extractConsultationVote_iff h).mpr (hshort h))
    refine ⟨fun h => ⟨_, Raising.extractVote_eq ?_⟩,
      fun h => ⟨_, Raising.extractSupportVote_eq h⟩, fun h => ?_, ?_⟩
    · rwa [CTxOut.isVote, CTxOut.isProposalVote, CTxOut.isPaymentRequestVote, Bool.or_comm] at h
    · obtain ⟨v, hv⟩ := hread h
      exact ⟨v, by rw [Raising.extractConsultationVote_eq h, hv]⟩
    · unfold readVote
      split
      · exact ⟨_, rfl⟩
      · split
        · exact ⟨_, rfl⟩
        · split
          · exact ⟨_, rfl⟩
          · split
            · next h =>
              obtain ⟨v, hv⟩ := hread h
              exact ⟨_, by rw [hv]⟩
            · exact ⟨_, rfl⟩

/-- A vote on a consultation with five bytes of a number. -/
def longVote : CTxOut (ZMod groupOrder) :=
  { nValue := 0, scriptPubKey := [opReturn, opConsultation, opAnswer, 0x20] ++ List.replicate 38 1 }

/-- It is recognised, and the block that has it makes `ConnectBlock` throw. -/
theorem longVote_throws :
    longVote.isConsultationVote = true ∧
      Raising.extractConsultationVote longVote.scriptPubKey = .error .exception ∧
      (connectBlock (fixedChain true { dao := true })
        { hash := 3, vtx := [coinbaseOf [longVote] []] } (fixedIndex 3) (fixedIndex 2) {} {}
        true false).result.map (fun _ => ()) = .error .exception := by
  decide +kernel

namespace CScript

/-! ## Voters -/

/-- The key hash that a script designates to vote. -/
def votingKey (script : CScript) : Option Bytes :=
  if script.isColdStakingv2 then some ((script.drop 1).take 20)
  else if script.isPayToPublicKeyHash then some ((script.drop 3).take 20)
  else none

/-- The script of a staker has the length of the key hash and all of it but the last byte. -/
theorem getStakerScript_eq (script : CScript) :
    script.getStakerScript = match script.votingKey with
      | some h => 0x14 :: h.take 19
      | none => script := by
  unfold getStakerScript votingKey
  split
  · next hcold =>
    simp only [isColdStakingv2, Bool.and_eq_true, beq_iff_eq] at hcold
    match script, hcold.1.1.1.2 with
    | _ :: rest, hfirst =>
      cases hfirst
      simp [List.take_take]
  · split
    · next hkey =>
      simp only [isPayToPublicKeyHash, Bool.and_eq_true, beq_iff_eq] at hkey
      match script, hkey.1.1.2 with
      | _ :: _ :: _ :: rest, hlength =>
        cases hlength
        simp [List.take_take]
    · rfl

/-- What tells the stakers of two scripts apart. -/
def Distinguished (s₁ s₂ : CScript) : Prop :=
  match s₁.votingKey, s₂.votingKey with
  | some h, some k => h.take 19 = k.take 19 → h = k
  | some h, none => s₂ ≠ 0x14 :: h.take 19
  | none, some k => s₁ ≠ 0x14 :: k.take 19
  | none, none => True

/-- Scripts with one staker have one voting key or are the same, and the two forms of one key
have one staker. -/
def FaithfulStaker (s₁ s₂ : CScript) : Prop :=
  (s₁.getStakerScript = s₂.getStakerScript →
      (∃ h, s₁.votingKey = some h ∧ s₂.votingKey = some h) ∨ s₁ = s₂) ∧
    (s₁.isPayToPublicKeyHash = true → s₂.isColdStakingv2 = true → s₁.votingKey = s₂.votingKey →
      s₁.getStakerScript = s₂.getStakerScript)

/-- **Stakers are told apart** unless their key hashes differ in the last byte only, or one of the
scripts is what is left of the key hash of the other. -/
theorem getStakerScript_faithful_iff (s₁ s₂ : CScript) :
    FaithfulStaker s₁ s₂ ↔ Distinguished s₁ s₂ := by
  have hforms : s₁.isPayToPublicKeyHash = true → s₂.isColdStakingv2 = true →
      s₁.votingKey = s₂.votingKey → s₁.getStakerScript = s₂.getStakerScript := by
    intro _ hcold hkey
    rw [getStakerScript_eq, getStakerScript_eq s₂, hkey]
    simp [votingKey, hcold]
  rw [FaithfulStaker, and_iff_left hforms, getStakerScript_eq, getStakerScript_eq s₂, Distinguished]
  have hne : s₁.votingKey ≠ s₂.votingKey → s₁ ≠ s₂ := fun h heq => h (congrArg votingKey heq)
  cases hkey₁ : s₁.votingKey with
  | none =>
    cases hkey₂ : s₂.votingKey with
    | none => simp
    | some k => simp [hne (by simp [hkey₁, hkey₂])]
  | some h =>
    cases hkey₂ : s₂.votingKey with
    | none => simp [hne (by simp [hkey₁, hkey₂]), eq_comm]
    | some k =>
      have hsame : s₁ = s₂ → h = k := fun heq => by simpa [heq, hkey₂] using hkey₁.symm
      simp only [List.cons.injEq, true_and, Option.some.injEq, exists_eq_left']
      constructor
      · intro hfaithful htake
        rcases hfaithful htake with hk | heq
        · exact hk.symm
        · exact hsame heq
      · intro hkeys htake
        exact .inl (hkeys htake).symm

/-- Pay to one of 256 key hashes that differ in the last byte. -/
def payToTwin (last : UInt8) : CScript :=
  [opDup, opHash160, 0x14] ++ List.replicate 19 0 ++ [last, opEqualVerify, opCheckSig]

/-- Two of these keys are one staker. -/
theorem one_staker_of_two_keys :
    (payToTwin 1).getStakerScript = (payToTwin 2).getStakerScript ∧
      (payToTwin 1).votingKey = some (List.replicate 19 0 ++ [1]) ∧
      (payToTwin 2).votingKey = some (List.replicate 19 0 ++ [2]) := by
  decide

end CScript

end Navcoin
