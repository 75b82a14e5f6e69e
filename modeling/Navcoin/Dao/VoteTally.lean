import Navcoin.Dao.View

/-!
# Votes of blocks and their count

`ConnectBlock` records the votes of a block under its hash and nothing removes them.  `VoteStep`
counts them over the blocks of a voting cycle in maps that outlive the call: of every block the
first vote for an object counts, unless the nonce of the block excludes it.
-/

namespace Navcoin

/-! ## Records -/

/-- The votes that are recorded for one block. -/
structure BlockVotes where
  proposalVotes : List (Uint256 × Int) := []
  paymentRequestVotes : List (Uint256 × Int) := []
  support : OrderedMap (id : Uint256 → Uint256) := ∅
  consultationVotes : VoteMap := ∅
  deriving DecidableEq, Repr

/-- Votes on proposals and requests are appended; the maps keep what they have. -/
def BlockVotes.insert (b : BlockVotes) : VoteRecord → BlockVotes
  | .proposal hash vote => { b with proposalVotes := b.proposalVotes ++ [(hash, vote)] }
  | .paymentRequest hash vote =>
    { b with paymentRequestVotes := b.paymentRequestVotes ++ [(hash, vote)] }
  | .support hash => { b with support := b.support.assign hash }
  | .consultation hash vote =>
    if b.consultationVotes.contains hash then b
    else { b with consultationVotes := b.consultationVotes.assign (hash, vote) }

/-- The records of the node, by the hash of the block. -/
abbrev VoteRecords := Uint256 → BlockVotes

def VoteRecords.insertAll (records : VoteRecords) (blockhash : Uint256) (votes : List VoteRecord) :
    VoteRecords :=
  Function.update records blockhash (votes.foldl BlockVotes.insert (records blockhash))

/-! ## Caches -/

/-- The votes on a proposal or a payment request. -/
structure Tally where
  nVotesYes : Int := 0
  nVotesNo : Int := 0
  nVotesAbs : Int := 0
  deriving DecidableEq, Repr

def Tally.count (t : Tally) (vote : Int) : Tally :=
  if vote = VoteFlags.voteYes then { t with nVotesYes := t.nVotesYes + 1 }
  else if vote = VoteFlags.voteAbstain then { t with nVotesAbs := t.nVotesAbs + 1 }
  else if vote = VoteFlags.voteNo then { t with nVotesNo := t.nVotesNo + 1 }
  else t

abbrev TallyMap := OrderedMap (Prod.fst : Uint256 × Tally → Uint256)

/-- A consultation or an answer with a vote for it, in the order of pairs. -/
structure ConsultationVote where
  hash : Uint256
  vote : Int
  deriving DecidableEq, Repr

namespace ConsultationVote

instance : LT ConsultationVote := ⟨fun a b => a.hash < b.hash ∨ a.hash = b.hash ∧ a.vote < b.vote⟩

theorem lt_iff (a b : ConsultationVote) :
    a < b ↔ a.hash < b.hash ∨ a.hash = b.hash ∧ a.vote < b.vote := Iff.rfl

instance : DecidableLT ConsultationVote := fun a b =>
  inferInstanceAs (Decidable (a.hash < b.hash ∨ a.hash = b.hash ∧ a.vote < b.vote))

instance : Std.Irrefl (α := ConsultationVote) (· < ·) := ⟨by
  intro a h
  rcases h with h | ⟨_, h⟩
  · exact Std.lt_irrefl h
  · exact Std.lt_irrefl h⟩

instance : Std.Trichotomous (α := ConsultationVote) (· < ·) := ⟨by
  intro a b hab hba
  simp only [lt_iff, not_or, not_and] at hab hba
  have hhash : a.hash = b.hash :=
    ((Std.lt_trichotomy a.hash b.hash).resolve_left hab.1).resolve_right hba.1
  have hvote : a.vote = b.vote :=
    ((Std.lt_trichotomy a.vote b.vote).resolve_left (hab.2 hhash)).resolve_right
      (hba.2 hhash.symm)
  cases a
  cases b
  cases hhash
  cases hvote
  rfl⟩

instance : Trans (α := ConsultationVote) (· < ·) (· < ·) (· < ·) := ⟨by
  intro a b c hab hbc
  rcases hab with hab | ⟨hab, hab'⟩
  · rcases hbc with hbc | ⟨hbc, _⟩
    · exact .inl (Std.lt_trans hab hbc)
    · exact .inl (hbc ▸ hab)
  · rcases hbc with hbc | ⟨hbc, hbc'⟩
    · exact .inl (hab ▸ hbc)
    · exact .inr ⟨hab.trans hbc, Std.lt_trans hab' hbc'⟩⟩

end ConsultationVote

abbrev ConsultationTally :=
  OrderedMap (Prod.fst : ConsultationVote × Int → ConsultationVote)

/-- The counts that outlive a call of `VoteStep`.  The hash of the consensus state stands for the
values of all parameters, which is what it is taken of. -/
structure VoteCaches where
  mapCacheProposalsToUpdate : TallyMap := ∅
  mapCachePaymentRequestToUpdate : TallyMap := ∅
  mapCacheSupportToUpdate : OrderedMap (Prod.fst : Uint256 × Int → Uint256) := ∅
  mapCacheConsultationToUpdate : ConsultationTally := ∅
  nCacheExclude : Int := 0
  lastConsensusStateHash : Option (List Nat) := none
  deriving DecidableEq, Repr

/-- The values that `GetConsensusStateHash` hashes. -/
def DaoView.getConsensusStateHash (view : DaoView) : List Nat := ConsensusParam.all.map view.param

namespace VoteCaches

/-- Nothing has been counted. -/
def empty (c : VoteCaches) : Bool :=
  c.mapCacheProposalsToUpdate.entries.isEmpty && c.mapCachePaymentRequestToUpdate.entries.isEmpty &&
    c.mapCacheSupportToUpdate.entries.isEmpty && c.mapCacheConsultationToUpdate.entries.isEmpty

end VoteCaches

/-! ## One block -/

/-- `mapCache[key] += 1`, from zero. -/
def increment {κ : Type} [LT κ] [DecidableLT κ] [DecidableEq κ]
    [Std.Trichotomous (α := κ) (· < ·)] [Trans (α := κ) (· < ·) (· < ·) (· < ·)]
    (key : κ) (m : OrderedMap (Prod.fst : κ × Int → κ)) : OrderedMap (Prod.fst : κ × Int → κ) :=
  m.assign (key, ((m.find? key).map Prod.snd).getD 0 + 1)

/-- A count, with the hashes that were seen in the block. -/
structure Counted (κ β : Type) [LT κ] where
  cache : OrderedMap (Prod.fst : κ × β → κ)
  mapSeen : List Uint256

/-- A vote on a proposal or on a payment request. -/
def countVote (s : Counted Uint256 Tally) (v : Uint256 × Int) : Counted Uint256 Tally :=
  if v.1 ∈ s.mapSeen then s
  else
    let t := ((s.cache.find? v.1).map Prod.snd).getD {}
    { cache := s.cache.assign (v.1, t.count v.2), mapSeen := v.1 :: s.mapSeen }

/-- A vote on a consultation or an answer.  One that abstains on an answer counts for the
consultation. -/
def countConsultationVote (view : DaoView) (s : Counted ConsultationVote Int) (v : Uint256 × Int) :
    Counted ConsultationVote Int :=
  if v.1 ∈ s.mapSeen then s
  else if (view.getConsultation v.1).isSome || (view.getConsultationAnswer v.1).isSome then
    let parent := (view.getConsultationAnswer v.1).map CConsultationAnswer.parent
    let target := if v.2 = VoteFlags.voteAbstain then parent.getD v.1 else v.1
    { cache := increment ⟨target, v.2⟩ s.cache, mapSeen := v.1 :: s.mapSeen }
  else s

/-- The nonce excludes the votes of the block. -/
def CBlockIndex.excludesVotes (b : CBlockIndex) : Bool := b.nNonce &&& 1 != 0 && !b.fColdStakeV2

/-- The votes of one block.  The map of seen hashes is shared by proposals, requests and
consultations. -/
def countBlock (fCFund fDAO : Bool) (view : DaoView) (votes : BlockVotes) (c : VoteCaches) :
    VoteCaches :=
  let proposals := (if fCFund then votes.proposalVotes else []).foldl countVote
    ⟨c.mapCacheProposalsToUpdate, []⟩
  let requests := (if fCFund then votes.paymentRequestVotes else []).foldl countVote
    ⟨c.mapCachePaymentRequestToUpdate, proposals.mapSeen⟩
  let support := (if fDAO then votes.support.entries else []).foldl
    (fun m hash => increment hash m) c.mapCacheSupportToUpdate
  let consultations := (if fDAO then votes.consultationVotes.entries else []).foldl
    (countConsultationVote view) ⟨c.mapCacheConsultationToUpdate, requests.mapSeen⟩
  { c with
    mapCacheProposalsToUpdate := proposals.cache
    mapCachePaymentRequestToUpdate := requests.cache
    mapCacheSupportToUpdate := support
    mapCacheConsultationToUpdate := consultations.cache }

/-- One block of the scan. -/
def scanBlock (fCFund fDAO : Bool) (view : DaoView) (records : VoteRecords) (c : VoteCaches)
    (b : CBlockIndex) : VoteCaches :=
  if b.excludesVotes then { c with nCacheExclude := c.nCacheExclude + 1 }
  else countBlock fCFund fDAO view (records b.hashBlock) c

/-- The blocks of a chain, from its top. -/
def scanBlocks (fCFund fDAO : Bool) (view : DaoView) (records : VoteRecords) (c : VoteCaches)
    (blocks : List CBlockIndex) : VoteCaches :=
  blocks.foldl (scanBlock fCFund fDAO view records) c

end Navcoin
