import Mathlib.Data.List.TakeWhile
import Navcoin.Miner.VoteOutputs
import Navcoin.Validation.ConnectedObjects

/-!
# The payouts of a new coinbase

`CreateNewBlock` pays the accepted payment requests of the view that are mature: one output each,
and the hashes of the requests in a JSON array.  `ConnectBlock` finds the hash of an output by a
counter, which moves on only at outputs with a value.

* `uint256S_hashText`: a hash survives the way through its text;
* `payOutput_of_low`: an output that is not tested;
* `payouts_matched_iff`: when the loop over the payouts matches each one with its own request;
* `matched_iff`: this is when no request for nothing comes before one with an amount;
* `payouts_connected_iff`: the payouts of a new coinbase in `ConnectBlock`.
-/

namespace Navcoin

variable {pindexPrev : CBlockIndex} {prequest : CPaymentRequest}

/-! ## Hashes as text -/

theorem hexDigit_hexChar : ∀ n < 16,
    hexDigit (hexChar (UInt8.ofNat n)) = some (UInt8.ofNat n) ∧
      isspace (hexChar (UInt8.ofNat n)) = false ∧ hexChar (UInt8.ofNat n) ≠ 0x78 ∧
      hexChar (UInt8.ofNat n) ≠ 0x58 := by
  decide

theorem highDigit (c : UInt8) : c >>> 4 = UInt8.ofNat (c.toNat / 16) := by
  apply UInt8.toNat_inj.mp
  rw [UInt8.toNat_shiftRight, UInt8.toNat_ofNat']
  have := c.toNat_lt
  simp only [UInt8.reduceToNat, Nat.reduceMod, Nat.shiftRight_eq_div_pow, Nat.reducePow]
  omega

theorem lowDigit (c : UInt8) : c &&& 15 = UInt8.ofNat (c.toNat % 16) := by
  apply UInt8.toNat_inj.mp
  rw [UInt8.toNat_and, UInt8.toNat_ofNat']
  have hmask : c.toNat &&& 15 = c.toNat % 16 := Nat.and_two_pow_sub_one_eq_mod c.toNat 4
  simp only [UInt8.reduceToNat, hmask]
  omega

theorem ofLE_append (bs cs : Bytes) : ofLE (bs ++ cs) = ofLE bs + 256 ^ bs.length * ofLE cs := by
  induction bs with
  | nil => simp [ofLE]
  | cons b bs ih =>
    rw [List.cons_append, ofLE, ofLE, ih, List.length_cons]
    ring

theorem ofBE_cons (b : UInt8) (bs : Bytes) :
    ofBE (b :: bs) = b.toNat * 256 ^ bs.length + ofBE bs := by
  rw [ofBE, List.reverse_cons, ofLE_append, ofBE, List.length_reverse]
  simp only [ofLE]
  ring

/-- The digits of a hash are digits, and spell it. -/
theorem hexStr_digits (bs : Bytes) :
    (∀ c ∈ hexStr bs, (hexDigit c).isSome = true ∧ isspace c = false ∧ c ≠ 0x78 ∧ c ≠ 0x58) ∧
      ∀ acc, (hexStr bs).foldl (fun n c => 16 * n + ((hexDigit c).getD 0).toNat) acc =
        acc * 256 ^ bs.length + ofBE bs := by
  induction bs with
  | nil => exact ⟨by simp [hexStr], fun acc => by simp [hexStr, ofBE, ofLE]⟩
  | cons b bs ih =>
    have hbyte := b.toNat_lt
    obtain ⟨hhigh, hhigh'⟩ := hexDigit_hexChar (b.toNat / 16) (by omega)
    obtain ⟨hlow, hlow'⟩ := hexDigit_hexChar (b.toNat % 16) (by omega)
    have hcons : hexStr (b :: bs) = hexChar (UInt8.ofNat (b.toNat / 16)) ::
        hexChar (UInt8.ofNat (b.toNat % 16)) :: hexStr bs := by
      rw [← highDigit, ← lowDigit]
      rfl
    rw [hcons]
    constructor
    · intro c hc
      rcases List.mem_cons.mp hc with rfl | hc
      · exact ⟨by rw [hhigh]; rfl, hhigh'⟩
      · rcases List.mem_cons.mp hc with rfl | hc
        · exact ⟨by rw [hlow]; rfl, hlow'⟩
        · exact ih.1 c hc
    · intro acc
      have hh : (UInt8.ofNat (b.toNat / 16)).toNat = b.toNat / 16 := by
        rw [UInt8.toNat_ofNat']
        omega
      have hl : (UInt8.ofNat (b.toNat % 16)).toNat = b.toNat % 16 := by
        rw [UInt8.toNat_ofNat']
        omega
      rw [List.foldl_cons, List.foldl_cons, ih.2, hhigh, hlow, Option.getD_some, Option.getD_some,
        hh, hl, List.length_cons, ofBE_cons]
      have hsplit : 16 * (16 * acc + b.toNat / 16) + b.toNat % 16 = 256 * acc + b.toNat := by omega
      rw [hsplit]
      ring

/-- **A hash survives the way through its text.** -/
theorem uint256S_hashText (hash : Uint256) : uint256S (hashText hash) = hash := by
  obtain ⟨hdigits, hvalue⟩ := hexStr_digits (toBE 32 hash.toNat)
  have htext : hashText hash = hexStr (toBE 32 hash.toNat) := rfl
  have hdrop : (hashText hash).dropWhile isspace = hashText hash := by
    rw [htext]
    cases hstr : hexStr (toBE 32 hash.toNat) with
    | nil => rfl
    | cons c l =>
      rw [List.dropWhile_cons, (hdigits c (by rw [hstr]; exact List.mem_cons_self)).2.1]
      rfl
  have htake : (hashText hash).takeWhile (fun c => (hexDigit c).isSome) = hashText hash :=
    List.takeWhile_eq_self_iff.mpr fun c hc => (hdigits c hc).1
  simp only [uint256S, hdrop]
  split
  · next heq => exact absurd rfl (hdigits 0x78 (by rw [← htext, heq]; simp)).2.2.1
  · next heq => exact absurd rfl (hdigits 0x58 (by rw [← htext, heq]; simp)).2.2.2
  · rw [htake, htext, hvalue 0, ofBE_toBE_of_lt (hash.isLt.trans_eq (by norm_num))]
    simp

/-! ## The coinbase -/

variable {G : Type}

/-- A payment request with the output that pays it. -/
abbrev Payout (G : Type) := CPaymentRequest × CTxOut G

/-- What the assembler of blocks uses of the node: the settings, the script of an address, and
JSON, where an array of hashes reads back as it was written. -/
structure BlockAssembler (nd : ChainNode G) extends MinerVotes where
  getScriptForDestination : Bytes → CScript
  writeHashes : List Uint256 → Bytes
  readArray_writeHashes : ∀ l, nd.readArray (writeHashes l) = some (l.map (.str <| hashText ·))

/-- The arguments of `CreateNewBlock`, with the fees of the transactions and the commitment to
their witnesses. -/
structure Template where
  scriptPubKeyIn : CScript
  fProofOfStake : Bool
  nFees : Int
  commitment : Option CScript
  nTime : UInt32

/-- The output that pays a request, if it is accepted and mature. -/
def payoutOf (nd : ChainNode G) (a : BlockAssembler nd) (pindexPrev : CBlockIndex)
    (view : DaoView) (prequest : CPaymentRequest) : Option (CTxOut G) :=
  match prequest.mapState.getLastStateBlockIndexForState nd.mapBlockIndex .accepted with
  | none => none
  | some pblockindex =>
    if prequest.hash = 0 then none
    else if prequest.getLastState nd.mapBlockIndex = .accepted ∧
        pindexPrev.nHeight - pblockindex.nHeight > nd.nCommunityFundMinAge then
      match view.getProposal prequest.proposalhash with
      | none => none
      | some proposal =>
        if nd.isValidAddress proposal.getPaymentAddress then
          some { nValue := prequest.nAmount,
                 scriptPubKey := a.getScriptForDestination proposal.getPaymentAddress }
        else none
    else none

/-- The requests that are paid, in the order of their hashes. -/
def payoutsOf (nd : ChainNode G) (a : BlockAssembler nd) (pindexPrev : CBlockIndex)
    (view : DaoView) : List (Payout G) :=
  if (nd.deployments pindexPrev).communityFund && !a.fExcludeVote then
    view.getAllPaymentRequests.entries.filterMap fun it =>
      (view.getPaymentRequest it.hash).bind fun prequest =>
        (payoutOf nd a pindexPrev view prequest).map (prequest, ·)
  else []

namespace Template

/-- The first output: the reward of proof of work. -/
def rewardOutput (t : Template) (nd : ChainNode G) (pindexPrev : CBlockIndex) : CTxOut G :=
  if t.fProofOfStake then { nValue := 0, scriptPubKey := [] }
  else { nValue := getBlockSubsidy nd (pindexPrev.nHeight + 1) + t.nFees,
         scriptPubKey := t.scriptPubKeyIn }

/-- The outputs before the payouts. -/
def heading (t : Template) (nd : ChainNode G) (a : BlockAssembler nd) (pindexPrev : CBlockIndex)
    (view : DaoView) : List (CTxOut G) :=
  t.rewardOutput nd pindexPrev ::
    (ballot nd.toDaoRules view nd.nCommunityFundMinAge pindexPrev (nd.deployments pindexPrev)
      a.toMinerVotes).map fun vote => { nValue := 0, scriptPubKey := vote.2 }

/-- The coinbase of `CreateNewBlock`, without forced outputs. -/
def coinbase (t : Template) (nd : ChainNode G) (a : BlockAssembler nd) (pindexPrev : CBlockIndex)
    (view : DaoView) : CTransaction G :=
  let payouts := payoutsOf nd a pindexPrev view
  { nVersion := 3
    nTime := t.nTime
    vin := [{ prevout := { hash := 0, n := 0xffffffff },
              scriptSig := CScript.pushInt64 [] (pindexPrev.nHeight + 1) ++ [0] }]
    vout := t.heading nd a pindexPrev view ++ (payouts.map Prod.snd ++
      t.commitment.toList.map fun script => { nValue := 0, scriptPubKey := script })
    strDZeel := if (nd.deployments pindexPrev).communityFund && !a.fExcludeVote then
      a.writeHashes (payouts.map fun e => e.1.hash) else [] }

end Template

/-! ## One output -/

variable {e : Payout G}

section Loop

variable {r : PaymentRules} {x : PaymentContext} {s s' : PaymentLocals} {o : CTxOut G}
variable {hashes : List Uint256}

/-- An output within the reward, or without value, only adds to the sum. -/
theorem payOutput_of_low (h : s.nAccValue + o.nValue ≤ x.nPOWBlockReward ∨ o.nValue ≤ 0) :
    payOutput r x s o = pure { s with nAccValue := s.nAccValue + o.nValue } := by
  have htest : ¬(decide (s.nAccValue + o.nValue > x.nPOWBlockReward) && decide (o.nValue > 0)) := by
    simp only [Bool.and_eq_true, decide_eq_true_eq]
    omega
  simp only [payOutput, if_neg htest]

section Tested

variable (hhigh : x.nPOWBlockReward < s.nAccValue + o.nValue) (hpos : 0 < o.nValue)
include hhigh hpos

theorem payOutput_tested :
    decide (s.nAccValue + o.nValue > x.nPOWBlockReward) && decide (o.nValue > 0) := by
  simp only [Bool.and_eq_true, decide_eq_true_eq]
  exact ⟨hhigh, hpos⟩

theorem payOutput_of_checked {found : Uint256 × CPaymentRequest}
    (hcheck : checkPayment r x s o = .ok found) :
    payOutput r x s o = ⟨[.pay found.1 o], .ok
      { view := s.view.setPaymentRequest (found.2.paid x.pindex)
        nPaymentRequestsCount := s.nPaymentRequestsCount + 1
        nAccValue := s.nAccValue + o.nValue }⟩ := by
  simp only [payOutput, if_pos (payOutput_tested hhigh hpos), hcheck]
  rfl

theorem exists_checked (h : (payOutput r x s o).result = .ok s') :
    ∃ found, checkPayment r x s o = .ok found := by
  simp only [payOutput, if_pos (payOutput_tested hhigh hpos), Traced.bind_eq_ok_iff,
    Traced.result_ofExcept] at h
  obtain ⟨found, hfound, _⟩ := h
  exact ⟨found, hfound⟩

end Tested

/-- The request is found through the array, and is the right one. -/
theorem checkPayment_eq_ok_iff (hmeta : x.metadata = some (hashes.map (.str <| hashText ·)))
    {found : Uint256 × CPaymentRequest} :
    checkPayment r x s o = .ok found ↔
      hashes[s.nPaymentRequestsCount]? = some found.1 ∧ PaymentOk r x s.view found.1 found.2 o := by
  have helement : (x.metadata.bind fun metadata => metadata[s.nPaymentRequestsCount]?) =
      hashes[s.nPaymentRequestsCount]?.map (.str <| hashText ·) := by
    rw [hmeta]
    exact List.getElem?_map
  constructor
  · intro h
    obtain ⟨⟨str, hstr, heq⟩, hok⟩ := checkPayment_ok h
    rw [helement, Option.map_eq_some_iff] at hstr
    obtain ⟨hash, hhash, htext⟩ := hstr
    cases htext
    rw [uint256S_hashText] at heq
    exact ⟨heq ▸ hhash, hok⟩
  · rintro ⟨hhash, hrequest, hamount, ⟨proposal, hproposal, haddress⟩, haccepted, hmature⟩
    simp only [checkPayment, helement, hhash, Option.map_some, uint256S_hashText, hrequest,
      hproposal, haddress, Except.bind_eq_ok_iff, Except.rejectIf_eq_ok_iff, exists_const, pure,
      Except.pure]
    refine ⟨?_, ?_, trivial⟩
    · rintro (hne | ⟨hfork, hne⟩ | hne)
      · exact hne hamount
      · exact hne (haccepted hfork)
      · exact hne rfl
    · intro hlate
      simp only [Bool.and_eq_true, Bool.not_eq_true'] at hlate
      rw [hmature hlate.1] at hlate
      exact absurd hlate.2 (by decide)

/-- Every payment of the loop is an output with a value. -/
theorem length_trace_payOutput_le (l : List (CTxOut G)) (s s' : PaymentLocals)
    (h : (l.foldlM (payOutput r x) s).result = .ok s') :
    (l.foldlM (payOutput r x) s).trace.length ≤ (l.filter (0 < ·.nValue)).length := by
  induction l generalizing s with
  | nil => exact Nat.zero_le _
  | cons o l ih =>
    rw [List.foldlM_cons, Traced.bind_eq_ok_iff] at h
    obtain ⟨t, hstep, hrest⟩ := h
    rw [List.foldlM_cons, Traced.trace_bind_of_ok hstep, List.length_append]
    have htail := ih t hrest
    obtain ⟨_, ⟨_, _, htrace⟩ | ⟨hpos, _, _, _, _, htrace⟩⟩ := payOutput_ok hstep
    · rw [htrace, List.length_nil, Nat.zero_add]
      exact htail.trans ((List.sublist_cons_self o l).filter _).length_le
    · rw [htrace, List.filter_cons_of_pos (by simpa using hpos), List.length_singleton,
        List.length_cons]
      omega

/-- Outputs without value do nothing. -/
theorem foldlM_payOutput_zero (l : List (CTxOut G)) (h : ∀ o ∈ l, o.nValue = 0)
    (s : PaymentLocals) : l.foldlM (payOutput r x) s = pure s := by
  induction l with
  | nil => rfl
  | cons o l ih =>
    have ho : o.nValue = 0 := h o List.mem_cons_self
    rw [List.foldlM_cons, payOutput_of_low (.inr ho.le), ho, add_zero]
    exact ih fun b hb => h b (List.mem_cons_of_mem _ hb)

/-! ## The loop over the payouts -/

/-- What the assembler has checked of a payout, in a view. -/
structure Payout.Ready (r : PaymentRules) (x : PaymentContext) (view : DaoView)
    (e : Payout G) : Prop where
  request : view.getPaymentRequest e.1.hash = some e.1
  amount : e.2.nValue = e.1.nAmount
  accepted : e.1.getLastState r.mapBlockIndex = .accepted
  mature : x.mature r e.1 = true

/-- The script of the output leads back to the address of the proposal. -/
def Payout.Addressed (r : PaymentRules) (view : DaoView) (e : Payout G) : Prop :=
  ∃ proposal, view.getProposal e.1.proposalhash = some proposal ∧
    r.extractDestination e.2.scriptPubKey = some proposal.getPaymentAddress

/-- The payments of the payouts with a value, each with its own request. -/
def payEvents (l : List (Payout G)) : List (Event G) :=
  (l.filter (0 < ·.2.nValue)).map fun e => .pay e.1.hash e.2

/-- Each payout with a value goes beyond the reward, finds its hash at the counter, and has the
right address. -/
def Matched (r : PaymentRules) (nPOWBlockReward : Int) (view : DaoView) (hashes : List Uint256) :
    Nat → Int → List (Payout G) → Prop
  | _, _, [] => True
  | count, nAccValue, e :: l =>
    if 0 < e.2.nValue then
      nPOWBlockReward < nAccValue + e.2.nValue ∧ hashes[count]? = some e.1.hash ∧
        e.Addressed r view ∧
        Matched r nPOWBlockReward view hashes (count + 1) (nAccValue + e.2.nValue) l
    else Matched r nPOWBlockReward view hashes count (nAccValue + e.2.nValue) l

theorem Payout.Ready.paymentOk_iff {view : DaoView} (h : e.Ready r x s.view)
    (hsame : s.view.proposals = view.proposals) :
    PaymentOk r x s.view e.1.hash prequest e.2 ↔ prequest = e.1 ∧ e.Addressed r view := by
  have hproposal : ∀ id, s.view.getProposal id = view.getProposal id := by
    intro id
    rw [DaoView.getProposal, hsame]
    rfl
  constructor
  · rintro ⟨hrequest, _, haddress, _, _⟩
    obtain rfl := Option.some.inj (hrequest.symm.trans h.request)
    simp only [hproposal] at haddress
    exact ⟨rfl, haddress⟩
  · rintro ⟨rfl, haddress⟩
    refine ⟨h.request, h.amount, ?_, fun _ => h.accepted, fun _ => h.mature⟩
    simp only [hproposal]
    exact haddress

/-- Paying a request leaves the others as they are. -/
theorem Payout.Ready.setPaymentRequest {view : DaoView} (h : e.Ready r x view)
    (hne : e.1.hash ≠ prequest.hash) : e.Ready r x (view.setPaymentRequest prequest) := by
  refine { h with request := ?_ }
  rw [← h.request, DaoView.getPaymentRequest, DaoView.setPaymentRequest,
    OrderedMap.find?_assign_of_ne _ hne]
  rfl

/-- **The payouts in the loop.**  They pass, each with its own request, exactly if they are
matched. -/
theorem payouts_matched_iff {view : DaoView}
    (hmeta : x.metadata = some (hashes.map (.str <| hashText ·))) (l : List (Payout G))
    (s : PaymentLocals) (hready : ∀ e ∈ l, e.Ready r x s.view) (hnodup : (l.map (·.1.hash)).Nodup)
    (hsame : s.view.proposals = view.proposals) :
    (∃ s', ((l.map Prod.snd).foldlM (payOutput r x) s).result = .ok s' ∧
      ((l.map Prod.snd).foldlM (payOutput r x) s).trace = payEvents l) ↔
      Matched r x.nPOWBlockReward view hashes s.nPaymentRequestsCount s.nAccValue l := by
  induction l generalizing s with
  | nil => exact iff_of_true ⟨s, rfl, rfl⟩ trivial
  | cons e l ih =>
    obtain ⟨he, hl⟩ := List.forall_mem_cons.mp hready
    rw [List.map_cons, List.nodup_cons] at hnodup
    rw [List.map_cons, List.foldlM_cons, Matched]
    by_cases hpos : 0 < e.2.nValue
    · have hevents : payEvents (e :: l) = .pay e.1.hash e.2 :: payEvents l := by
        rw [payEvents, List.filter_cons_of_pos (by simpa using hpos)]
        rfl
      rw [if_pos hpos, hevents]
      by_cases hhigh : x.nPOWBlockReward < s.nAccValue + e.2.nValue
      · have hother : ∀ b ∈ l, b.Ready r x (s.view.setPaymentRequest (e.1.paid x.pindex)) := by
          intro b hb
          refine (hl b hb).setPaymentRequest fun heq => hnodup.1 ?_
          exact List.mem_map.mpr ⟨b, hb, heq⟩
        have hrest := ih { view := s.view.setPaymentRequest (e.1.paid x.pindex)
                           nPaymentRequestsCount := s.nPaymentRequestsCount + 1
                           nAccValue := s.nAccValue + e.2.nValue } hother hnodup.2 hsame
        constructor
        · rintro ⟨s', hrun, htrace⟩
          have hfirst := hrun
          rw [Traced.bind_eq_ok_iff] at hfirst
          obtain ⟨t, hstep, _⟩ := hfirst
          obtain ⟨found, hfound⟩ := exists_checked hhigh hpos hstep
          rw [payOutput_of_checked hhigh hpos hfound] at hrun htrace
          obtain ⟨hhead, htail⟩ := List.cons.inj htrace
          have hown : found.1 = e.1.hash := (Event.pay.inj hhead).1
          obtain ⟨hhash, hok⟩ := (checkPayment_eq_ok_iff hmeta).mp hfound
          rw [hown] at hhash hok
          obtain ⟨hrequest, haddress⟩ := (he.paymentOk_iff hsame).mp hok
          rw [hrequest] at hrun htail
          exact ⟨hhigh, hhash, haddress, hrest.mp ⟨s', hrun, htail⟩⟩
        · rintro ⟨_, hhash, haddress, hmatched⟩
          have hcheck : checkPayment r x s e.2 = .ok (e.1.hash, e.1) :=
            (checkPayment_eq_ok_iff hmeta).mpr ⟨hhash, (he.paymentOk_iff hsame).mpr ⟨rfl, haddress⟩⟩
          obtain ⟨s', hrun, htrace⟩ := hrest.mpr hmatched
          rw [payOutput_of_checked hhigh hpos hcheck]
          exact ⟨s', hrun, congrArg (List.cons _) htrace⟩
      · -- an output within the reward pays nothing, and the others are too few
        rw [payOutput_of_low (.inl (not_lt.mp hhigh)), pure_bind]
        refine iff_of_false ?_ fun h => hhigh h.1
        rintro ⟨s', hrun, htrace⟩
        have hlength := length_trace_payOutput_le _ _ _ hrun
        rw [htrace, List.filter_map, List.length_map, List.length_cons, payEvents,
          List.length_map] at hlength
        exact absurd hlength (Nat.not_succ_le_self _)
    · have hevents : payEvents (e :: l) = payEvents l := by
        rw [payEvents, List.filter_cons_of_neg (by simpa using hpos)]
        rfl
      rw [if_neg hpos, hevents, payOutput_of_low (.inr (not_lt.mp hpos))]
      exact ih _ hl hnodup.2 hsame

/-! ## Requests for nothing -/

/-- The reward leaves no room for the first payout, no request for nothing comes before one with an
amount, and the addresses are right. -/
structure PayoutsInOrder (r : PaymentRules) (nPOWBlockReward nAccValue : Int) (view : DaoView)
    (l : List (Payout G)) : Prop where
  first : ∀ e ∈ l.head?, 0 < e.2.nValue → nPOWBlockReward < nAccValue + e.2.nValue
  order : l.Pairwise fun a b => 0 < b.2.nValue → 0 < a.2.nValue
  address : ∀ e ∈ l, 0 < e.2.nValue → e.Addressed r view

variable {view : DaoView}

/-- While the counter stays behind, no payout is matched. -/
theorem matched_behind_iff {count : Nat} (l : List (Payout G))
    (hbehind : ∀ e ∈ l, hashes[count]? ≠ some e.1.hash) (nPOWBlockReward nAccValue : Int) :
    Matched r nPOWBlockReward view hashes count nAccValue l ↔ ∀ e ∈ l, e.2.nValue ≤ 0 := by
  induction l generalizing nAccValue with
  | nil => simp [Matched]
  | cons e l ih =>
    obtain ⟨he, hl⟩ := List.forall_mem_cons.mp hbehind
    rw [Matched, List.forall_mem_cons]
    by_cases hpos : 0 < e.2.nValue
    · rw [if_pos hpos]
      exact iff_of_false (fun h => he h.2.1) fun h => absurd h.1 (not_le.mpr hpos)
    · rw [if_neg hpos, ih hl]
      exact (and_iff_right (not_lt.mp hpos)).symm

/-- **The counter is the position in the array** as long as every payout had a value. -/
theorem matched_iff (pre l : List (Payout G)) (hnodup : ((pre ++ l).map (·.1.hash)).Nodup)
    (nPOWBlockReward nAccValue : Int) :
    Matched r nPOWBlockReward view ((pre ++ l).map (·.1.hash)) pre.length nAccValue l ↔
      PayoutsInOrder r nPOWBlockReward nAccValue view l := by
  induction l generalizing pre nAccValue with
  | nil => exact iff_of_true trivial ⟨by simp, .nil, by simp⟩
  | cons e l ih =>
    have hat : ((pre ++ e :: l).map (·.1.hash))[pre.length]? = some e.1.hash := by simp
    rw [Matched, hat]
    by_cases hpos : 0 < e.2.nValue
    · have hshift : pre ++ e :: l = (pre ++ [e]) ++ l := by simp
      have htail := ih (pre ++ [e]) (hshift ▸ hnodup) (nAccValue + e.2.nValue)
      rw [List.length_append, List.length_singleton, ← hshift] at htail
      rw [if_pos hpos, htail]
      constructor
      · rintro ⟨hhigh, _, haddress, hfirst, horder, haddresses⟩
        exact ⟨fun b hb _ => Option.some.inj hb ▸ hhigh,
          List.pairwise_cons.mpr ⟨fun _ _ _ => hpos, horder⟩,
          List.forall_mem_cons.mpr ⟨fun _ => haddress, haddresses⟩⟩
      · rintro ⟨hfirst, horder, haddress⟩
        have hhigh := hfirst e rfl hpos
        refine ⟨hhigh, rfl, haddress e List.mem_cons_self hpos, ?_,
          (List.pairwise_cons.mp horder).2, fun b hb => haddress b (List.mem_cons_of_mem _ hb)⟩
        omega
    · -- the counter stays at the hash of a request for nothing
      have hbehind : ∀ b ∈ l,
          ((pre ++ e :: l).map (·.1.hash))[pre.length]? ≠ some b.1.hash := by
        intro b hb heq
        rw [hat, Option.some.injEq] at heq
        rw [List.map_append, List.nodup_append] at hnodup
        refine (List.nodup_cons.mp hnodup.2.1).1 ?_
        exact List.mem_map.mpr ⟨b, hb, heq.symm⟩
      rw [if_neg hpos, matched_behind_iff l hbehind]
      constructor
      · intro hl
        refine ⟨fun b hb hb' => absurd (Option.some.inj hb ▸ hb') hpos, ?_, ?_⟩
        · refine List.pairwise_cons.mpr ⟨fun b hb hb' => absurd hb' (not_lt.mpr (hl b hb)), ?_⟩
          exact List.pairwise_of_forall_mem_list fun a _ b hb hb' =>
            absurd hb' (not_lt.mpr (hl b hb))
        · exact List.forall_mem_cons.mpr ⟨fun h => absurd h hpos,
            fun b hb hb' => absurd hb' (not_lt.mpr (hl b hb))⟩
      · rintro ⟨_, horder, _⟩ b hb
        exact not_lt.mp fun hb' => hpos ((List.pairwise_cons.mp horder).1 b hb hb')

end Loop

/-! ## The payouts of a view -/

theorem payoutOf_eq_some {nd : ChainNode G} {a : BlockAssembler nd} {view : DaoView}
    {o : CTxOut G} (h : payoutOf nd a pindexPrev view prequest = some o) :
    o.nValue = prequest.nAmount ∧ prequest.getLastState nd.mapBlockIndex = .accepted ∧
      (∀ x : PaymentContext, x.pprev = pindexPrev → x.mature nd.toPaymentRules prequest = true) ∧
      ∃ proposal, view.getProposal prequest.proposalhash = some proposal := by
  unfold payoutOf at h
  split at h
  · cases h
  · next pblockindex hblock =>
    split at h
    · cases h
    · split at h
      · next hstate =>
        split at h
        · cases h
        · next proposal hproposal =>
          split at h
          · cases h
            refine ⟨rfl, hstate.1, ?_, proposal, hproposal⟩
            rintro x rfl
            rw [PaymentContext.mature, hblock]
            simpa using hstate.2
          · cases h
      · cases h

theorem mem_payoutsOf {nd : ChainNode G} {a : BlockAssembler nd} {view : DaoView}
    (h : e ∈ payoutsOf nd a pindexPrev view) : view.getPaymentRequest e.1.hash = some e.1 ∧
      payoutOf nd a pindexPrev view e.1 = some e.2 := by
  unfold payoutsOf at h
  split at h
  · obtain ⟨it, _, hit⟩ := List.mem_filterMap.mp h
    obtain ⟨prequest, hget, hpay⟩ := Option.bind_eq_some_iff.mp hit
    obtain ⟨o, ho, rfl⟩ := Option.map_eq_some_iff.mp hpay
    rw [DaoView.hash_of_getPaymentRequest hget]
    exact ⟨hget, ho⟩
  · cases h

theorem map_filterMap_sublist {α β γ : Type} {f : α → Option β} {g : β → γ} {h : α → γ}
    (hf : ∀ a b, f a = some b → g b = h a) (l : List α) :
    ((l.filterMap f).map g).Sublist (l.map h) := by
  induction l with
  | nil => exact .slnil
  | cons a l ih =>
    cases ha : f a with
    | none =>
      rw [List.filterMap_cons_none ha]
      exact ih.cons _
    | some b =>
      rw [List.filterMap_cons_some ha, List.map_cons, hf a b ha]
      exact ih.cons_cons _

theorem nodup_payoutsOf (nd : ChainNode G) (a : BlockAssembler nd) (pindexPrev : CBlockIndex)
    (view : DaoView) : ((payoutsOf nd a pindexPrev view).map (·.1.hash)).Nodup := by
  unfold payoutsOf
  split
  · refine (map_filterMap_sublist ?_ _).nodup (OrderedMap.nodup_keys view.getAllPaymentRequests)
    intro it e he
    obtain ⟨prequest, hget, hpay⟩ := Option.bind_eq_some_iff.mp he
    obtain ⟨o, _, rfl⟩ := Option.map_eq_some_iff.mp hpay
    exact DaoView.hash_of_getPaymentRequest hget
  · exact List.nodup_nil

/-! ## The view at the coinbase -/

/-- Requests and proposals are still there. -/
structure DaoView.Keeps (view view' : DaoView) : Prop where
  proposals : ∀ id p, view.getProposal id = some p → view'.getProposal id = some p
  requests : ∀ id p, view.getPaymentRequest id = some p → view'.getPaymentRequest id = some p

section Connect

variable {nd : ChainNode G} {x : BlockContext G}
variable {a : BlockAssembler nd} {px : PaymentContext} {mid : DaoView}

/-! ## The coinbase in the loop -/

/-- The outputs of the coinbase before the payouts pay no request, and the loop accepts the
payouts: each one with a value pays its own request, which is `PAID` afterwards. -/
structure PayoutsPass (nd : ChainNode G) (x : BlockContext G) (s : ConnectLocals G)
    (coinbase : CTransaction G) (heading : List (CTxOut G)) (payouts : List (Payout G)) : Prop where
  heading : (payOutputs nd.toPaymentRules (x.payment nd s.nFees coinbase) s.view.toDaoView
    heading).trace = []
  payouts : ∃ c, (connectCoinbase nd x s).result = .ok c ∧
    (connectCoinbase nd x s).trace = payEvents payouts ∧
    ∀ e ∈ payouts, 0 < e.2.nValue →
      c.view.toDaoView.getPaymentRequest e.1.hash = some (e.1.paid x.pindex)

/-- The reward of the coinbase is within what the block allows, and the payouts are in order. -/
structure Template.Fits (t : Template) (nd : ChainNode G) (x : BlockContext G) (nFees : Int)
    (coinbase : CTransaction G) (view : DaoView) (payouts : List (Payout G)) : Prop where
  reward : (t.rewardOutput nd x.pprev).nValue ≤ (x.payment nd nFees coinbase).nPOWBlockReward ∨
    (t.rewardOutput nd x.pprev).nValue ≤ 0
  order : PayoutsInOrder nd.toPaymentRules (x.payment nd nFees coinbase).nPOWBlockReward
    (t.rewardOutput nd x.pprev).nValue view payouts

/-- The votes do not count. -/
theorem payOutputs_heading (t : Template) (a : BlockAssembler nd) (px : PaymentContext)
    (pindexPrev : CBlockIndex) (view mid : DaoView) :
    payOutputs nd.toPaymentRules px mid (t.heading nd a pindexPrev view) =
      payOutput nd.toPaymentRules px { view := mid } (t.rewardOutput nd pindexPrev) := by
  have hvotes : ∀ votes : Ballot, ∀ o ∈ votes.map (fun vote =>
      ({ nValue := 0, scriptPubKey := vote.2 } : CTxOut G)), o.nValue = 0 := by
    intro votes o ho
    obtain ⟨vote, _, rfl⟩ := List.mem_map.mp ho
    rfl
  rw [payOutputs, Template.heading, List.foldlM_cons]
  simp only [foldlM_payOutput_zero _ (hvotes _), bind_pure]

/-- Neither does the commitment. -/
theorem payOutputs_coinbase (t : Template) (a : BlockAssembler nd) (px : PaymentContext)
    (pindexPrev : CBlockIndex) (view mid : DaoView) :
    payOutputs nd.toPaymentRules px mid (t.coinbase nd a pindexPrev view).vout =
      payOutput nd.toPaymentRules px { view := mid } (t.rewardOutput nd pindexPrev) >>=
        ((payoutsOf nd a pindexPrev view).map Prod.snd).foldlM
          (payOutput nd.toPaymentRules px) := by
  have hlast : ∀ o ∈ t.commitment.toList.map (fun script =>
      ({ nValue := 0, scriptPubKey := script } : CTxOut G)), o.nValue = 0 := by
    intro o ho
    obtain ⟨script, _, rfl⟩ := List.mem_map.mp ho
    rfl
  have hheading := payOutputs_heading t a px pindexPrev view mid
  rw [payOutputs] at hheading
  rw [payOutputs, Template.coinbase, List.foldlM_append, hheading]
  simp only [List.foldlM_append, foldlM_payOutput_zero _ hlast, bind_pure]

variable {view : DaoView}

theorem payOutputs_coinbase_of_low {t : Template}
    (hlow : (t.rewardOutput nd pindexPrev).nValue ≤ px.nPOWBlockReward ∨
      (t.rewardOutput nd pindexPrev).nValue ≤ 0) :
    payOutputs nd.toPaymentRules px mid (t.coinbase nd a pindexPrev view).vout =
      ((payoutsOf nd a pindexPrev view).map Prod.snd).foldlM (payOutput nd.toPaymentRules px)
        { view := mid, nAccValue := (t.rewardOutput nd pindexPrev).nValue } := by
  rw [payOutputs_coinbase, payOutput_of_low (by simpa using hlow), pure_bind]
  simp only [zero_add]

/-- A reward that is tested is a payment, or stops the loop. -/
theorem reward_low_of_heading {t : Template} {q : PaymentLocals}
    (hrun : (payOutputs nd.toPaymentRules px mid
      (t.coinbase nd a pindexPrev view).vout).result = .ok q)
    (hheading : (payOutputs nd.toPaymentRules px mid (t.heading nd a pindexPrev view)).trace = []) :
    (t.rewardOutput nd pindexPrev).nValue ≤ px.nPOWBlockReward ∨
      (t.rewardOutput nd pindexPrev).nValue ≤ 0 := by
  rw [payOutputs_coinbase, Traced.bind_eq_ok_iff] at hrun
  obtain ⟨u, hreward, _⟩ := hrun
  rw [payOutputs_heading] at hheading
  by_contra hhigh
  rw [not_or, not_le, ← zero_add (t.rewardOutput nd pindexPrev).nValue] at hhigh
  obtain ⟨found, hfound⟩ := exists_checked hhigh.1 (by simpa using hhigh.2) hreward
  rw [payOutput_of_checked hhigh.1 (by simpa using hhigh.2) hfound] at hheading
  cases hheading

theorem connectCoinbase_eq {s : ConnectLocals G} {coinbase : CTransaction G}
    {rest : List (CTransaction G)} (hvtx : x.block.vtx = coinbase :: rest) :
    connectCoinbase nd x s = payOutputs nd.toPaymentRules (x.payment nd s.nFees coinbase)
      s.view.toDaoView coinbase.vout >>= fun p =>
        pure { s with view := { s.view with toDaoView := p.view } } := by
  simp only [connectCoinbase, hvtx]

/-- A request that the loop has paid. -/
theorem paid_of_payEvents {r : PaymentRules} {vout : List (CTxOut G)} {q : PaymentLocals}
    {l : List (Payout G)} (hrun : (payOutputs r px view vout).result = .ok q)
    (htrace : (payOutputs r px view vout).trace = payEvents l) (he : e ∈ l)
    (hpos : 0 < e.2.nValue) (hget : view.getPaymentRequest e.1.hash = some e.1) :
    q.view.getPaymentRequest e.1.hash = some (e.1.paid px.pindex) := by
  have hpaid := (payOutputs_requests hrun).find? e.1.hash
  have hmem : e.1.hash ∈ paidRequests (payOutputs r px view vout).trace := by
    rw [htrace, paidRequests, payments, payEvents, List.filterMap_map]
    simp only [List.mem_map, List.mem_filterMap, List.mem_filter]
    exact ⟨(e.1.hash, e.2), ⟨e, ⟨he, by simpa using hpos⟩, rfl⟩, rfl⟩
  rw [if_pos hmem, DaoView.find?_of_getPaymentRequest hget] at hpaid
  exact DaoView.getPaymentRequest_of_some hpaid (e.1.isNull_paid _)

theorem ready_of_mem_payoutsOf (hkeeps : view.Keeps mid) (he : e ∈ payoutsOf nd a px.pprev view) :
    e.Ready nd.toPaymentRules px mid := by
  obtain ⟨hrequest, hpayout⟩ := mem_payoutsOf he
  obtain ⟨hamount, haccepted, hmature, _⟩ := payoutOf_eq_some hpayout
  exact ⟨hkeeps.requests _ _ hrequest, hamount, haccepted, hmature px rfl⟩

/-- The proposals of the payouts are the same in both views. -/
theorem payoutsInOrder_iff_of_keeps (hkeeps : view.Keeps mid) (nPOWBlockReward nAccValue : Int) :
    PayoutsInOrder nd.toPaymentRules nPOWBlockReward nAccValue mid
        (payoutsOf nd a pindexPrev view) ↔
      PayoutsInOrder nd.toPaymentRules nPOWBlockReward nAccValue view
        (payoutsOf nd a pindexPrev view) := by
  have haddressed : ∀ e ∈ payoutsOf nd a pindexPrev view,
      e.Addressed nd.toPaymentRules mid ↔ e.Addressed nd.toPaymentRules view := by
    intro e he
    obtain ⟨_, _, _, proposal, hproposal⟩ := payoutOf_eq_some (mem_payoutsOf he).2
    rw [Payout.Addressed, Payout.Addressed, hproposal, hkeeps.proposals _ _ hproposal]
  constructor
  · rintro ⟨hfirst, horder, haddress⟩
    exact ⟨hfirst, horder, fun e he hpos => (haddressed e he).mp (haddress e he hpos)⟩
  · rintro ⟨hfirst, horder, haddress⟩
    exact ⟨hfirst, horder, fun e he hpos => (haddressed e he).mpr (haddress e he hpos)⟩

/-- The payouts of a new coinbase in the loop, after what came before them. -/
theorem payoutsOf_loop_iff (t : Template) (px : PaymentContext) (hkeeps : view.Keeps mid)
    (hmeta : px.metadata = nd.readArray (t.coinbase nd a px.pprev view).strDZeel)
    (nAccValue : Int) :
    (∃ q, (((payoutsOf nd a px.pprev view).map Prod.snd).foldlM (payOutput nd.toPaymentRules px)
        { view := mid, nAccValue := nAccValue }).result = .ok q ∧
      (((payoutsOf nd a px.pprev view).map Prod.snd).foldlM (payOutput nd.toPaymentRules px)
        { view := mid, nAccValue := nAccValue }).trace =
        payEvents (payoutsOf nd a px.pprev view)) ↔
      PayoutsInOrder nd.toPaymentRules px.nPOWBlockReward nAccValue view
        (payoutsOf nd a px.pprev view) := by
  by_cases hfund : ((nd.deployments px.pprev).communityFund && !a.fExcludeVote) = true
  · rw [Template.coinbase, if_pos hfund, a.readArray_writeHashes] at hmeta
    have hnodup := nodup_payoutsOf nd a px.pprev view
    rw [← payoutsInOrder_iff_of_keeps hkeeps,
      ← matched_iff [] (payoutsOf nd a px.pprev view) hnodup]
    exact payouts_matched_iff hmeta _ _ (fun e he => ready_of_mem_payoutsOf hkeeps he) hnodup rfl
  · have hnone : payoutsOf nd a px.pprev view = [] := by rw [payoutsOf, if_neg hfund]
    rw [hnone]
    exact iff_of_true ⟨_, rfl, rfl⟩ ⟨by simp, .nil, by simp⟩

/-! ## The transactions before the coinbase -/

variable [G1Group G]

/-- A transaction adds objects where there are none. -/
theorem DaoAdded.keeps {tx : CTransaction G} {view' : DaoView} (h : DaoAdded nd x tx view view') :
    view.Keeps view' := by
  constructor
  · intro id p hp
    rcases h.proposals with hsame | ⟨_, hmissing, q, hq, _, _, hassign⟩
    · rw [DaoView.getProposal, hsame]
      exact hp
    · rw [DaoView.getProposal, hassign, OrderedMap.find?_assign_of_ne]
      · exact hp
      · rintro rfl
        rw [hq, hmissing] at hp
        cases hp
  · intro id p hp
    rcases h.requests with hsame | ⟨_, hmissing, q, hq, _, _, hassign⟩
    · rw [DaoView.getPaymentRequest, hsame]
      exact hp
    · rw [DaoView.getPaymentRequest, hassign, OrderedMap.find?_assign_of_ne]
      · exact hp
      · rintro rfl
        rw [hq, hmissing] at hp
        cases hp

variable [DecidableEq G]

theorem connectTransactions_keeps {view : CStateView G} {s : ConnectLocals G}
    (h : (connectTransactions nd x view).result = .ok s) :
    view.toDaoView.Keeps s.view.toDaoView := by
  refine connectTransactions_relates ?_ ?_ (fun h => (connectDao_ok h).keeps) h
  · intro v₁ v₂ v₃ h h'
    exact ⟨fun id p hp => h'.proposals id p (h.proposals id p hp),
      fun id p hp => h'.requests id p (h.requests id p hp)⟩
  · intro v v' honly
    rw [honly]
    exact ⟨fun _ _ => id, fun _ _ => id⟩

/-- **The payouts of a new coinbase.**  They pass `ConnectBlock` exactly if the reward fits, no
request for nothing comes before one with an amount, and the addresses are right. -/
theorem payouts_connected_iff (nd : ChainNode G) (a : BlockAssembler nd) (t : Template)
    (x : BlockContext G) (view : CStateView G) (rest : List (CTransaction G))
    (s : ConnectLocals G) (hvtx : x.block.vtx = t.coinbase nd a x.pprev view.toDaoView :: rest)
    (hs : (connectTransactions nd x view).result = .ok s) :
    PayoutsPass nd x s (t.coinbase nd a x.pprev view.toDaoView)
        (t.heading nd a x.pprev view.toDaoView) (payoutsOf nd a x.pprev view.toDaoView) ↔
      t.Fits nd x s.nFees (t.coinbase nd a x.pprev view.toDaoView) view.toDaoView
        (payoutsOf nd a x.pprev view.toDaoView) := by
  have hkeeps := connectTransactions_keeps hs
  constructor
  · rintro ⟨hheading, c, hok, htrace, _⟩
    obtain ⟨coinbase, rest', q, hvtx', hrun, _, htrace'⟩ := connectCoinbase_ok hok
    obtain rfl := (List.cons.inj (hvtx.symm.trans hvtx')).1
    have hlow := reward_low_of_heading hrun hheading
    rw [payOutputs_coinbase_of_low hlow] at hrun htrace'
    exact ⟨hlow, (payoutsOf_loop_iff t _ hkeeps rfl _).mp ⟨q, hrun, htrace'.symm.trans htrace⟩⟩
  · rintro ⟨hlow, horder⟩
    have hloop := (payoutsOf_loop_iff t
      (x.payment nd s.nFees (t.coinbase nd a x.pprev view.toDaoView)) hkeeps rfl _).mpr horder
    have hpprev : (x.payment nd s.nFees (t.coinbase nd a x.pprev view.toDaoView)).pprev =
      x.pprev := rfl
    rw [hpprev, ← payOutputs_coinbase_of_low hlow] at hloop
    obtain ⟨q, hrun, htrace⟩ := hloop
    refine ⟨?_, { s with view := { s.view with toDaoView := q.view } }, ?_, ?_, ?_⟩
    · rw [payOutputs_heading, payOutput_of_low (by simpa using hlow)]
      rfl
    · rw [connectCoinbase_eq hvtx, Traced.bind_eq_ok_iff]
      exact ⟨q, hrun, rfl⟩
    · rw [connectCoinbase_eq hvtx, Traced.trace_bind_of_ok hrun]
      simpa using htrace
    · intro e he hpos
      exact paid_of_payEvents hrun htrace he hpos
        (hkeeps.requests _ _ (mem_payoutsOf he).1)

end Connect

/-! ## Two requests -/

namespace TwoRequests

/-- A chain with the fund, where an array is a list of strings after commas. -/
def chain : ChainNode (ZMod groupOrder) :=
  { fixedChain true { communityFund := true } with
    readArray := fun s => some ((s.splitOn 0x2c).tail.map .str) }

theorem comma_not_mem_hashText (hash : Uint256) : 0x2c ∉ hashText hash := by
  intro hmem
  have hdigit := ((hexStr_digits (toBE 32 hash.toNat)).1 0x2c hmem).1
  exact absurd hdigit (by decide)

/-- An address is the script itself. -/
def assembler : BlockAssembler chain where
  getScriptForDestination := id
  writeHashes l := [0x2c].intercalate ([] :: l.map hashText)
  readArray_writeHashes := by
    intro l
    have hsplit : ([0x2c].intercalate ([] :: l.map hashText)).splitOn 0x2c =
        [] :: l.map hashText := by
      apply List.splitOn_intercalate
      · intro t ht
        rcases List.mem_cons.mp ht with rfl | ht
        · exact List.not_mem_nil
        · obtain ⟨hash, _, rfl⟩ := List.mem_map.mp ht
          exact comma_not_mem_hashText hash
      · exact List.cons_ne_nil _ _
    show some (((([0x2c].intercalate ([] :: l.map hashText)).splitOn 0x2c).tail).map _) = _
    rw [hsplit, List.tail_cons, List.map_map]
    rfl

def request (hash : Uint256) (nAmount : Int) : CPaymentRequest :=
  { hash := hash, nAmount := nAmount, proposalhash := 7, mapState := [(3, .accepted)] }

/-- A view with two accepted requests of one proposal. -/
def view (first second : Int) : CStateView (ZMod groupOrder) :=
  { proposals := OrderedMap.assign
      { hash := 7, ownerAddress := [op1], mapState := [(2, .accepted)] } ∅
    paymentRequests := OrderedMap.assign (request 6 second)
      (OrderedMap.assign (request 5 first) ∅) }

def template : Template :=
  { scriptPubKeyIn := [op1], fProofOfStake := false, nFees := 0, commitment := none, nTime := 0 }

/-- The block of height ten that the template becomes. -/
def block (first second : Int) : BlockContext (ZMod groupOrder) :=
  .of { vtx := [template.coinbase chain assembler (fixedIndex 9) (view first second).toDaoView] }
    (fixedIndex 10) (fixedIndex 9) (view first second) true false

theorem payoutsOf_first : payoutsOf chain assembler (fixedIndex 9) (view 10 0).toDaoView =
    [(request 5 10, { nValue := 10, scriptPubKey := [op1] }),
      (request 6 0, { nValue := 0, scriptPubKey := [op1] })] := by
  decide +kernel

theorem payouts_connected_last :
    ∃ s, (connectTransactions chain (block 10 0) (view 10 0)).result = .ok s ∧
      PayoutsPass chain (block 10 0) s
        (template.coinbase chain assembler (fixedIndex 9) (view 10 0).toDaoView)
        (template.heading chain assembler (fixedIndex 9) (view 10 0).toDaoView)
        (payoutsOf chain assembler (fixedIndex 9) (view 10 0).toDaoView) := by
  have hrun : (connectTransactions chain (block 10 0) (view 10 0)).result.map
      ConnectLocals.nFees = .ok 0 := by decide +kernel
  obtain ⟨s, hs, hfees⟩ := Except.exists_of_map_eq_ok hrun
  refine ⟨s, hs, (payouts_connected_iff chain assembler template (block 10 0) (view 10 0) [] s rfl
    hs).mpr ?_⟩
  have hreward : ((block 10 0).payment chain s.nFees (template.coinbase chain assembler
      (block 10 0).pprev (view 10 0).toDaoView)).nPOWBlockReward = 50 * coin := by
    rw [hfees]
    decide +kernel
  have hown : (template.rewardOutput chain (fixedIndex 9)).nValue = 50 * coin := by
    decide +kernel
  refine ⟨.inl (hown.trans hreward.symm).le, ?_⟩
  show PayoutsInOrder _ _ (template.rewardOutput chain (fixedIndex 9)).nValue _
    (payoutsOf chain assembler (fixedIndex 9) (view 10 0).toDaoView)
  rw [payoutsOf_first, hreward, hown]
  refine ⟨?_, ?_, ?_⟩
  · rintro _ ⟨⟩ _
    decide
  · simp
  · intro e he hpos
    simp only [List.mem_cons, List.not_mem_nil, or_false] at he
    obtain rfl | rfl := he
    · exact ⟨_, rfl, rfl⟩
    · exact absurd hpos (by decide)

/-- A request for nothing in front of the other one. -/
theorem payout_rejected :
    (connectTransactions chain (block 0 10) (view 0 10)).result.isOk = true ∧
      (connectTransactions chain (block 0 10) (view 0 10) >>=
          connectCoinbase chain (block 0 10)).result.map (fun _ => ()) =
        .error (.reject 100 0 "") := by
  decide +kernel

end TwoRequests

end Navcoin
