import Navcoin.Dao.Json
import Navcoin.Dao.StateMap

/-!
# What the coinbase pays

The loop of `ConnectBlock` over the outputs of the coinbase.  Beyond the reward of the block an
output is accepted only if it pays the payment request that the next string of a JSON array
names; the request is then in state `PAID`.

* `checkPayment_ok`: what is checked of a payment;
* `payOutput_ok`: what an output does to the view and to the events.
-/

namespace Navcoin

/-- The rules of payments: chain parameters, the block index and the reading of addresses. -/
structure PaymentRules where
  mapBlockIndex : BlockMap
  nHeightv452Fork : Int
  nCommunityFundMinAge : Int
  /-- the address of `ExtractDestination` as a string -/
  extractDestination : CScript → Option Bytes

/-- What the loop reads of the block. -/
structure PaymentContext where
  pindex : CBlockIndex
  pprev : CBlockIndex
  nPOWBlockReward : Int
  /-- the array in `strDZeel`, if there is one -/
  metadata : Option (List JsonValue)

structure PaymentLocals where
  view : DaoView
  nPaymentRequestsCount : Nat := 0
  nAccValue : Int := 0

variable {G : Type}
variable {r : PaymentRules} {x : PaymentContext} {s s' : PaymentLocals} {o : CTxOut G}
  {view : DaoView} {vout : List (CTxOut G)}

namespace PaymentContext

def fv452Fork (r : PaymentRules) (x : PaymentContext) : Bool := x.pprev.nHeight ≥ r.nHeightv452Fork

/-- Accepted for long enough.  After the fork the last state is `ACCEPTED`, so there is a
block that set it. -/
def mature (r : PaymentRules) (x : PaymentContext) (prequest : CPaymentRequest) : Bool :=
  match prequest.mapState.getLastStateBlockIndexForState r.mapBlockIndex .accepted with
  | none => false
  | some pblockindex => x.pprev.nHeight - pblockindex.nHeight > r.nCommunityFundMinAge

end PaymentContext

/-- The request in state `PAID`. -/
def CPaymentRequest.paid (prequest : CPaymentRequest) (pindex : CBlockIndex) : CPaymentRequest :=
  { prequest with mapState := prequest.mapState.setState pindex .paid }

/-- Find the request that an output pays and compare. -/
def checkPayment (r : PaymentRules) (x : PaymentContext) (s : PaymentLocals) (o : CTxOut G) :
    Except Failure (Uint256 × CPaymentRequest) :=
  match x.metadata.bind fun metadata => metadata[s.nPaymentRequestsCount]? with
  | some (.str str) =>
    match s.view.getPaymentRequest (uint256S str) with
    | none => .error (.reject 100 0 "")
    | some prequest =>
      match s.view.getProposal prequest.proposalhash, r.extractDestination o.scriptPubKey with
      | some proposal, some address => do
        Except.rejectIf (o.nValue ≠ prequest.nAmount ∨
          (x.fv452Fork r = true ∧ prequest.getLastState r.mapBlockIndex ≠ .accepted) ∨
          proposal.getPaymentAddress ≠ address) (.reject 100 0 "")
        Except.rejectIf (x.fv452Fork r && !x.mature r prequest) (.reject 100 0 "")
        pure (uint256S str, prequest)
      | _, _ => .error (.reject 100 0 "")
  | _ => .error (.reject 100 0 "")

/-- One output of the coinbase. -/
def payOutput (r : PaymentRules) (x : PaymentContext) (s : PaymentLocals) (o : CTxOut G) :
    Traced (Event G) Failure (PaymentLocals) :=
  let nAccValue := s.nAccValue + o.nValue
  if nAccValue > x.nPOWBlockReward && o.nValue > 0 then do
    let found ← Traced.ofExcept (checkPayment r x s o)
    Traced.emit (.pay found.1 o)
    pure { view := s.view.setPaymentRequest (found.2.paid x.pindex),
           nPaymentRequestsCount := s.nPaymentRequestsCount + 1, nAccValue := nAccValue }
  else pure { s with nAccValue := nAccValue }

def payOutputs (r : PaymentRules) (x : PaymentContext) (view : DaoView)
    (vout : List (CTxOut G)) : Traced (Event G) Failure (PaymentLocals) :=
  vout.foldlM (payOutput r x) { view := view }

/-! ## One payment -/

/-- What holds of an output that pays a request. -/
structure PaymentOk (r : PaymentRules) (x : PaymentContext) (view : DaoView)
    (prid : Uint256) (prequest : CPaymentRequest) (o : CTxOut G) : Prop where
  request : view.getPaymentRequest prid = some prequest
  amount : o.nValue = prequest.nAmount
  address : ∃ proposal, view.getProposal prequest.proposalhash = some proposal ∧
    r.extractDestination o.scriptPubKey = some proposal.getPaymentAddress
  accepted : x.fv452Fork r = true → prequest.getLastState r.mapBlockIndex = .accepted
  mature : x.fv452Fork r = true → x.mature r prequest = true

theorem checkPayment_ok {found : Uint256 × CPaymentRequest} (h : checkPayment r x s o = .ok found) :
    (∃ str, (x.metadata.bind fun metadata => metadata[s.nPaymentRequestsCount]?) =
      some (.str str) ∧ found.1 = uint256S str) ∧ PaymentOk r x s.view found.1 found.2 o := by
  unfold checkPayment at h
  split at h
  · next str hstr =>
    split at h
    · cases h
    · next prequest hrequest =>
      split at h
      · next proposal address hproposal haddress =>
        simp only [Except.bind_eq_ok_iff, Except.rejectIf_eq_ok_iff, exists_const,
          Except.pure_eq_ok_iff, not_or, not_and, not_not, Bool.and_eq_true, Bool.not_eq_true',
          Bool.not_eq_false] at h
        obtain ⟨⟨hamount, hstate, heq⟩, hmature, rfl⟩ := h
        exact ⟨⟨str, hstr, rfl⟩, hrequest, hamount, ⟨proposal, hproposal, heq ▸ haddress⟩, hstate,
          hmature⟩
      · cases h
  · cases h

/-- Paying twice in one block leaves the same request. -/
theorem CPaymentRequest.paid_paid (p : CPaymentRequest) (pindex : CBlockIndex) :
    (p.paid pindex).paid pindex = p.paid pindex := by
  simp only [CPaymentRequest.paid, StateMap.setState, AssocMap.assign_assign]

theorem CPaymentRequest.isNull_paid (p : CPaymentRequest) (pindex : CBlockIndex) :
    (p.paid pindex).isNull = false := by
  have hne : (p.paid pindex).mapState ≠ [] := AssocMap.assign_ne_nil _ _ _
  simp [CPaymentRequest.isNull, List.isEmpty_iff, hne]

@[simp] theorem CPaymentRequest.hash_paid (p : CPaymentRequest) (pindex : CBlockIndex) :
    (p.paid pindex).hash = p.hash := rfl

/-! ## The loop -/

/-- The payments among the events. -/
def payments (tr : List (Event G)) : List (Uint256 × CTxOut G) :=
  tr.filterMap fun
    | .pay prid o => some (prid, o)
    | _ => none

@[simp] theorem payments_nil : payments ([] : List (Event G)) = [] := rfl

@[simp] theorem payments_append (l l' : List (Event G)) :
    payments (l ++ l') = payments l ++ payments l' := by
  simp [payments]

@[simp] theorem payments_pay (prid : Uint256) (o : CTxOut G) :
    payments [.pay prid o] = [(prid, o)] := rfl

theorem payOutput_ok (h : (payOutput r x s o).result = .ok s') :
    s'.nAccValue = s.nAccValue + o.nValue ∧
      ((s.nAccValue + o.nValue ≤ x.nPOWBlockReward ∨ o.nValue ≤ 0) ∧ s'.view = s.view ∧
          (payOutput r x s o).trace = [] ∨
        0 < o.nValue ∧ ∃ prid p, PaymentOk r x s.view prid p o ∧
          s'.view = s.view.setPaymentRequest (p.paid x.pindex) ∧
          (payOutput r x s o).trace = [.pay prid o]) := by
  simp only [payOutput] at h ⊢
  split at h
  · next htest =>
    simp only [Bool.and_eq_true, decide_eq_true_eq] at htest
    have hrun := h
    simp only [Traced.bind_eq_ok_iff, Traced.result_ofExcept, Traced.result_emit] at hrun
    obtain ⟨found, hfound, _, _, hs'⟩ := hrun
    cases hs'
    refine ⟨rfl, .inr ⟨htest.2, found.1, found.2, (checkPayment_ok hfound).2, rfl, ?_⟩⟩
    rw [if_pos (by simpa using htest), Traced.trace_bind_of_ok hfound,
      Traced.trace_bind_of_ok (Traced.result_emit _)]
    simp
  · next htest =>
    cases h
    refine ⟨rfl, .inl ⟨?_, rfl, by rw [if_neg htest]; rfl⟩⟩
    simp only [Bool.and_eq_true, decide_eq_true_eq, not_and_or] at htest
    omega

/-- Payments touch nothing but requests. -/
theorem payOutputs_frame (h : (payOutputs r x view vout).result = .ok s) :
    s.view = { view with paymentRequests := s.view.paymentRequests } := by
  refine Traced.foldlM_ok_invariant
    (fun _ (t : PaymentLocals) => t.view = { view with paymentRequests := t.view.paymentRequests })
    (payOutput r x) ?_ vout [] { view := view } s rfl h
  intro _ t o t' ht hstep
  obtain ⟨_, ⟨_, hview, _⟩ | ⟨_, prid, p, _, hview, _⟩⟩ := payOutput_ok hstep
  · rw [hview]
    exact ht
  · rw [hview, ht]
    rfl

/-- The events of the loop are payments. -/
theorem mem_trace_payOutputs (h : (payOutputs r x view vout).result = .ok s) {w : Event G}
    (hw : w ∈ (payOutputs r x view vout).trace) : ∃ prid o, w = .pay prid o := by
  obtain ⟨i, o, t, hi, hbefore, hmem⟩ := Traced.mem_trace_foldlM (payOutput r x) vout _ s h w hw
  obtain ⟨t₁, t', ht₁, hstep, _⟩ := Traced.foldlM_ok_at (payOutput r x) vout _ s h i o hi
  rw [hbefore] at ht₁
  cases ht₁
  obtain ⟨_, ⟨_, _, htrace⟩ | ⟨_, prid, _, _, _, htrace⟩⟩ := payOutput_ok hstep
  · rw [htrace] at hmem
    cases hmem
  · rw [htrace] at hmem
    exact ⟨prid, o, List.mem_singleton.mp hmem⟩

end Navcoin
