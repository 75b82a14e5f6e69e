import Navcoin.Validation.CheckTxInputs
import Navcoin.Validation.ConnectVotes
import Navcoin.Validation.ExecuteProgram

/-!
# `ConnectBlock`

A block is applied to the view: of every transaction the votes are counted, it is checked against
the outputs it spends, its programs are executed, its DAO objects added and its outputs created;
then the coinbase and the reward of the staker are checked.
-/

namespace Navcoin

/-! ## One transaction -/

variable {G : Type}

structure ConnectLocals (G : Type) where
  view : CStateView G
  nFees : Int := 0
  nBLSCTPublicFees : Int := 0
  nBLSCTPrivateFees : Int := 0
  nStakeReward : Int := 0
  nSigOpsCost : Nat := 0
  nMovedToBLS : Int := 0
  nCreated : Int := 0
  nMovedToPublic : Int := 0
  nCFSupply : Int := 0
  votes : List (Bytes × Uint256) := []

/-- `GetValueOut` in the block, where an exception is not caught. -/
def valueOut (tx : CTransaction G) : Except Failure Int :=
  match tx.getValueOut with
  | .error _ => .error .exception
  | .ok n => .ok n

/-- `c && !valid`, where validation may throw: fail with `e`. -/
def requireValid (c : Bool) (valid : Except Failure Bool) (e : Failure) : Except Failure Unit :=
  if c then valid >>= fun ok => Except.rejectIf (!ok) e else .ok ()

/-- The DAO transactions are validated before anything else. -/
def checkDaoTransaction [Zero G] (nd : ChainNode G) (x : BlockContext G) (view : DaoView)
    (tx : CTransaction G) : Except Failure Unit := do
  let d := x.deployed nd
  let on := (d.communityFund || d.dao) && x.countsVotes
  let refused (reason : String) : Failure := .reject 10 0x10 reason
  requireValid (on && tx.kind == proposalVersion)
    (isValidProposal nd.toDaoNode x.pprev tx view) (refused "bad-cfund-proposal")
  requireValid (on && tx.kind == paymentRequestVersion)
    (isValidPaymentRequest nd.toDaoNode x.pprev tx view) (refused "bad-cfund-payment-request")
  Except.rejectIf (on && d.dao && tx.kind == consultationVersion &&
    !isValidConsultation nd.toDaoNode x.pprev tx view) (refused "bad-dao-consultation")
  Except.rejectIf (on && d.dao && tx.kind == answerVersion &&
    !isValidConsultationAnswer nd.toDaoNode nd.toCrypto x.pprev tx view)
    (refused "bad-dao-consultation-answer")

variable (nd : ChainNode G) (x : BlockContext G)

/-- The first look at the inputs. -/
def checkInputsPresent (view : CStateView G) (tx : CTransaction G) : Except Failure Unit := do
  Except.rejectIf (!tx.isCoinBase && !view.haveInputs tx) (dos100 "bad-txns-inputs-missingorspent")
  Except.rejectIf (!tx.isCoinBase && !nd.sequenceLocks tx view x.pindex)
    (dos100 "bad-txns-nonfinal")

/-- `nMultiplier`: contributions may be collected every so many blocks; it is an `int`. -/
def fundMultiplier (view : CStateView G) : Int :=
  let spread := view.param .fundSpreadAccumulation
  if (x.deployed nd).communityFundAccumulationSpread then
    if toUint64 x.pindex.nHeight % spread = 0 then (BitVec.ofNat 32 spread).toInt else 0
  else 1

/-- The contribution to the community fund that the coinstake has to make. -/
def requiredContribution (view : CStateView G) : Int :=
  let amount := if (x.deployed nd).communityFundAmountV2 then x.nFundContributionPerBlock
    else nd.nCommunityFundAmount
  if (x.deployed nd).communityFundAccumulation then amount * fundMultiplier nd x view else 0

def checkContribution (view : CStateView G) (tx : CTransaction G) : Except Failure Unit :=
  if (x.deployed nd).communityFundAccumulation && fundMultiplier nd x view > 0 then
    match tx.vout.getLast? with
    | none => .error .assertion
    | some o => do
      Except.rejectIf (!o.isCommunityFundContribution) (dos100 "no-cf-amount")
      Except.rejectIf (o.nValue ≠ requiredContribution nd x view) (dos100 "bad-cf-amount")
  else .ok ()

/-- The fees of a transaction, or the reward of a coinstake. -/
def addFees (s : ConnectLocals G) (tx : CTransaction G) : Except Failure (ConnectLocals G) :=
  if tx.isCoinBase then .ok s
  else if tx.isCoinStake then do
    let nValueOut ← valueOut tx
    checkContribution nd x s.view tx
    pure { s with nStakeReward := nValueOut - s.view.getValueIn tx -
      requiredContribution nd x s.view }
  else if tx.isBLSCT then
    let s := if tx.isBLSInput then { s with nBLSCTPrivateFees := s.nBLSCTPrivateFees + tx.getFee }
      else { s with nBLSCTPublicFees := s.nBLSCTPublicFees + tx.getFee }
    .ok { s with nFees := s.nFees + tx.getFee }
  else do
    let nValueOut ← valueOut tx
    pure { s with nFees := s.nFees + (s.view.getValueIn tx - nValueOut) }

section Connect

variable [G1Group G] [DecidableEq G]
variable (nd : ChainNode G) (x : BlockContext G)

/-- `CheckInputs`, with its default of nothing allowed into private outputs. -/
def checkInputs (view : CStateView G) (tx : CTransaction G) : Traced (Event G) Failure Unit := do
  checkTxInputs nd.toNode tx view (x.pprev.nHeight + 1) (x.deployed nd).xnavSer 0
  Traced.onlyIf x.fScriptChecks (Traced.ofExcept (nd.scriptChecks tx view))

/-- The inputs of a transaction, or the time of the coinbase. -/
def checkSpending (view : CStateView G) (tx : CTransaction G) : Traced (Event G) Failure Unit :=
  if tx.isCoinBase then
    Traced.rejectIf (tx.nTime < x.block.nTime ∧ x.pindex.nHeight > nd.nCoinbaseTimeActivationHeight)
      .returnFalse
  else checkInputs nd x view tx

structure OutputLocals (G : Type) where
  view : CStateView G
  nCFSupply : Int
  nCreated : Int
  nProposalFee : Int := 0

/-- A contribution to the community fund. -/
def addContribution (s : OutputLocals G) (o : CTxOut G) : OutputLocals G :=
  if o.isCommunityFundContribution then
    { s with nCFSupply := s.nCFSupply + o.nValue, nProposalFee := s.nProposalFee + o.nValue,
             nCreated := s.nCreated - o.nValue }
  else s

/-- The loop over the outputs. -/
def connectOutput (tx : CTransaction G)
    (s : OutputLocals G) (e : CTxOut G × Nat) : Traced (Event G) Failure (OutputLocals G) := do
  let s := addContribution s e.1
  let view ← executeProgram nd.toBls x.pindex.nHeight (x.deployed nd).dotNav tx s.view e
  pure { s with view := view }

/-! ## DAO objects -/

/-- `c && valid`, where validation may throw. -/
def validIf (c : Bool) (valid : Except Failure Bool) : Except Failure Bool :=
  if c then valid else .ok false

def connectProposal (tx : CTransaction G)
    (nProposalFee : Int) (view : DaoView) : Except Failure (DaoView) := do
  let valid ← validIf ((x.deployed nd).communityFund && tx.kind == proposalVersion)
    (isValidProposal nd.toDaoNode x.pprev tx view)
  if valid then do
    let proposal ← txToProposal nd.toDaoNode tx.strDZeel (tx.getHash nd.toCrypto) x.block.hash
      nProposalFee
    pure (view.addProposal proposal)
  else pure view

/-- A payment request is added when its proposal is accepted. -/
def addRequest (view : DaoView) (prequest : CPaymentRequest) : DaoView :=
  match view.getProposal prequest.proposalhash with
  | none => view
  | some proposal =>
    if proposal.getLastState nd.mapBlockIndex = .accepted then view.addPaymentRequest prequest
    else view

def connectPaymentRequest (tx : CTransaction G) (view : DaoView) : Except Failure (DaoView) := do
  let valid ← validIf (tx.kind == paymentRequestVersion)
    (isValidPaymentRequest nd.toDaoNode x.pprev tx view)
  if valid then do
    let prequest ← txToPaymentRequest nd.toDaoNode tx.strDZeel (tx.getHash nd.toCrypto)
      x.block.hash
    pure (addRequest nd view prequest)
  else pure view

/-- A consultation that is new brings its answers. -/
def addConsultationWith (view : DaoView) (c : CConsultation × List CConsultationAnswer) :
    DaoView :=
  if (view.getConsultation c.1.hash).isSome then view
  else if c.1.isRange then view.addConsultation c.1
  else c.2.foldl DaoView.addConsultationAnswer (view.addConsultation c.1)

def connectConsultation (tx : CTransaction G) (view : DaoView) : Except Failure (DaoView) :=
  if (x.deployed nd).dao && tx.kind == consultationVersion &&
      isValidConsultation nd.toDaoNode x.pprev tx view then do
    let c ← txToConsultation nd.toDaoNode nd.toCrypto tx.strDZeel (tx.getHash nd.toCrypto)
      x.block.hash x.pprev
    pure (addConsultationWith view c)
  else .ok view

/-- An answer is added when its consultation takes new ones. -/
def addAnswer (view : DaoView) (answer : CConsultationAnswer) : DaoView :=
  match view.getConsultation answer.parent with
  | none => view
  | some consultation =>
    if consultation.canHaveNewAnswers nd.toDaoRules &&
        (view.getConsultationAnswer answer.hash).isNone then
      view.addConsultationAnswer answer
    else view

def connectAnswer (tx : CTransaction G) (view : DaoView) : Except Failure (DaoView) :=
  if (x.deployed nd).dao && tx.kind == answerVersion &&
      isValidConsultationAnswer nd.toDaoNode nd.toCrypto x.pprev tx view then do
    let answer ← txToConsultationAnswer nd.toDaoNode nd.toCrypto tx.strDZeel
      (tx.getHash nd.toCrypto) x.block.hash
    pure (addAnswer nd view answer)
  else .ok view

def connectDao (tx : CTransaction G) (nProposalFee : Int)
    (view : DaoView) : Except Failure (DaoView) :=
  if (x.deployed nd).communityFund || (x.deployed nd).dao then do
    let view ← connectProposal nd x tx nProposalFee view
    let view ← connectPaymentRequest nd x tx view
    let view ← connectConsultation nd x tx view
    connectAnswer nd x tx view
  else .ok view

/-! ## The loop over the transactions -/

def addSigOps (s : ConnectLocals G) (tx : CTransaction G) : Except Failure (ConnectLocals G) := do
  let nSigOpsCost := s.nSigOpsCost + nd.getTransactionSigOpCost tx s.view
  Except.rejectIf (nSigOpsCost > maxBlockSigopsCost) (dos100 "bad-blk-sigops")
  pure { s with nSigOpsCost := nSigOpsCost }

/-- Value that leaves the public supply. -/
def addMovedToBLS (s : ConnectLocals G) (tx : CTransaction G) :
    Except Failure (ConnectLocals G) :=
  if tx.isCTOutput && !tx.isBLSInput && !tx.isCoinStake then do
    let nValueOut ← valueOut tx
    pure { s with nMovedToBLS := s.nMovedToBLS + (s.view.getValueIn tx - nValueOut) }
  else .ok s

/-- Value that is created, or comes back to the public supply. -/
def addCreated (s : ConnectLocals G) (tx : CTransaction G) : Except Failure (ConnectLocals G) := do
  let nValueOut ← valueOut tx
  let n := nValueOut - s.view.getValueIn tx
  pure (if tx.isBLSInput then
      { s with nMovedToPublic := s.nMovedToPublic + (n - s.nBLSCTPrivateFees) }
    else { s with nCreated := s.nCreated + n })

def connectOutputs (tx : CTransaction G)
    (s : ConnectLocals G) : Traced (Event G) Failure (OutputLocals G) :=
  tx.vout.zipIdx.foldlM (connectOutput nd x tx)
    { view := s.view, nCFSupply := s.nCFSupply, nCreated := s.nCreated }

/-- The checks of a transaction before its value is counted. -/
def checkBefore (view : CStateView G) (tx : CTransaction G) : Except Failure Unit := do
  checkDaoTransaction nd x view.toDaoView tx
  checkInputsPresent nd x view tx

def updateView (s : ConnectLocals G) (tx : CTransaction G) : Except Failure (ConnectLocals G) :=
  match s.view.updateCoins nd.toCrypto tx x.pindex.nHeight with
  | none => .error .assertion
  | some view => .ok { s with view := view }

/-- A transaction of the block, after its votes were counted. -/
def applyTransaction (s : ConnectLocals G)
    (tx : CTransaction G) : Traced (Event G) Failure (ConnectLocals G) := do
  Traced.ofExcept (checkBefore nd x s.view tx)
  let s ← Traced.ofExcept (addSigOps nd s tx)
  let s ← Traced.ofExcept (addFees nd x s tx)
  checkSpending nd x s.view tx
  let s ← Traced.ofExcept (addMovedToBLS s tx)
  let o ← connectOutputs nd x tx s
  let dao ← Traced.ofExcept (connectDao nd x tx o.nProposalFee o.view.toDaoView)
  let s ← Traced.ofExcept (addCreated { s with
    view := { o.view with toDaoView := dao }, nCFSupply := o.nCFSupply, nCreated := o.nCreated } tx)
  Traced.ofExcept (updateView nd x s tx)

/-- The state after the votes of a transaction. -/
def ConnectLocals.withVotes (s : ConnectLocals G) (v : VoteLocals) : ConnectLocals G :=
  { s with view := { s.view with toDaoView := v.view }, votes := v.votes }

/-- One transaction of the block. -/
def connectTransaction (s : ConnectLocals G)
    (e : CTransaction G × Nat) : Traced (Event G) Failure (ConnectLocals G) := do
  let v ← castVotes nd x s.view s.votes e
  applyTransaction nd x (s.withVotes v) e.1

/-! ## The block -/

/-- The supplies that a block index carries. -/
structure Supply where
  nCFSupply : Int := 0
  nCFLocked : Int := 0
  nPublicMoneySupply : Int := 0
  nPrivateMoneySupply : Int := 0
  deriving DecidableEq, Repr

/-- What connection leaves behind. -/
structure Connected (G : Type) where
  locals : ConnectLocals G
  supply : Supply

/-- Kernel and coin age of the coinstake; without script checks the age is not set. -/
def checkStake (view : CStateView G) : Except Failure Int :=
  match x.block.coinStake with
  | none => .ok nd.indeterminateCoinAge
  | some stake =>
    if nd.checkProofOfStake x.pprev stake x.block.nBits view then
      if x.fScriptChecks then
        match nd.transactionGetCoinAge stake view with
        | none => .error .returnFalse
        | some nCoinAge => .ok nCoinAge
      else .ok nd.indeterminateCoinAge
    else .error .returnFalse

/-- A transaction of the block would overwrite unspent outputs. -/
def overwrites (view : CStateView G) : Bool :=
  x.block.vtx.any fun tx => (view.coins (tx.getHash nd.toCrypto)).any fun coins =>
    !coins.vout.all CTxOut.isNull

def checkContext (view : CStateView G) : Except Failure Int := do
  Except.rejectIf (x.fScriptChecks ∧
      x.block.nBits ≠ nd.getNextTargetRequired x.pprev x.block.isProofOfStake)
    (.reject 1 0x10 "bad-diffbits")
  let nCoinAge ← checkStake nd x view
  Except.rejectIf (!nd.computeNextStakeModifier x.pprev) (.reject 1 0x10 "bad-stake-modifier")
  Except.rejectIf (x.fJustCheck && nd.belowBIP34 x.pprev && overwrites nd x view)
    (dos100 "bad-txns-BIP30")
  Except.rejectIf (x.stakerScript nd).isNone .returnFalse
  pure nCoinAge

/-- The context of the payments: a reward is due to proof of work only. -/
def BlockContext.payment (nFees : Int) (coinbase : CTransaction G) : PaymentContext :=
  { pindex := x.pindex, pprev := x.pprev,
    nPOWBlockReward :=
      if x.block.isProofOfWork then nFees + getBlockSubsidy nd x.pindex.nHeight else 0
    metadata := nd.readArray coinbase.strDZeel }

/-- What the coinbase pays. -/
def connectCoinbase (s : ConnectLocals G) : Traced (Event G) Failure (ConnectLocals G) :=
  match x.block.vtx with
  | [] => Traced.fail .assertion
  | coinbase :: _ => do
    let p ← payOutputs nd.toPaymentRules (x.payment nd s.nFees coinbase) s.view.toDaoView
      coinbase.vout
    pure { s with view := { s.view with toDaoView := p.view } }

/-- What the coinstake pays. -/
def connectStake (nCoinAge : Int) (s : ConnectLocals G) :
    Traced (Event G) Failure (ConnectLocals G) :=
  match x.block.coinStake with
  | none => pure s
  | some stake => do
    let reward := getProofOfStakeReward nd x.pindex.nHeight nCoinAge s.nFees x.pprev s.view
    Traced.rejectIf (x.fScriptChecks ∧ s.nStakeReward > reward) (.reject 100 0 "")
    if stake.isCTOutput then do
      catchAll (verifyBLSCTBalanceOutputs nd.toBls stake false (reward - s.nStakeReward))
      pure { s with nMovedToBLS := s.nMovedToBLS + (reward - s.nStakeReward) }
    else pure s

/-- The supplies after the block, from those of the previous one. -/
def ConnectLocals.supply (s : ConnectLocals G) (prev : Supply) : Supply :=
  { nCFSupply := prev.nCFSupply + s.nCFSupply, nCFLocked := prev.nCFLocked,
    nPublicMoneySupply := prev.nPublicMoneySupply + (s.nCreated + s.nMovedToPublic -
      s.nBLSCTPublicFees),
    nPrivateMoneySupply := prev.nPrivateMoneySupply + (s.nMovedToBLS - s.nBLSCTPrivateFees -
      s.nMovedToPublic) }

def connectTransactions (view : CStateView G) : Traced (Event G) Failure (ConnectLocals G) :=
  x.block.vtx.zipIdx.foldlM (connectTransaction nd x) { view := view }

/-- The block after its own checks, when it is not the first one. -/
def connectChecked (prev : Supply) (view : CStateView G) :
    Traced (Event G) Failure (Connected G) := do
  let nCoinAge ← Traced.ofExcept (checkContext nd x view)
  let s ← connectTransactions nd x view
  castStakerVotes nd x s.view.toDaoView
  let s ← connectCoinbase nd x s
  let s ← connectStake nd x nCoinAge s
  Traced.rejectIf ((s.supply prev).nPrivateMoneySupply < 0) (.reject 100 0 "")
  pure { locals := s, supply := s.supply prev }

/-- `ConnectBlock` on the view of the previous block. -/
def connectBlock (block : CBlock G) (pindex pprev : CBlockIndex) (prev : Supply)
    (view : CStateView G) (fScriptChecks fJustCheck : Bool) :
    Traced (Event G) Failure (Connected G) := do
  Traced.ofExcept (checkBlock nd.toBlockNode block (!fJustCheck) (!fJustCheck) fScriptChecks)
  if block.hash = nd.hashGenesisBlock then
    pure { locals := { view := view }, supply := prev }
  else
    connectChecked nd (.of block pindex pprev view fScriptChecks fJustCheck) prev view

end Connect

end Navcoin
