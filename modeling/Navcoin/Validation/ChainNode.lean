import Navcoin.Dao.CoinbasePayments
import Navcoin.Dao.Transactions
import Navcoin.Dao.VoteScripts
import Navcoin.Validation.CheckBlock

/-!
# The node that connects blocks

The chain parameters and the parts of the node that are not followed, the rewards of a block, and
what connection reads of a block; at the end a concrete chain.
-/

namespace Navcoin

/-- The node with its chain parameters and the parts that are not followed here: targets and
kernels of proof of stake, scripts and sequence locks, transactions on disk, JSON. -/
structure ChainNode (G : Type) extends BlockNode G, PaymentRules, DaoNode where
  hashGenesisBlock : Uint256
  nLastPOWBlock : Int
  nCommunityFundAmount : Int
  nCoinbaseTimeActivationHeight : Int
  nDailyBlockCount : Int
  getNextTargetRequired : CBlockIndex → Bool → UInt32
  checkProofOfStake : CBlockIndex → CTransaction G → UInt32 → CStateView G → Bool
  transactionGetCoinAge : CTransaction G → CStateView G → Option Int
  /-- the value of `nCoinAge` when it was never set -/
  indeterminateCoinAge : Int
  computeNextStakeModifier : CBlockIndex → Bool
  /-- the chain is below the height of BIP34 -/
  belowBIP34 : CBlockIndex → Bool
  /-- `GetTransaction`, from the index or from disk -/
  getTransaction : Uint256 → CStateView G → Option (CTransaction G)
  /-- the array that a string holds as JSON -/
  readArray : Bytes → Option (List JsonValue)
  sequenceLocks : CTransaction G → CStateView G → CBlockIndex → Bool
  getTransactionSigOpCost : CTransaction G → CStateView G → Nat
  /-- the scripts of the inputs, and the time of what they spend -/
  scriptChecks : CTransaction G → CStateView G → Except Failure Unit

variable {G : Type}

/-! ## Rewards -/

def getBlockSubsidy (nd : ChainNode G) (nHeight : Int) : Int :=
  if nHeight = 1 then 59800000 * coin
  else if nHeight ≤ nd.nLastPOWBlock then 50 * coin
  else 0

def getFundContributionPerBlock (view : CStateView G) : Nat :=
  view.param .generationPerBlock * view.param .fundPercentPerBlock % 2 ^ 64 / 10000

def getStakingRewardPerBlock (view : CStateView G) : Nat :=
  toUint64 (view.param .generationPerBlock - getFundContributionPerBlock view)

def maxMintProofOfStake : Int := coin / 10

/-- The reward per coin and year, before static rewards. -/
def rewardCoinYear (nd : ChainNode G) (d : Deployments) (nHeight : Int) : Int :=
  if nHeight - 1 < 7 * nd.nDailyBlockCount then maxMintProofOfStake
  else if nHeight - 1 < 365 * nd.nDailyBlockCount then maxMintProofOfStake / 2
  else if nHeight - 1 < 730 * nd.nDailyBlockCount then maxMintProofOfStake / 2
  else if d.communityFundAccumulation then 4 * maxMintProofOfStake / 10
  else maxMintProofOfStake / 2

def getProofOfStakeReward (nd : ChainNode G) (nHeight nCoinAge nFees : Int)
    (pindexPrev : CBlockIndex) (view : CStateView G) : Int :=
  let d := nd.deployments pindexPrev
  let nFees := if d.burnFees then 0 else nFees
  let nSubsidy := if d.staticReward then toInt64 (UInt64.ofNat (getStakingRewardPerBlock view))
    else (nCoinAge * rewardCoinYear nd d nHeight).tdiv 365
  nSubsidy + nFees

/-! ## What connection reads of a block -/

/-- The coinstake of a proof-of-stake block. -/
def CBlock.coinStake (block : CBlock G) : Option (CTransaction G) :=
  match block.vtx with
  | _ :: stake :: _ => if stake.isCoinStake then some stake else none
  | _ => none

/-- `fStakerIsColdStakingv2` -/
def CBlock.stakerIsColdStakingv2 (block : CBlock G) : Bool :=
  block.coinStake.any fun stake => (stake.vout[1]?).any fun o => o.scriptPubKey.isColdStakingv2

/-- What connection reads of the block. -/
structure BlockContext (G : Type) where
  block : CBlock G
  pindex : CBlockIndex
  pprev : CBlockIndex
  fScriptChecks : Bool
  fJustCheck : Bool
  nFundContributionPerBlock : Int
  /-- the view at the start -/
  start : CStateView G

/-- The context of a block on top of the view. -/
def BlockContext.of (block : CBlock G) (pindex pprev : CBlockIndex) (view : CStateView G)
    (fScriptChecks fJustCheck : Bool) : BlockContext G :=
  { block, pindex, pprev, fScriptChecks, fJustCheck,
    nFundContributionPerBlock := getFundContributionPerBlock view, start := view }

namespace BlockContext

def deployed (nd : ChainNode G) (x : BlockContext G) : Deployments := nd.deployments x.pprev

/-- The script that the first input of a transaction spends. -/
def spentScript (prev : Uint256 → Option (CTransaction G)) (tx : CTransaction G) :
    Option CScript :=
  tx.vin.head?.bind fun i => (prev i.prevout.hash).bind fun txPrev =>
    (txPrev.vout[i.prevout.n.toNat]?).map CTxOut.scriptPubKey

/-- `stakerScript`, which is empty unless cold staking v2 is deployed. -/
def stakerScript (nd : ChainNode G) (x : BlockContext G) : Option Bytes :=
  match x.block.coinStake with
  | none => some []
  | some stake =>
    if (x.deployed nd).coldStakingv2 then
      (spentScript (nd.getTransaction · x.start) stake).map CScript.getStakerScript
    else some []

/-- Votes of the block are counted unless its nonce excludes them. -/
def countsVotes (x : BlockContext G) : Bool :=
  !(x.pindex.nNonce &&& 1 != 0 && !x.block.stakerIsColdStakingv2)

end BlockContext

/-! ## A concrete chain -/

/-- A node for concrete runs, on `fixedBls`.  The block with hash `n` has height `n`, whatever
is not followed passes, and an address is the script itself. -/
def fixedChain (answer : Bool) (d : Deployments) : ChainNode (ZMod groupOrder) :=
  { fixedNode answer with
    checkProofOfWork := fun _ => true
    blockMerkleRoot := fun block => (block.hashMerkleRoot, false)
    verifyStakerSignature := fun _ => true
    getLegacySigOpCount := fun _ => 0
    mapBlockIndex := fun h => some { hashBlock := h, nHeight := h.toNat }
    nHeightv452Fork := 0
    nCommunityFundMinAge := 1
    extractDestination := some
    hashGenesisBlock := 1
    nLastPOWBlock := 20000
    nCommunityFundAmount := 0
    nCoinbaseTimeActivationHeight := 20000
    nDailyBlockCount := 2880
    nConsensusChangeMinAccept := 7500
    nMinimumQuorumFirstHalf := 1 / 2
    nMinimumQuorumSecondHalf := BinaryRound.float32 (2 / 5)
    deployments := fun _ => d
    readObject := fun _ => none
    isValidAddress := fun _ => true
    isPrivateAddress := fun _ => false
    checkMessage := fun _ _ _ => true
    chainActiveContains := fun _ _ => true
    getNextTargetRequired := fun _ _ => 0
    checkProofOfStake := fun _ _ _ _ => true
    transactionGetCoinAge := fun _ _ => some 365
    indeterminateCoinAge := 0
    computeNextStakeModifier := fun _ => true
    belowBIP34 := fun _ => false
    getTransaction := fun _ _ => none
    readArray := fun s => some [.str s]
    sequenceLocks := fun _ _ _ => true
    getTransactionSigOpCost := fun _ _ => 0
    scriptChecks := fun _ _ => .ok () }

def noDeployments : Deployments := {}

/-- The block of height `n` in the concrete chain. -/
def fixedIndex (n : Nat) : CBlockIndex := { hashBlock := BitVec.ofNat 256 n, nHeight := n }

def navOutput (nValue : Int) : CTxOut (ZMod groupOrder) :=
  { nValue := nValue, scriptPubKey := [op1] }

/-- A coinbase with the given outputs and data. -/
def coinbaseOf {G : Type} (vout : List (CTxOut G)) (strDZeel : Bytes) : CTransaction G :=
  { nVersion := 2, vin := [{ prevout := ⟨0, 0xffffffff⟩, scriptSig := [0, 0] }], vout := vout,
    strDZeel := strDZeel }

end Navcoin
