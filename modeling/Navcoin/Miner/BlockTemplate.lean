import Mathlib.Data.List.Sort
import Navcoin.Lib.Worklist
import Navcoin.Mempool.Pool
import Navcoin.Validation.CheckBlock

/-!
# Choosing the transactions of a block

`BlockAssembler` in `miner.cpp`: the private transactions of the two pools are merged into one,
then transactions are taken by priority, then packages by the fee rate with ancestors.  The loops
have enough rounds for every pool that is consistent, and an assertion that fails ends the run
without a block.
-/

namespace Navcoin

open Worklist

variable {G : Type}

/-! ## Limits and context -/

def maxBlockSerializedSize : Nat := 4000000
def maxBlockWeight : Nat := 8000000
def defaultBlockMaxSize : Nat := 750000
def defaultBlockMaxWeight : Nat := 3000000
def locktimeThreshold : Nat := 500000000

/-- The limits that the constructor leaves. -/
structure BlockLimits where
  nBlockMaxWeight : Nat
  nBlockMaxSize : Nat
  weight_ge : 4000 ≤ nBlockMaxWeight
  size_ge : 1000 ≤ nBlockMaxSize

/-- The constructor of `BlockAssembler`, from `-blockmaxweight` and `-blockmaxsize`. -/
def BlockLimits.ofArgs (blockmaxweight blockmaxsize : Option Nat) : BlockLimits :=
  let nBlockMaxSize := blockmaxsize.getD
    (if blockmaxweight.isSome then maxBlockSerializedSize else defaultBlockMaxSize)
  let nBlockMaxWeight := blockmaxweight.getD
    (if blockmaxsize.isSome then nBlockMaxSize * witnessScaleFactor % 2 ^ 32
      else defaultBlockMaxWeight)
  { nBlockMaxWeight := max 4000 (min (maxBlockWeight - 4000) nBlockMaxWeight)
    nBlockMaxSize := max 1000 (min (maxBlockSerializedSize - 1000) nBlockMaxSize)
    weight_ge := le_max_left _ _
    size_ge := le_max_left _ _ }

/-- What the assembler reads of the chain and of the arguments.  Witness data is not part of a
transaction here: its presence, and the size with it, are given. -/
structure AssemblerContext (G : Type) where
  limits : BlockLimits := .ofArgs none none
  /-- `-blockprioritysize` -/
  blockprioritysize : Nat := 0
  /-- `minRelayTxFee`, per 1000 bytes -/
  minRelayTxFee : Int
  fIncludeWitness : Bool
  fProofOfStake : Bool
  nHeight : Int
  nLockTimeCutoff : Int
  /-- of `chainActive.Tip()` -/
  nPrivateMoneySupply : Int
  getSerializeSize : CTransaction G → Nat
  hasWitness : CTransaction G → Bool
  combineBLSCTTransactions : List (CTransaction G) → Option (CTransaction G)

/-- The template and the state of the assembler. -/
structure CBlockTemplate (G : Type) where
  vtx : List (CTransaction G)
  vTxFees : List Int
  vTxSigOpsCost : List Int
  nBlockSize : Nat
  nBlockWeight : Nat
  nBlockTx : Nat
  nBlockSigOpsCost : Int
  nFees : Int
  inBlock : KeySet Uint256
  lastFewTxs : Nat
  blockFinished : Bool

/-- `resetBlock`, and the place of the coinbase. -/
def resetBlock : CBlockTemplate G :=
  { vtx := [{}], vTxFees := [-1], vTxSigOpsCost := [-1], nBlockSize := 1000, nBlockWeight := 4000,
    nBlockTx := 0, nBlockSigOpsCost := 400, nFees := 0, inBlock := ∅, lastFewTxs := 0,
    blockFinished := false }

/-! ## Tests -/

def isFinalTx (tx : CTransaction G) (nBlockHeight nBlockTime : Int) : Bool :=
  if tx.nLockTime.toNat = 0 then true
  else if (tx.nLockTime.toNat : Int) <
      (if tx.nLockTime.toNat < locktimeThreshold then nBlockHeight else nBlockTime) then true
  else if tx.isBLSCT then true
  else tx.vin.all fun txin => txin.nSequence == 0xffffffff

/-- `CFeeRate::GetFee`; `none` is the failed assertion on a size that does not fit. -/
def getFeeFor (nSatoshisPerK nBytes : Int) : Option Int :=
  if nBytes < 0 then none
  else
    let nFee := Int.tdiv (nSatoshisPerK * nBytes) 1000
    if nFee = 0 ∧ nBytes ≠ 0 then some (Int.sign nSatoshisPerK) else some nFee

namespace CBlockTemplate

variable (ctx : AssemblerContext G) (pool : CTxMemPool G) (s : CBlockTemplate G)

def isStillDependent (iter : Uint256) : Bool :=
  (pool.getMemPoolParents iter).entries.any fun parent => parent ∉ s.inBlock.entries

def onlyUnconfirmed (testSet : KeySet Uint256) : KeySet Uint256 :=
  testSet.filter fun it => it ∉ s.inBlock.entries

def testPackage (packageSize packageSigOpsCost : Int) : Bool :=
  if toUint64 (s.nBlockWeight + witnessScaleFactor * packageSize) ≥ ctx.limits.nBlockMaxWeight then
    false
  else if toUint64 (s.nBlockSigOpsCost + packageSigOpsCost) ≥ maxBlockSigopsCost then false
  else true

/-- The loop of `TestPackageTransactions`, with the size the block would have. -/
def testTransactions (fNeedSizeAccounting : Bool) :
    List (CTxMemPoolEntry G) → (nPotentialBlockSize : Nat) → Bool
  | [], _ => true
  | it :: package, nPotentialBlockSize =>
    if !isFinalTx it.tx ctx.nHeight ctx.nLockTimeCutoff then false
    else if !ctx.fIncludeWitness && ctx.hasWitness it.tx then false
    else if fNeedSizeAccounting then
      if nPotentialBlockSize + ctx.getSerializeSize it.tx ≥ ctx.limits.nBlockMaxSize then false
      else testTransactions fNeedSizeAccounting package
        (nPotentialBlockSize + ctx.getSerializeSize it.tx)
    else testTransactions fNeedSizeAccounting package nPotentialBlockSize

/-- `TestForBlock`, while sizes are accounted; it marks a block that is as good as full. -/
def testForBlock (iter : CTxMemPoolEntry G) : Bool × CBlockTemplate G :=
  if s.nBlockWeight + iter.nTxWeight ≥ ctx.limits.nBlockMaxWeight then
    if s.nBlockWeight > ctx.limits.nBlockMaxWeight - 400 ∨ s.lastFewTxs > 50 then
      (false, { s with blockFinished := true })
    else if s.nBlockWeight > ctx.limits.nBlockMaxWeight - 4000 then
      (false, { s with lastFewTxs := s.lastFewTxs + 1 })
    else (false, s)
  else if s.nBlockSize + ctx.getSerializeSize iter.tx ≥ ctx.limits.nBlockMaxSize then
    if s.nBlockSize > ctx.limits.nBlockMaxSize - 100 ∨ s.lastFewTxs > 50 then
      (false, { s with blockFinished := true })
    else if s.nBlockSize > ctx.limits.nBlockMaxSize - 1000 then
      (false, { s with lastFewTxs := s.lastFewTxs + 1 })
    else (false, s)
  else if toUint64 (s.nBlockSigOpsCost + iter.sigOpCost) ≥ maxBlockSigopsCost then
    if toUint64 s.nBlockSigOpsCost > maxBlockSigopsCost - 8 then
      (false, { s with blockFinished := true })
    else (false, s)
  else (isFinalTx iter.tx ctx.nHeight ctx.nLockTimeCutoff, s)

def addToBlock (fNeedSizeAccounting : Bool) (s : CBlockTemplate G) (iter : CTxMemPoolEntry G) :
    CBlockTemplate G :=
  { s with
    vtx := s.vtx ++ [iter.tx]
    vTxFees := s.vTxFees ++ [iter.nFee]
    vTxSigOpsCost := s.vTxSigOpsCost ++ [iter.sigOpCost]
    nBlockSize := if fNeedSizeAccounting then s.nBlockSize + ctx.getSerializeSize iter.tx
      else s.nBlockSize
    nBlockWeight := s.nBlockWeight + iter.nTxWeight
    nBlockTx := s.nBlockTx + 1
    nBlockSigOpsCost := s.nBlockSigOpsCost + iter.sigOpCost
    nFees := s.nFees + iter.nFee
    inBlock := s.inBlock.assign iter.hash }

end CBlockTemplate

/-! ## The merged private transaction -/

/-- One entry of the loops of `addCombinedBLSCT`; `known` is the test that the second one adds. -/
def collectToCombine [Zero G] (c : Crypto G) (inputs : CStateView G) (known : Bool)
    (acc : Int × OrderedMap fun tx : CTransaction G => tx.getHash c) (it : CTxMemPoolEntry G) :
    Int × OrderedMap fun tx : CTransaction G => tx.getHash c :=
  if !it.tx.isBLSInput || (known && acc.2.contains (it.tx.getHash c)) then acc
  else if inputs.haveInputs it.tx then
    match it.tx.getValueOut with
    | .ok nValueOut =>
      (acc.1 + (inputs.getValueIn it.tx - nValueOut),
        if acc.2.contains (it.tx.getHash c) then acc.2 else acc.2.assign it.tx)
    -- `GetValueOut` throws, and the transaction is passed over
    | .error _ => acc
  else acc

/-- `nMovedToPublic` and `setToCombine` after both loops. -/
def setToCombine [Zero G] (c : Crypto G) (stempool mempool : CTxMemPool G)
    (inputs : CStateView G) : Int × OrderedMap fun tx : CTransaction G => tx.getHash c :=
  mempool.mapTx.entries.foldl (collectToCombine c inputs true)
    (stempool.mapTx.entries.foldl (collectToCombine c inputs false) (0, ∅))

/-- The transaction that `addCombinedBLSCT` adds. -/
def combinedBLSCT [Zero G] (c : Crypto G) (ctx : AssemblerContext G)
    (stempool mempool : CTxMemPool G) (inputs : CStateView G) : Option (CTransaction G) :=
  let collected := setToCombine c stempool mempool inputs
  if ctx.nPrivateMoneySupply + collected.1 < 0 then none
  else
    match collected.2.entries with
    | [] => none
    | [tx] => some tx
    | txs => ctx.combineBLSCTTransactions txs

def addCombinedBLSCT [Zero G] (c : Crypto G) (ctx : AssemblerContext G)
    (stempool mempool : CTxMemPool G) (inputs : CStateView G) (s : CBlockTemplate G) :
    CBlockTemplate G :=
  match combinedBLSCT c ctx stempool mempool inputs with
  | none => s
  | some tx => { s with nFees := s.nFees + tx.getFee, vtx := s.vtx ++ [tx] }

/-! ## Selection by priority -/

/-- A product of a fee and a size as `double`s. -/
def doubleProduct (fee size : Int) : ℚ :=
  BinaryRound.float64 (BinaryRound.float64 fee * BinaryRound.float64 (toUint64 size))

def compareTxMemPoolEntryByScore (a b : CTxMemPoolEntry G) : Bool :=
  let f1 := doubleProduct a.getModifiedFee b.nTxSize
  let f2 := doubleProduct b.getModifiedFee a.nTxSize
  if f1 = f2 then b.hash < a.hash else f1 > f2

/-- An element of `vecPriority`, and of `waitPriMap`. -/
structure TxCoinAgePriority (G : Type) where
  first : ℚ
  second : CTxMemPoolEntry G

def TxCoinAgePriority.hash (p : TxCoinAgePriority G) : Uint256 := p.second.hash

def txCoinAgePriorityCompare (a b : TxCoinAgePriority G) : Bool :=
  if a.first = b.first then compareTxMemPoolEntryByScore b.second a.second
  else a.first < b.first

def allowFree (dPriority : ℚ) : Bool := dPriority > (coin * 144 / 250 : Int)

/-- The variables of `addPriorityTxs`. -/
structure PriorityLocals (G : Type) where
  block : CBlockTemplate G
  vecPriority : List (TxCoinAgePriority G)
  waitPriMap : OrderedMap (TxCoinAgePriority.hash : TxCoinAgePriority G → Uint256)

/-- Those children that wait go back to the queue. -/
def wakeChildren (children : List Uint256) (l : PriorityLocals G) : PriorityLocals G :=
  children.foldl (fun l child =>
    match l.waitPriMap.find? child with
    | some wpiter => { l with
        vecPriority := wpiter :: l.vecPriority
        waitPriMap := l.waitPriMap.erase child }
    | none => l) l

variable (ctx : AssemblerContext G) (pool : CTxMemPool G)

/-- One turn of the loop of `addPriorityTxs`. -/
def priorityStep (nBlockPrioritySize : Nat) (l : PriorityLocals G) : Outcome (PriorityLocals G) :=
  if l.block.blockFinished then .stop l
  else
    match takeBest (fun a b => txCoinAgePriorityCompare b a) l.vecPriority with
    | none => .stop l
    | some (front, vecPriority) =>
      let l := { l with vecPriority }
      let iter := front.second
      if iter.hash ∈ l.block.inBlock.entries then .failed
      else if !ctx.fIncludeWitness && ctx.hasWitness iter.tx then .next l
      -- the time of the coinbase is not set yet
      else if ctx.fProofOfStake && iter.tx.nTime > 0 then .next l
      else if l.block.isStillDependent pool iter.hash then
        .next { l with waitPriMap := if l.waitPriMap.contains iter.hash then l.waitPriMap
          else l.waitPriMap.assign front }
      else
        match l.block.testForBlock ctx iter with
        | (false, block) => .next { l with block }
        | (true, block) =>
          let block := block.addToBlock ctx true iter
          if block.nBlockSize ≥ nBlockPrioritySize ∨ !allowFree front.first then
            .stop { l with block }
          else .next (wakeChildren (pool.getMemPoolChildren iter.hash).entries { l with block })

/-- More turns than either loop takes. -/
def turns : Nat :=
  (2 * pool.mapTx.entries.length + 2) * (pool.mapTx.entries.length + 1)

def addPriorityTxs (s : CBlockTemplate G) : Option (CBlockTemplate G) :=
  let nBlockPrioritySize := min ctx.limits.nBlockMaxSize ctx.blockprioritysize
  if nBlockPrioritySize = 0 then some s
  else
    let vecPriority := pool.mapTx.entries.map fun mi =>
      ⟨pool.applyPriorityDelta mi.hash (mi.getPriority ctx.nHeight), mi⟩
    (run (priorityStep ctx pool nBlockPrioritySize) (turns pool) ⟨s, vecPriority, ∅⟩).map
      PriorityLocals.block

/-! ## Selection of packages -/

structure CTxMemPoolModifiedEntry where
  iter : Uint256
  nSizeWithAncestors : Int
  nModFeesWithAncestors : Int
  nSigOpCostWithAncestors : Int
  deriving DecidableEq

def CTxMemPoolModifiedEntry.new (entry : CTxMemPoolEntry G) : CTxMemPoolModifiedEntry :=
  { iter := entry.hash, nSizeWithAncestors := entry.nSizeWithAncestors,
    nModFeesWithAncestors := entry.nModFeesWithAncestors,
    nSigOpCostWithAncestors := entry.nSigOpCostWithAncestors }

def compareModifiedEntry (a b : CTxMemPoolModifiedEntry) : Bool :=
  let f1 := doubleProduct a.nModFeesWithAncestors b.nSizeWithAncestors
  let f2 := doubleProduct b.nModFeesWithAncestors a.nSizeWithAncestors
  if f1 = f2 then a.iter < b.iter else f1 > f2

/-- `CompareTxMemPoolEntryByAncestorFee`, the same calculation on entries of the pool. -/
def compareTxMemPoolEntryByAncestorFee (a b : CTxMemPoolEntry G) : Bool :=
  compareModifiedEntry (.new a) (.new b)

abbrev ModifiedSet := OrderedMap CTxMemPoolModifiedEntry.iter

/-- The first insertion takes off the modified fee. -/
def CTxMemPoolModifiedEntry.firstInclusion (it : CTxMemPoolEntry G)
    (e : CTxMemPoolModifiedEntry) : CTxMemPoolModifiedEntry :=
  { e with
    nSizeWithAncestors := e.nSizeWithAncestors - it.nTxSize
    nModFeesWithAncestors := e.nModFeesWithAncestors - it.getModifiedFee
    nSigOpCostWithAncestors := e.nSigOpCostWithAncestors - it.sigOpCost }

/-- `update_for_parent_inclusion`, which takes off the fee without its delta. -/
def CTxMemPoolModifiedEntry.updateForParentInclusion (it : CTxMemPoolEntry G)
    (e : CTxMemPoolModifiedEntry) : CTxMemPoolModifiedEntry :=
  { e with
    nModFeesWithAncestors := e.nModFeesWithAncestors - it.nFee
    nSizeWithAncestors := e.nSizeWithAncestors - it.nTxSize
    nSigOpCostWithAncestors := e.nSigOpCostWithAncestors - it.sigOpCost }

/-- One descendant of an added transaction. -/
def updateDescendant (alreadyAdded : KeySet Uint256)
    (it : CTxMemPoolEntry G) (mapModifiedTx : ModifiedSet) (desc : Uint256) : ModifiedSet :=
  if desc ∈ alreadyAdded.entries then mapModifiedTx
  else
    match mapModifiedTx.find? desc with
    | none =>
      match pool.mapTx.find? desc with
      | none => mapModifiedTx
      | some entry =>
        mapModifiedTx.assign ((CTxMemPoolModifiedEntry.new entry).firstInclusion it)
    | some mit => mapModifiedTx.assign (mit.updateForParentInclusion it)

/-- One added transaction. -/
def updateForAdded (alreadyAdded : KeySet Uint256)
    (mapModifiedTx : ModifiedSet) (it : Uint256) : ModifiedSet :=
  match pool.mapTx.find? it with
  | none => mapModifiedTx
  | some entry =>
    (pool.calculateDescendants it ∅).entries.foldl (updateDescendant pool alreadyAdded entry)
      mapModifiedTx

def updatePackagesForAdded (alreadyAdded : KeySet Uint256)
    (mapModifiedTx : ModifiedSet) : ModifiedSet :=
  alreadyAdded.entries.foldl (updateForAdded pool alreadyAdded) mapModifiedTx

def skipMapTxEntry (s : CBlockTemplate G) (mapModifiedTx : ModifiedSet)
    (failedTx : KeySet Uint256) (it : CTxMemPoolEntry G) : Bool :=
  mapModifiedTx.contains it.hash || it.hash ∈ s.inBlock.entries || it.hash ∈ failedTx.entries ||
    it.tx.isBLSInput

/-- `CompareTxIterByAncestorCount` -/
def compareTxIterByAncestorCount (a b : CTxMemPoolEntry G) : Bool :=
  if a.nCountWithAncestors ≠ b.nCountWithAncestors then
    a.nCountWithAncestors < b.nCountWithAncestors
  else a.hash < b.hash

/-- `SortForBlock`: no entry comes after one that it is less than. -/
def sortForBlock (package : List (CTxMemPoolEntry G)) : List (CTxMemPoolEntry G) :=
  package.insertionSort fun a b => ¬ compareTxIterByAncestorCount b a

/-- The variables of `addPackageTxs`. -/
structure PackageLocals (G : Type) where
  block : CBlockTemplate G
  mapModifiedTx : ModifiedSet
  failedTx : KeySet Uint256
  /-- what `mi` has still to walk, by the fee rate with ancestors -/
  remaining : List (CTxMemPoolEntry G)

/-- The transaction to evaluate. -/
structure PackageChoice where
  values : CTxMemPoolModifiedEntry
  fUsingModified : Bool

/-- The next entry from the pool, or the best one of `mapModifiedTx`. -/
def choosePackage (l : PackageLocals G) : Option (PackageChoice × PackageLocals G) :=
  match l.remaining, takeBest compareModifiedEntry l.mapModifiedTx.entries with
  | [], none => none
  | [], some (modit, _) => some (⟨modit, true⟩, l)
  | mi :: remaining, none => some (⟨.new mi, false⟩, { l with remaining })
  | mi :: remaining, some (modit, _) =>
    if compareModifiedEntry modit (.new mi) then some (⟨modit, true⟩, l)
    else some (⟨.new mi, false⟩, { l with remaining })

/-- A failed entry of `mapModifiedTx` is taken out. -/
def failPackage (choice : PackageChoice) (l : PackageLocals G) : PackageLocals G :=
  if choice.fUsingModified then
    { l with mapModifiedTx := l.mapModifiedTx.erase choice.values.iter
             failedTx := OrderedMap.assign choice.values.iter l.failedTx }
  else l

/-- Sort a package, add it and update what depends on it. -/
def addPackage (fNeedSizeAccounting : Bool)
    (ancestors : KeySet Uint256) (l : PackageLocals G) : PackageLocals G :=
  let sortedEntries := sortForBlock (ancestors.entries.filterMap pool.mapTx.find?)
  let mapModifiedTx := sortedEntries.foldl (fun m e => m.erase e.hash) l.mapModifiedTx
  { l with
    block := sortedEntries.foldl (CBlockTemplate.addToBlock ctx fNeedSizeAccounting) l.block
    mapModifiedTx := updatePackagesForAdded pool ancestors mapModifiedTx }

/-- The entry's ancestors that are not in the block yet, and the entry. -/
def packageOf (block : CBlockTemplate G) (iter : CTxMemPoolEntry G) : KeySet Uint256 :=
  match pool.calculateMemPoolAncestors .none iter false with
  | .ok ancestors => OrderedMap.assign iter.hash (block.onlyUnconfirmed ancestors)
  -- cannot happen without limits
  | .error _ => OrderedMap.assign iter.hash ∅

/-- The tests of a chosen package, and its addition. -/
def tryPackage (fNeedSizeAccounting : Bool)
    (choice : PackageChoice) (l : PackageLocals G) : Outcome (PackageLocals G) :=
  match pool.mapTx.find? choice.values.iter with
  | none => .failed
  | some iter =>
    if iter.hash ∈ l.block.inBlock.entries then .failed
    else
      match getFeeFor ctx.minRelayTxFee choice.values.nSizeWithAncestors with
      | none => .failed
      | some nMinFee =>
        if choice.values.nModFeesWithAncestors < nMinFee then .stop l
        else if !l.block.testPackage ctx choice.values.nSizeWithAncestors
            choice.values.nSigOpCostWithAncestors then .next (failPackage choice l)
        else
          let ancestors := packageOf pool l.block iter
          if !CBlockTemplate.testTransactions ctx fNeedSizeAccounting
              (ancestors.entries.filterMap pool.mapTx.find?) l.block.nBlockSize then
            .next (failPackage choice l)
          else .next (addPackage ctx pool fNeedSizeAccounting ancestors l)

/-- One turn of the loop of `addPackageTxs`. -/
def packageStep (fNeedSizeAccounting : Bool) (l : PackageLocals G) : Outcome (PackageLocals G) :=
  match l.remaining with
  | mi :: remaining =>
    if skipMapTxEntry l.block l.mapModifiedTx l.failedTx mi then .next { l with remaining }
    else
      match choosePackage l with
      | none => .stop l
      | some (choice, l) => tryPackage ctx pool fNeedSizeAccounting choice l
  | [] =>
    match choosePackage l with
    | none => .stop l
    | some (choice, l) => tryPackage ctx pool fNeedSizeAccounting choice l

def addPackageTxs (s : CBlockTemplate G) : Option (CBlockTemplate G) :=
  let fNeedSizeAccounting := decide (ctx.limits.nBlockMaxSize < maxBlockSerializedSize - 1000)
  let remaining := pool.mapTx.entries.insertionSort fun a b =>
    ¬ compareTxMemPoolEntryByAncestorFee b a
  (run (packageStep ctx pool fNeedSizeAccounting) (turns pool)
    ⟨s, updatePackagesForAdded pool s.inBlock ∅, ∅, remaining⟩).map PackageLocals.block

/-! ## The block -/

/-- The coinbase and its numbers, which `CreateNewBlock` fills in at the end. -/
def CBlockTemplate.finish (coinbaseTx : CTransaction G) (nSigOps : Nat) (s : CBlockTemplate G) :
    CBlockTemplate G :=
  { s with
    vtx := s.vtx.set 0 coinbaseTx
    vTxFees := s.vTxFees.set 0 (-s.nFees)
    vTxSigOpsCost := s.vTxSigOpsCost.set 0 (witnessScaleFactor * nSigOps) }

/-- The transactions of `CreateNewBlock`.  The coinbase is made from the fees. -/
def createNewBlock [Zero G] (c : Crypto G) (ctx : AssemblerContext G)
    (stempool mempool : CTxMemPool G) (inputs : CStateView G)
    (coinbaseFor : Int → CTransaction G) (getLegacySigOpCount : CTransaction G → Nat) :
    Option (CBlockTemplate G) := do
  let s ← addPriorityTxs ctx mempool (addCombinedBLSCT c ctx stempool mempool inputs resetBlock)
  let s ← addPackageTxs ctx mempool s
  some (s.finish (coinbaseFor s.nFees) (getLegacySigOpCount (coinbaseFor s.nFees)))

end Navcoin
