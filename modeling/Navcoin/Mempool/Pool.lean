import Mathlib.Data.List.Lex
import Navcoin.Dao.Transactions
import Navcoin.Lib.Reachable

/-!
# The memory pool

Entries, the links between them, and the two walks over the links: `CalculateDescendants` and
`CalculateMemPoolAncestors`.

* `calculateMemPoolAncestors_noLimit`: without limits nothing is refused;
* `mem_ancestorsOf`, `mem_calculateDescendants`: the walks find the ancestors and the descendants;
* `CTxMemPool.Consistent`: what `check` asserts of the outpoints, the links and the numbers of
  ancestors;
* `Consistent.count_lt`: an ancestor has fewer ancestors.
-/

namespace Navcoin

variable {G : Type} {a b : Uint256}

/-! ## Outpoints in order -/

namespace COutPoint

/-- What `operator<` compares: the bytes of the hash as `memcmp` does, then the position. -/
def orderKey (p : COutPoint) : List ℕ := (writeUint256 p.hash).map UInt8.toNat ++ [p.n.toNat]

theorem orderKey_injective : Function.Injective orderKey := by
  intro a b h
  obtain ⟨hbytes, hn⟩ := List.append_inj' h rfl
  have hhash : writeUint256 a.hash = writeUint256 b.hash :=
    List.map_injective_iff.mpr (fun _ _ => UInt8.toNat_inj.mp) hbytes
  have hnat : a.hash.toNat = b.hash.toNat := by
    have hread := congrArg ofLE hhash
    rwa [writeUint256, writeUint256, ofLE_toLE_of_lt (by omega), ofLE_toLE_of_lt (by omega)]
      at hread
  rw [COutPoint.mk.injEq]
  exact ⟨BitVec.eq_of_toNat_eq hnat, UInt32.toNat_inj.mp (List.singleton_inj.mp hn)⟩

instance : LT COutPoint := ⟨fun a b => a.orderKey < b.orderKey⟩

instance : DecidableLT COutPoint := fun a b => inferInstanceAs (Decidable (a.orderKey < b.orderKey))

instance : Std.Irrefl (α := COutPoint) (· < ·) := ⟨fun a => lt_irrefl a.orderKey⟩

instance : Std.Trichotomous (α := COutPoint) (· < ·) := ⟨fun _ _ hab hba =>
  orderKey_injective (le_antisymm (not_lt.mp hba) (not_lt.mp hab))⟩

instance : Trans (α := COutPoint) (· < ·) (· < ·) (· < ·) := ⟨fun hab hbc =>
  lt_trans (α := List ℕ) hab hbc⟩

end COutPoint

/-! ## Entries and links -/

/-- A transaction of the pool.  Counts, sizes and fees are far from the bounds of their types. -/
structure CTxMemPoolEntry (G : Type) where
  tx : CTransaction G
  /-- `tx.GetHash()` -/
  hash : Uint256
  nFee : Int := 0
  nTxWeight : Nat := 0
  /-- `GetTxSize()` -/
  nTxSize : Nat := 0
  nModSize : Int := 0
  nTime : Int := 0
  entryPriority : ℚ := 0
  entryHeight : Int := 0
  inChainInputValue : Int := 0
  spendsCoinbase : Bool := false
  sigOpCost : Int := 0
  feeDelta : Int := 0
  nCountWithDescendants : Int := 1
  nSizeWithDescendants : Int := nTxSize
  nModFeesWithDescendants : Int := nFee
  nCountWithAncestors : Int := 1
  nSizeWithAncestors : Int := nTxSize
  nModFeesWithAncestors : Int := nFee
  nSigOpCostWithAncestors : Int := sigOpCost
  deriving DecidableEq

namespace CTxMemPoolEntry

def getModifiedFee (e : CTxMemPoolEntry G) : Int := e.nFee + e.feeDelta

/-- `GetPriority`; the difference of the heights is an `unsigned int`. -/
def getPriority (e : CTxMemPoolEntry G) (currentHeight : Int) : ℚ :=
  let age : ℚ := ((currentHeight - e.entryHeight) % 2 ^ 32 : Int)
  let weighted := BinaryRound.float64 (age * BinaryRound.float64 e.inChainInputValue)
  let deltaPriority := BinaryRound.float64 (weighted / e.nModSize)
  let dResult := BinaryRound.float64 (e.entryPriority + deltaPriority)
  if dResult < 0 then 0 else dResult

/-- The outpoints that are spent. -/
def spends (e : CTxMemPoolEntry G) : List COutPoint := e.tx.vin.map CTxIn.prevout

end CTxMemPoolEntry

/-- The entries next to one of the pool. -/
structure TxLinks where
  hash : Uint256
  parents : KeySet Uint256 := ∅
  children : KeySet Uint256 := ∅
  deriving DecidableEq

/-- An input marked in `mapNextTx`, with the transaction that spends it. -/
structure NextTx where
  prevout : COutPoint
  spender : Uint256
  deriving DecidableEq

/-- What `PrioritiseTransaction` recorded. -/
structure TxDelta where
  hash : Uint256
  priority : ℚ
  fee : Int
  deriving DecidableEq

/-- Transactions, links, spent outpoints and deltas.  An iterator is the hash of its transaction. -/
structure CTxMemPool (G : Type) where
  mapTx : OrderedMap (CTxMemPoolEntry.hash : CTxMemPoolEntry G → Uint256) := ∅
  mapLinks : OrderedMap TxLinks.hash := ∅
  mapNextTx : OrderedMap NextTx.prevout := ∅
  mapDeltas : OrderedMap TxDelta.hash := ∅

namespace CTxMemPool

variable (pool : CTxMemPool G)

def getMemPoolParents (it : Uint256) : KeySet Uint256 :=
  ((pool.mapLinks.find? it).map TxLinks.parents).getD ∅

def getMemPoolChildren (it : Uint256) : KeySet Uint256 :=
  ((pool.mapLinks.find? it).map TxLinks.children).getD ∅

/-- The hashes of the transactions. -/
def hashes : List Uint256 := pool.mapTx.entries.map CTxMemPoolEntry.hash

/-- A number of an entry. -/
def number (f : CTxMemPoolEntry G → Int) (it : Uint256) : Int :=
  ((pool.mapTx.find? it).map f).getD 0

/-- `GetTxSize()` of a transaction of the pool -/
def sizeOf (it : Uint256) : Int := pool.number (fun e => e.nTxSize) it

/-- The priority part of `ApplyDeltas`. -/
def applyPriorityDelta (hash : Uint256) (dPriority : ℚ) : ℚ :=
  match pool.mapDeltas.find? hash with
  | none => dPriority
  | some deltas => BinaryRound.float64 (dPriority + deltas.priority)

/-! ## The walks -/

/-- More rounds than there are transactions. -/
def rounds : Nat := pool.mapTx.entries.length + 1

theorem hashes_length_lt_rounds :
    pool.hashes.length < pool.rounds + (∅ : KeySet Uint256).entries.length := by
  rw [hashes, rounds, List.length_map]
  omega

/-- `CalculateDescendants`, which adds to a set. -/
def calculateDescendants (entryit : Uint256) (setDescendants : KeySet Uint256) : KeySet Uint256 :=
  KeySet.walk pool.getMemPoolChildren pool.rounds
    (if entryit ∈ setDescendants.entries then ∅ else OrderedMap.assign entryit ∅) setDescendants

end CTxMemPool

structure AncestorLimits where
  limitAncestorCount : Nat
  limitAncestorSize : Nat
  limitDescendantCount : Nat
  limitDescendantSize : Nat

/-- The largest `uint64_t`. -/
def nNoLimit : Nat := 2 ^ 64 - 1

def AncestorLimits.none : AncestorLimits := ⟨nNoLimit, nNoLimit, nNoLimit, nNoLimit⟩

/-- A comparison in `uint64_t`. -/
def exceeds (n : Int) (limit : Nat) : Bool := toUint64 n > limit

theorem not_exceeds_noLimit (n : Int) : ¬ exceeds n nNoLimit = true := by
  have hlt : toUint64 n < 2 ^ 64 := by
    unfold toUint64
    omega
  simp only [exceeds, nNoLimit, gt_iff_lt, decide_eq_true_eq, not_lt]
  omega

variable {e : CTxMemPoolEntry G}

namespace CTxMemPool

variable (pool : CTxMemPool G)
variable (limits : AncestorLimits)

/-- One input, when the parents are searched for. -/
def addParent (parentHashes : KeySet Uint256) (txin : CTxIn) : Except String (KeySet Uint256) :=
  if pool.mapTx.contains txin.prevout.hash then
    let parentHashes := OrderedMap.assign txin.prevout.hash parentHashes
    if exceeds (parentHashes.entries.length + 1) limits.limitAncestorCount then
      .error ("too many unconfirmed parents [limit: " ++ toString limits.limitAncestorCount ++ "]")
    else .ok parentHashes
  else .ok parentHashes

/-- The transactions of the pool that one spends from. -/
def findParents (tx : CTransaction G) : Except String (KeySet Uint256) :=
  tx.vin.foldlM (pool.addParent limits) ∅

/-- The limits at one ancestor. -/
def checkLimits (nTxSize totalSizeWithAncestors : Int) (stageit : Uint256) : Except String Unit :=
  if exceeds (pool.number CTxMemPoolEntry.nSizeWithDescendants stageit + nTxSize)
      limits.limitDescendantSize then
    .error ("exceeds descendant size limit for tx " ++ text (hashText stageit) ++ " [limit: " ++
      toString limits.limitDescendantSize ++ "]")
  else if exceeds (pool.number CTxMemPoolEntry.nCountWithDescendants stageit + 1)
      limits.limitDescendantCount then
    .error ("too many descendants for tx " ++ text (hashText stageit) ++ " [limit: " ++
      toString limits.limitDescendantCount ++ "]")
  else if exceeds totalSizeWithAncestors limits.limitAncestorSize then
    .error ("exceeds ancestor size limit [limit: " ++ toString limits.limitAncestorSize ++ "]")
  else .ok ()

/-- Stage a parent that is new. -/
def stageParent (setAncestors parentHashes : KeySet Uint256)
    (phash : Uint256) : Except String (KeySet Uint256) :=
  let parentHashes := if phash ∈ setAncestors.entries then parentHashes
    else OrderedMap.assign phash parentHashes
  if exceeds (parentHashes.entries.length + setAncestors.entries.length + 1)
      limits.limitAncestorCount then
    .error ("too many unconfirmed ancestors [limit: " ++ toString limits.limitAncestorCount ++ "]")
  else .ok parentHashes

def ancestorLoop (limits : AncestorLimits) (nTxSize : Int) : (fuel : Nat) →
    (parentHashes setAncestors : KeySet Uint256) → (totalSizeWithAncestors : Int) →
    Except String (KeySet Uint256)
  | 0, _, setAncestors, _ => .ok setAncestors
  | fuel + 1, parentHashes, setAncestors, totalSizeWithAncestors =>
    match parentHashes.entries with
    | [] => .ok setAncestors
    | stageit :: _ => do
      let setAncestors := OrderedMap.assign stageit setAncestors
      let totalSizeWithAncestors := totalSizeWithAncestors + pool.sizeOf stageit
      pool.checkLimits limits nTxSize totalSizeWithAncestors stageit
      let parentHashes ← (pool.getMemPoolParents stageit).entries.foldlM
        (stageParent limits setAncestors) (parentHashes.erase stageit)
      ancestorLoop limits nTxSize fuel parentHashes setAncestors totalSizeWithAncestors

def calculateMemPoolAncestors (entry : CTxMemPoolEntry G)
    (fSearchForParents : Bool) : Except String (KeySet Uint256) := do
  let parentHashes ← if fSearchForParents then pool.findParents limits entry.tx
    else .ok (pool.getMemPoolParents entry.hash)
  pool.ancestorLoop limits entry.nTxSize pool.rounds parentHashes ∅ entry.nTxSize

/-- The ancestors of an entry of the pool, by its links. -/
def ancestorsOf (it : Uint256) : KeySet Uint256 :=
  KeySet.walk pool.getMemPoolParents pool.rounds (pool.getMemPoolParents it) ∅

/-! ## Without limits -/

theorem addParent_noLimit (found : KeySet Uint256) (txin : CTxIn) :
    pool.addParent .none found txin = .ok (if pool.mapTx.contains txin.prevout.hash then
      OrderedMap.assign txin.prevout.hash found else found) := by
  unfold addParent
  split
  · exact if_neg (not_exceeds_noLimit _)
  · rfl

theorem findParents_noLimit (tx : CTransaction G) :
    ∃ parentHashes, pool.findParents .none tx = .ok parentHashes ∧
      ∀ h, h ∈ parentHashes.entries ↔ pool.mapTx.contains h = true ∧
        ∃ txin ∈ tx.vin, txin.prevout.hash = h := by
  -- the loop, from any set that was found before
  have hloop : ∀ (vin : List CTxIn) (found : KeySet Uint256), ∃ parentHashes,
      vin.foldlM (pool.addParent .none) found = .ok parentHashes ∧
      ∀ h, h ∈ parentHashes.entries ↔ h ∈ found.entries ∨ (pool.mapTx.contains h = true ∧
        ∃ txin ∈ vin, txin.prevout.hash = h) := by
    intro vin
    induction vin with
    | nil =>
      intro found
      exact ⟨found, rfl, by simp⟩
    | cons txin vin ih =>
      intro found
      rw [List.foldlM_cons, addParent_noLimit]
      by_cases hin : pool.mapTx.contains txin.prevout.hash = true
      · rw [if_pos hin]
        obtain ⟨parentHashes, hrun, hmem⟩ := ih (OrderedMap.assign txin.prevout.hash found)
        refine ⟨parentHashes, hrun, fun h => ?_⟩
        rw [hmem, KeySet.mem_assign, List.exists_mem_cons_iff]
        constructor
        · rintro ((rfl | h1) | ⟨h1, h2⟩)
          · exact .inr ⟨hin, .inl rfl⟩
          · exact .inl h1
          · exact .inr ⟨h1, .inr h2⟩
        · rintro (h1 | ⟨h1, h2 | h2⟩)
          · exact .inl (.inr h1)
          · exact .inl (.inl h2.symm)
          · exact .inr ⟨h1, h2⟩
      · rw [if_neg hin]
        obtain ⟨parentHashes, hrun, hmem⟩ := ih found
        refine ⟨parentHashes, hrun, fun h => ?_⟩
        rw [hmem, List.exists_mem_cons_iff]
        constructor
        · rintro (h1 | ⟨h1, h2⟩)
          · exact .inl h1
          · exact .inr ⟨h1, .inr h2⟩
        · rintro (h1 | ⟨h1, rfl | h2⟩)
          · exact .inl h1
          · exact absurd h1 hin
          · exact .inr ⟨h1, h2⟩
  obtain ⟨parentHashes, hrun, hmem⟩ := hloop tx.vin ∅
  refine ⟨parentHashes, hrun, fun h => ?_⟩
  rw [hmem]
  exact or_iff_right (KeySet.not_mem_empty h)

theorem checkLimits_noLimit (nTxSize total : Int) (it : Uint256) :
    pool.checkLimits .none nTxSize total it = .ok () :=
  (if_neg (not_exceeds_noLimit _)).trans
    ((if_neg (not_exceeds_noLimit _)).trans (if_neg (not_exceeds_noLimit _)))

theorem stageParents_noLimit (seen : KeySet Uint256) (parents : List Uint256)
    (stage : KeySet Uint256) :
    parents.foldlM (stageParent .none seen) stage =
      .ok (KeySet.stageNew seen parents stage) := by
  induction parents generalizing stage with
  | nil => rfl
  | cons phash parents ih =>
    have hstep : stageParent .none seen stage phash = .ok (if phash ∈ seen.entries then stage
        else OrderedMap.assign phash stage) := if_neg (not_exceeds_noLimit _)
    rw [List.foldlM_cons, hstep]
    exact ih _

theorem ancestorLoop_noLimit (nTxSize : Int) (fuel : Nat) (stage seen : KeySet Uint256)
    (total : Int) :
    pool.ancestorLoop .none nTxSize fuel stage seen total =
      .ok (KeySet.walk pool.getMemPoolParents fuel stage seen) := by
  induction fuel generalizing stage seen total with
  | zero => rfl
  | succ fuel ih =>
    unfold ancestorLoop KeySet.walk
    cases hstage : stage.entries with
    | nil => rfl
    | cons it rest =>
      simp only [checkLimits_noLimit, stageParents_noLimit]
      exact ih _ _ _

theorem calculateMemPoolAncestors_noLimit (entry : CTxMemPoolEntry G) :
    pool.calculateMemPoolAncestors .none entry false = .ok (pool.ancestorsOf entry.hash) :=
  pool.ancestorLoop_noLimit _ _ _ _ _

/-! ## Consistent pools -/

/-- A transaction of the pool spends an output of another. -/
def Parent (a b : Uint256) : Prop :=
  a ∈ pool.hashes ∧ ∃ e ∈ pool.mapTx.entries, e.hash = b ∧ ∃ o ∈ e.spends, o.hash = a

/-- The in-pool ancestors. -/
def Ancestor : Uint256 → Uint256 → Prop := Relation.TransGen pool.Parent

/-- What `check` asserts of the spent outpoints, the links and the ancestors; that the
transactions can be connected one after the other leaves no cycle. -/
structure Consistent : Prop where
  spends : ∀ e ∈ pool.mapTx.entries, e.spends.Nodup ∧
    ∀ o ∈ e.spends, pool.mapNextTx.find? o = some ⟨o, e.hash⟩
  parents : ∀ e ∈ pool.mapTx.entries, ∀ h,
    h ∈ (pool.getMemPoolParents e.hash).entries ↔ pool.Parent h e.hash
  children : ∀ e ∈ pool.mapTx.entries, ∀ h,
    h ∈ (pool.getMemPoolChildren e.hash).entries ↔ pool.Parent e.hash h
  count : ∀ e ∈ pool.mapTx.entries, ∀ setAncestors,
    pool.calculateMemPoolAncestors .none e true = .ok setAncestors →
      e.nCountWithAncestors = setAncestors.entries.length + 1
  size : ∀ e ∈ pool.mapTx.entries, ∀ setAncestors,
    pool.calculateMemPoolAncestors .none e true = .ok setAncestors →
      e.nSizeWithAncestors = e.nTxSize + (setAncestors.entries.map pool.sizeOf).sum
  acyclic : ∀ h, ¬ pool.Ancestor h h

variable {pool}

theorem mem_hashes {h : Uint256} : h ∈ pool.hashes ↔ ∃ e ∈ pool.mapTx.entries, e.hash = h :=
  List.mem_map

theorem mem_hashes_iff_contains {h : Uint256} :
    h ∈ pool.hashes ↔ pool.mapTx.contains h = true := by
  rw [mem_hashes, OrderedMap.contains, Option.isSome_iff_exists]
  constructor
  · rintro ⟨e, he, rfl⟩
    exact ⟨e, OrderedMap.find?_eq_some_iff.mpr ⟨he, rfl⟩⟩
  · rintro ⟨e, he⟩
    obtain ⟨hmem, hkey⟩ := OrderedMap.find?_eq_some_iff.mp he
    exact ⟨e, hmem, hkey⟩

theorem find?_of_mem (he : e ∈ pool.mapTx.entries) : pool.mapTx.find? e.hash = some e :=
  OrderedMap.find?_eq_some_iff.mpr ⟨he, rfl⟩

theorem sizeOf_nonneg (it : Uint256) : 0 ≤ pool.sizeOf it := by
  unfold sizeOf number
  cases pool.mapTx.find? it with
  | none => exact le_refl 0
  | some e => exact Int.natCast_nonneg e.nTxSize

theorem Parent.left_mem (h : pool.Parent a b) : a ∈ pool.hashes := h.1

theorem Parent.right_mem (h : pool.Parent a b) : b ∈ pool.hashes := by
  obtain ⟨_, e, he, rfl, _⟩ := h
  exact mem_hashes.mpr ⟨e, he, rfl⟩

theorem Ancestor.left_mem (h : pool.Ancestor a b) : a ∈ pool.hashes := by
  induction h using Relation.TransGen.head_induction_on with
  | single h => exact h.left_mem
  | head h _ _ => exact h.left_mem

theorem Ancestor.right_mem (h : pool.Ancestor a b) : b ∈ pool.hashes := by
  induction h with
  | single h => exact h.right_mem
  | tail _ h _ => exact h.right_mem

namespace Consistent

variable (hpool : pool.Consistent)

include hpool

theorem mem_parents (hb : b ∈ pool.hashes) :
    a ∈ (pool.getMemPoolParents b).entries ↔ pool.Parent a b := by
  obtain ⟨e, he, rfl⟩ := mem_hashes.mp hb
  exact hpool.parents e he a

theorem mem_children (ha : a ∈ pool.hashes) :
    b ∈ (pool.getMemPoolChildren a).entries ↔ pool.Parent a b := by
  obtain ⟨e, he, rfl⟩ := mem_hashes.mp ha
  exact hpool.children e he b

theorem parents_universe :
    ∀ a ∈ pool.hashes, ∀ c ∈ (pool.getMemPoolParents a).entries, c ∈ pool.hashes :=
  fun _ ha _ hc => ((hpool.mem_parents ha).mp hc).left_mem

theorem children_universe :
    ∀ a ∈ pool.hashes, ∀ c ∈ (pool.getMemPoolChildren a).entries, c ∈ pool.hashes :=
  fun _ ha _ hc => ((hpool.mem_children ha).mp hc).right_mem

/-- Following the links upwards. -/
theorem reach_parents {s : Uint256} (hs : s ∈ pool.hashes)
    (h : Relation.ReflTransGen (fun a b => b ∈ (pool.getMemPoolParents a).entries) s a) :
    a ∈ pool.hashes ∧ Relation.ReflTransGen pool.Parent a s := by
  induction h with
  | refl => exact ⟨hs, .refl⟩
  | tail _ hstep ih =>
    have hparent := (hpool.mem_parents ih.1).mp hstep
    exact ⟨hparent.left_mem, .head hparent ih.2⟩

/-- Following the links downwards. -/
theorem reach_children {s d : Uint256} (hs : s ∈ pool.hashes)
    (h : Relation.ReflTransGen (fun a b => b ∈ (pool.getMemPoolChildren a).entries) s d) :
    d ∈ pool.hashes ∧ Relation.ReflTransGen pool.Parent s d := by
  induction h with
  | refl => exact ⟨hs, .refl⟩
  | tail _ hstep ih =>
    have hparent := (hpool.mem_children ih.1).mp hstep
    exact ⟨hparent.right_mem, .tail ih.2 hparent⟩

/-- **The walk upwards finds the ancestors.** -/
theorem mem_ancestorsOf (hb : b ∈ pool.hashes) :
    a ∈ (pool.ancestorsOf b).entries ↔ pool.Ancestor a b := by
  rw [ancestorsOf, KeySet.mem_walk (.start (hpool.parents_universe b hb)) hpool.parents_universe
    pool.hashes_length_lt_rounds]
  constructor
  · rintro (hk | ⟨s, hs, hreach⟩)
    · exact absurd hk (KeySet.not_mem_empty a)
    · have hparent := (hpool.mem_parents hb).mp hs
      have hup := (hpool.reach_parents hparent.left_mem hreach).2
      exact Relation.TransGen.tail' hup hparent
  · intro h
    obtain ⟨s, hreach, hlast⟩ := Relation.TransGen.tail'_iff.mp h
    refine .inr ⟨s, (hpool.mem_parents hb).mpr hlast, ?_⟩
    clear h
    induction hreach using Relation.ReflTransGen.head_induction_on with
    | refl => exact .refl
    | head hstep _ ih => exact .tail ih ((hpool.mem_parents hstep.right_mem).mpr hstep)

/-- **The walk downwards finds the descendants.** -/
theorem mem_calculateDescendants {it d : Uint256} (hit : it ∈ pool.hashes) :
    d ∈ (pool.calculateDescendants it ∅).entries ↔ d = it ∨ pool.Ancestor it d := by
  have hstage : ∀ k, k ∈ (OrderedMap.assign it (∅ : KeySet Uint256)).entries ↔ k = it := by
    intro k
    rw [KeySet.mem_assign]
    exact or_iff_left (KeySet.not_mem_empty k)
  have hstart : ∀ k ∈ (OrderedMap.assign it (∅ : KeySet Uint256)).entries, k ∈ pool.hashes := by
    intro k hk
    rwa [(hstage k).mp hk]
  rw [calculateDescendants, if_neg (KeySet.not_mem_empty it),
    KeySet.mem_walk (.start hstart) hpool.children_universe pool.hashes_length_lt_rounds]
  constructor
  · rintro (hk | ⟨s, hs, hreach⟩)
    · exact absurd hk (KeySet.not_mem_empty d)
    · rw [(hstage s).mp hs] at hreach
      have hdown := (hpool.reach_children hit hreach).2
      rcases Relation.reflTransGen_iff_eq_or_transGen.mp hdown with heq | h
      · exact .inl heq
      · exact .inr h
  · rintro (rfl | h)
    · exact .inr ⟨d, (hstage d).mpr rfl, .refl⟩
    · refine .inr ⟨it, (hstage it).mpr rfl, ?_⟩
      induction h with
      | single h => exact .single ((hpool.mem_children h.left_mem).mpr h)
      | tail _ h ih => exact .tail ih ((hpool.mem_children h.left_mem).mpr h)

/-- Searching for the parents finds the links. -/
theorem calculateMemPoolAncestors_eq (he : e ∈ pool.mapTx.entries) :
    pool.calculateMemPoolAncestors .none e true = .ok (pool.ancestorsOf e.hash) := by
  obtain ⟨found, hfound, hmem⟩ := pool.findParents_noLimit e.tx
  have hsame : found = pool.getMemPoolParents e.hash := by
    apply KeySet.ext_mem
    intro h
    rw [hmem, hpool.parents e he h, ← mem_hashes_iff_contains]
    constructor
    · rintro ⟨hin, txin, htxin, rfl⟩
      exact ⟨hin, e, he, rfl, txin.prevout, List.mem_map_of_mem htxin, rfl⟩
    · rintro ⟨hin, e', he', heq, o, ho, rfl⟩
      rw [OrderedMap.eq_of_key_eq he' he heq] at ho
      obtain ⟨txin, htxin, rfl⟩ := List.mem_map.mp ho
      exact ⟨hin, txin, htxin, rfl⟩
  rw [calculateMemPoolAncestors, if_pos rfl, hfound, hsame]
  exact pool.ancestorLoop_noLimit _ _ _ _ _

theorem count_eq (he : e ∈ pool.mapTx.entries) :
    e.nCountWithAncestors = (pool.ancestorsOf e.hash).entries.length + 1 :=
  hpool.count e he _ (hpool.calculateMemPoolAncestors_eq he)

theorem size_eq (he : e ∈ pool.mapTx.entries) : e.nSizeWithAncestors =
      e.nTxSize + ((pool.ancestorsOf e.hash).entries.map pool.sizeOf).sum :=
  hpool.size e he _ (hpool.calculateMemPoolAncestors_eq he)

/-- **An ancestor has fewer ancestors**, so that the counts order every package. -/
theorem count_lt {a b : CTxMemPoolEntry G} (ha : a ∈ pool.mapTx.entries)
    (hb : b ∈ pool.mapTx.entries) (h : pool.Ancestor a.hash b.hash) :
    a.nCountWithAncestors < b.nCountWithAncestors := by
  have hmema : a.hash ∈ pool.hashes := mem_hashes.mpr ⟨a, ha, rfl⟩
  have hmemb : b.hash ∈ pool.hashes := mem_hashes.mpr ⟨b, hb, rfl⟩
  have hself : a.hash ∉ (pool.ancestorsOf a.hash).entries := by
    rw [hpool.mem_ancestorsOf hmema]
    exact hpool.acyclic a.hash
  have hsub : ∀ k ∈ (OrderedMap.assign a.hash (pool.ancestorsOf a.hash)).entries,
      k ∈ (pool.ancestorsOf b.hash).entries := by
    intro k hk
    rw [hpool.mem_ancestorsOf hmemb]
    rcases KeySet.mem_assign.mp hk with rfl | hk
    · exact h
    · exact Relation.TransGen.trans ((hpool.mem_ancestorsOf hmema).mp hk) h
  have hle := KeySet.length_le hsub
  rw [KeySet.length_assign hself] at hle
  rw [hpool.count_eq ha, hpool.count_eq hb]
  omega

end Consistent

end CTxMemPool

end Navcoin
