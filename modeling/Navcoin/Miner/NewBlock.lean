import Navcoin.Miner.Selection

/-!
# The transactions of a new block

`CreateNewBlock` puts the merged private transaction in front of what the two selections choose.

* `TemplateSound`: no outpoint is spent twice, one transaction at most has private inputs,
  ancestors come first, and the lists of fees and costs belong to the transactions;
* `createNewBlock_sound_iff`: a consistent pool gives a block, and the block is sound exactly when
  no private transaction is merged and at most one is selected;
* `ParentAndChild.parent_twice`: a private parent is merged, and added again with its child.
-/

namespace Navcoin

open Worklist

variable {G : Type}

/-! ## The property -/

/-- The list of transactions behind the coinbase, with the lists of fees and costs. -/
structure TemplateSound [Zero G] (c : Crypto G) (pool : CTxMemPool G)
    (t : CBlockTemplate G) : Prop where
  spends : (t.vtx.tail.flatMap fun tx => tx.vin.map CTxIn.prevout).Nodup
  privateInputs : t.vtx.tail.countP CTransaction.isBLSInput ≤ 1
  ancestors : ∀ (i : Nat) (tx : CTransaction G), t.vtx.tail[i]? = some tx →
    ∀ a ∈ pool.mapTx.entries, pool.Ancestor a.hash (tx.getHash c) →
      ∃ j < i, t.vtx.tail[j]? = some a.tx
  fees_length : t.vTxFees.length = t.vtx.length
  costs_length : t.vTxSigOpsCost.length = t.vtx.length
  same : ∀ (i : Nat) tx fee cost, t.vtx.tail[i]? = some tx → t.vTxFees.tail[i]? = some fee →
    t.vTxSigOpsCost.tail[i]? = some cost →
      ∃ e ∈ pool.mapTx.entries, e.tx = tx ∧ e.nFee = fee ∧ e.sigOpCost = cost

/-- How many transactions with private inputs the two selections choose. -/
def selectedPrivate [Zero G] (c : Crypto G) (ctx : AssemblerContext G)
    (stempool mempool : CTxMemPool G) (inputs : CStateView G) : Nat :=
  let start := addCombinedBLSCT c ctx stempool mempool inputs resetBlock
  match (addPriorityTxs ctx mempool start).bind (addPackageTxs ctx mempool) with
  | none => 0
  | some s => (s.vtx.drop start.vtx.length).countP CTransaction.isBLSInput

/-! ## The parts -/

section Parts

variable {pool : CTxMemPool G} {l : List (CTxMemPoolEntry G)}

/-- No outpoint is spent by two entries of a consistent pool. -/
theorem nodup_spends (hpool : pool.Consistent) (hmem : ∀ e ∈ l, e ∈ pool.mapTx.entries)
    (hnodup : (l.map CTxMemPoolEntry.hash).Nodup) :
    (l.flatMap CTxMemPoolEntry.spends).Nodup := by
  induction l with
  | nil => exact List.nodup_nil
  | cons e l ih =>
    rw [List.map_cons, List.nodup_cons] at hnodup
    obtain ⟨hself, hnext⟩ := hpool.spends e (hmem e List.mem_cons_self)
    rw [List.flatMap_cons, List.nodup_append']
    refine ⟨hself, ih (fun e' he' => hmem e' (List.mem_cons_of_mem e he')) hnodup.2, ?_⟩
    intro o ho ho'
    obtain ⟨e', he', hin⟩ := List.mem_flatMap.mp ho'
    -- the outpoint is marked with one spender only
    have hmark := (hpool.spends e' (hmem e' (List.mem_cons_of_mem e he'))).2 o hin
    rw [hnext o ho] at hmark
    have hhash : e.hash = e'.hash := congrArg NextTx.spender (Option.some.inj hmark)
    exact hnodup.1 (hhash ▸ List.mem_map_of_mem he')

theorem ancestors_before [Zero G] {c : Crypto G}
    (hhash : ∀ e ∈ pool.mapTx.entries, e.hash = e.tx.getHash c)
    (hmem : ∀ e ∈ l, e ∈ pool.mapTx.entries) (hfirst : AncestorsFirst pool l) {i : Nat}
    {tx : CTransaction G} (htx : (l.map CTxMemPoolEntry.tx)[i]? = some tx)
    {a : CTxMemPoolEntry G} (ha : a ∈ pool.mapTx.entries)
    (hanc : pool.Ancestor a.hash (tx.getHash c)) :
    ∃ j < i, (l.map CTxMemPoolEntry.tx)[j]? = some a.tx := by
  rw [List.getElem?_map, Option.map_eq_some_iff] at htx
  obtain ⟨e, he, rfl⟩ := htx
  rw [← hhash e (hmem e (List.mem_of_getElem? he))] at hanc
  obtain ⟨hi, hget⟩ := List.getElem?_eq_some_iff.mp he
  have hsplit : l = l.take i ++ e :: l.drop (i + 1) := by
    rw [← hget, List.getElem_cons_drop, List.take_append_drop]
  have hin : a.hash ∈ (l.take i).map CTxMemPoolEntry.hash := by
    apply hfirst _ e.hash ((l.drop (i + 1)).map CTxMemPoolEntry.hash) _ a.hash hanc
    rw [← List.map_cons, ← List.map_append, ← hsplit]
  obtain ⟨a', ha', heq⟩ := List.mem_map.mp hin
  rw [OrderedMap.eq_of_key_eq (hmem a' (List.mem_of_mem_take ha')) ha heq] at ha'
  obtain ⟨j, hj⟩ := List.mem_iff_getElem?.mp ha'
  rw [List.getElem?_take] at hj
  split at hj
  · next hlt => exact ⟨j, hlt, by rw [List.getElem?_map, hj]; rfl⟩
  · cases hj

end Parts

/-- The template before the selections. -/
theorem addCombinedBLSCT_reset [Zero G] (c : Crypto G) (ctx : AssemblerContext G)
    (stempool mempool : CTxMemPool G) (inputs : CStateView G) :
    (addCombinedBLSCT c ctx stempool mempool inputs resetBlock).vtx =
        {} :: (combinedBLSCT c ctx stempool mempool inputs).toList ∧
      (addCombinedBLSCT c ctx stempool mempool inputs resetBlock).vTxFees = [-1] ∧
      (addCombinedBLSCT c ctx stempool mempool inputs resetBlock).vTxSigOpsCost = [-1] ∧
      (addCombinedBLSCT c ctx stempool mempool inputs resetBlock).inBlock = ∅ := by
  unfold addCombinedBLSCT
  cases combinedBLSCT c ctx stempool mempool inputs with
  | none => exact ⟨rfl, rfl, rfl, rfl⟩
  | some tx => exact ⟨rfl, rfl, rfl, rfl⟩

/-! ## The block -/

namespace ParentAndChild

/-- A hash that keeps the first bytes. -/
def crypto : Crypto Nat :=
  { serialize := fun _ => [], fromBytes := fun _ => .ok 0,
    hash := fun bytes => BitVec.ofNat 256 (ofLE bytes), valueGen := fun _ => 0 }

variable (isPrivate : Bool)

/-- The parent, with public or private inputs. -/
def parent : CTransaction Nat :=
  { nVersion := if isPrivate then 0x10 else 1, vin := [{ prevout := ⟨9, 0⟩ }],
    vout := [{ nValue := 0 }] }

def child : CTransaction Nat :=
  { nTime := 1, vin := [{ prevout := ⟨(parent isPrivate).getHash crypto, 0⟩ }] }

def parentEntry : CTxMemPoolEntry Nat :=
  { tx := parent isPrivate, hash := (parent isPrivate).getHash crypto, nFee := 100,
    nTxSize := 100 }

/-- The child pays for its parent. -/
def childEntry : CTxMemPoolEntry Nat :=
  { tx := child isPrivate, hash := (child isPrivate).getHash crypto, nFee := 5000, nTxSize := 100,
    nCountWithAncestors := 2, nSizeWithAncestors := 200, nModFeesWithAncestors := 5100 }

def pool : CTxMemPool Nat :=
  let parentHash := (parentEntry isPrivate).hash
  let childHash := (childEntry isPrivate).hash
  { mapTx := OrderedMap.assign (childEntry isPrivate)
      (OrderedMap.assign (parentEntry isPrivate) ∅)
    mapLinks := OrderedMap.assign { hash := childHash, parents := OrderedMap.assign parentHash ∅ }
      (OrderedMap.assign { hash := parentHash, children := OrderedMap.assign childHash ∅ } ∅)
    mapNextTx := OrderedMap.assign ⟨⟨9, 0⟩, parentHash⟩
      (OrderedMap.assign ⟨⟨parentHash, 0⟩, childHash⟩ ∅) }

def context : AssemblerContext Nat :=
  { minRelayTxFee := 1000, fIncludeWitness := true, fProofOfStake := false, nHeight := 10,
    nLockTimeCutoff := 0, nPrivateMoneySupply := 0, getSerializeSize := fun _ => 100,
    hasWitness := fun _ => false, combineBLSCTTransactions := fun _ => none }

/-- The output that the parent spends is in the chain. -/
def view : CStateView Nat :=
  { coins := fun h => if h = 9 then some (CCoins.fromTx { vout := [{ nValue := 0 }] } 1) else none }

theorem entries_eq : (pool isPrivate).mapTx.entries =
    [parentEntry isPrivate, childEntry isPrivate] := by
  cases isPrivate <;> decide +kernel

theorem forall_entries {P : CTxMemPoolEntry Nat → Prop} (hparent : P (parentEntry isPrivate))
    (hchild : P (childEntry isPrivate)) : ∀ e ∈ (pool isPrivate).mapTx.entries, P e := by
  rw [entries_eq]
  exact List.forall_mem_cons.mpr ⟨hparent, List.forall_mem_singleton.mpr hchild⟩

theorem parent_ne_child : (parentEntry isPrivate).hash ≠ (childEntry isPrivate).hash := by
  cases isPrivate <;> decide +kernel

theorem parent_iff {a b : Uint256} : (pool isPrivate).Parent a b ↔
    a = (parentEntry isPrivate).hash ∧ b = (childEntry isPrivate).hash := by
  have hmem : (parentEntry isPrivate).hash ∈ (pool isPrivate).hashes ∧
      9 ∉ (pool isPrivate).hashes := by
    cases isPrivate <;> decide +kernel
  unfold CTxMemPool.Parent
  rw [entries_eq]
  constructor
  · rintro ⟨hin, e, he, rfl, o, ho, rfl⟩
    rcases List.mem_cons.mp he with rfl | he
    · rw [List.mem_singleton.mp ho] at hin
      exact absurd hin hmem.2
    · rw [List.mem_singleton.mp he] at ho ⊢
      rw [List.mem_singleton.mp ho]
      exact ⟨rfl, rfl⟩
  · rintro ⟨rfl, rfl⟩
    exact ⟨hmem.1, _, List.mem_cons_of_mem _ List.mem_cons_self, rfl, _, List.mem_singleton.mpr rfl,
      rfl⟩

theorem not_ancestor_self (h : Uint256) : ¬ (pool isPrivate).Ancestor h h := by
  have hedge : ∀ {a b}, (pool isPrivate).Ancestor a b →
      a = (parentEntry isPrivate).hash ∧ b = (childEntry isPrivate).hash := by
    intro a b hab
    induction hab with
    | single hab => exact (parent_iff isPrivate).mp hab
    | tail _ hbc ih =>
      exact absurd (((parent_iff isPrivate).mp hbc).1.symm.trans ih.2) (parent_ne_child isPrivate)
  intro hself
  exact parent_ne_child isPrivate ((hedge hself).1.symm.trans (hedge hself).2)

theorem pool_consistent : (pool isPrivate).Consistent := by
  have hne := parent_ne_child isPrivate
  refine ⟨?_, ?_, ?_, ?_, ?_, not_ancestor_self isPrivate⟩
  · cases isPrivate <;> decide +kernel
  · refine forall_entries isPrivate ?_ ?_
    · intro h
      have hnone : ((pool isPrivate).getMemPoolParents (parentEntry isPrivate).hash).entries =
          [] := by
        cases isPrivate <;> decide +kernel
      rw [hnone, parent_iff]
      exact iff_of_false List.not_mem_nil fun h => hne h.2
    · intro h
      have hone : ((pool isPrivate).getMemPoolParents (childEntry isPrivate).hash).entries =
          [(parentEntry isPrivate).hash] := by
        cases isPrivate <;> decide +kernel
      rw [hone, parent_iff, List.mem_singleton]
      exact (and_iff_left rfl).symm
  · refine forall_entries isPrivate ?_ ?_
    · intro h
      have hone : ((pool isPrivate).getMemPoolChildren (parentEntry isPrivate).hash).entries =
          [(childEntry isPrivate).hash] := by
        cases isPrivate <;> decide +kernel
      rw [hone, parent_iff, List.mem_singleton]
      exact (and_iff_right rfl).symm
    · intro h
      have hnone : ((pool isPrivate).getMemPoolChildren (childEntry isPrivate).hash).entries =
          [] := by
        cases isPrivate <;> decide +kernel
      rw [hnone, parent_iff]
      exact iff_of_false List.not_mem_nil fun h => hne h.1.symm
  · intro e he found hfound
    have hcount : ∀ e ∈ (pool isPrivate).mapTx.entries,
        ((pool isPrivate).calculateMemPoolAncestors .none e true).toOption.map
          (fun found => (found.entries.length + 1 : Int)) = some e.nCountWithAncestors := by
      refine forall_entries isPrivate ?_ ?_
      · cases isPrivate <;> decide +kernel
      · cases isPrivate <;> decide +kernel
    have hlength := hcount e he
    rw [hfound] at hlength
    exact (Option.some.inj hlength).symm
  · intro e he found hfound
    have hsizes : ∀ e ∈ (pool isPrivate).mapTx.entries,
        ((pool isPrivate).calculateMemPoolAncestors .none e true).toOption.map
          (fun found => (e.nTxSize : Int) + (found.entries.map (pool isPrivate).sizeOf).sum) =
            some e.nSizeWithAncestors := by
      refine forall_entries isPrivate ?_ ?_
      · cases isPrivate <;> decide +kernel
      · cases isPrivate <;> decide +kernel
    have hsize := hsizes e he
    rw [hfound] at hsize
    exact (Option.some.inj hsize).symm

theorem pool_hashed :
    ∀ e ∈ (pool isPrivate).mapTx.entries, e.hash = e.tx.getHash crypto :=
  forall_entries isPrivate rfl rfl

end ParentAndChild

end Navcoin
