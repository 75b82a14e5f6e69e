import Mathlib.Algebra.Order.BigOperators.Group.List
import Navcoin.Miner.BlockTemplate

/-!
# What the selection of transactions keeps

* `Chosen`: what stands in the template after a list of entries was added;
* `priorityStep_sat`, `addPriorityTxs_selected`: the selection by priority;
* `ModifiedOk`: the state of a descendant of added transactions;
* `packageStep_sat`, `addPackageTxs_selected`: the selection of packages.
-/

namespace Navcoin

open Worklist

variable {G : Type} {ctx : AssemblerContext G} {pool : CTxMemPool G}
variable {e : CTxMemPoolEntry G} {p p' : PackageLocals G} {choice : PackageChoice}

/-! ## The entries of the template -/

/-- The template after entries of the pool were added to `start`. -/
structure Chosen (pool : CTxMemPool G) (start : CBlockTemplate G)
    (l : List (CTxMemPoolEntry G)) (s : CBlockTemplate G) : Prop where
  vtx : s.vtx = start.vtx ++ l.map CTxMemPoolEntry.tx
  vTxFees : s.vTxFees = start.vTxFees ++ l.map CTxMemPoolEntry.nFee
  vTxSigOpsCost : s.vTxSigOpsCost = start.vTxSigOpsCost ++ l.map CTxMemPoolEntry.sigOpCost
  inBlock : ∀ h, h ∈ s.inBlock.entries ↔ h ∈ l.map CTxMemPoolEntry.hash
  mem : ∀ e ∈ l, e ∈ pool.mapTx.entries
  nodup : (l.map CTxMemPoolEntry.hash).Nodup

/-- Ancestors come first among the entries that were added. -/
def AncestorsFirst (pool : CTxMemPool G) (l : List (CTxMemPoolEntry G)) : Prop :=
  PredecessorsFirst pool.Ancestor (l.map CTxMemPoolEntry.hash)

variable {ks : List Uint256}

theorem length_le_of_hashes (hnodup : ks.Nodup)
    (hks : ∀ k ∈ ks, k ∈ pool.hashes) : ks.length ≤ pool.mapTx.entries.length := by
  have hle := (List.subperm_of_subset hnodup hks).length_le
  rwa [CTxMemPool.hashes, List.length_map] at hle

namespace Chosen

variable {start s : CBlockTemplate G} {l : List (CTxMemPoolEntry G)}

theorem refl (hempty : start.inBlock = ∅) : Chosen pool start [] start := by
  refine ⟨?_, ?_, ?_, ?_, ?_, List.nodup_nil⟩
  · rw [List.map_nil, List.append_nil]
  · rw [List.map_nil, List.append_nil]
  · rw [List.map_nil, List.append_nil]
  · intro h
    rw [hempty]
    exact iff_of_false (KeySet.not_mem_empty h) List.not_mem_nil
  · intro e he
    cases he

/-- Only the counters of full blocks change. -/
theorem congr (h : Chosen pool start l s) {s' : CBlockTemplate G} (hvtx : s'.vtx = s.vtx)
    (hfees : s'.vTxFees = s.vTxFees) (hcost : s'.vTxSigOpsCost = s.vTxSigOpsCost)
    (hin : s'.inBlock = s.inBlock) : Chosen pool start l s' :=
  ⟨hvtx.trans h.vtx, hfees.trans h.vTxFees, hcost.trans h.vTxSigOpsCost,
    fun k => by rw [hin, h.inBlock], h.mem, h.nodup⟩

theorem inBlock_mem_hashes (h : Chosen pool start l s) {k : Uint256}
    (hk : k ∈ s.inBlock.entries) : k ∈ pool.hashes := by
  obtain ⟨e, he, rfl⟩ := List.mem_map.mp ((h.inBlock k).mp hk)
  exact CTxMemPool.mem_hashes.mpr ⟨e, h.mem e he, rfl⟩

theorem length_inBlock_le (h : Chosen pool start l s) :
    s.inBlock.entries.length ≤ pool.mapTx.entries.length :=
  length_le_of_hashes s.inBlock.nodup fun _ => h.inBlock_mem_hashes

variable (ctx)

/-- **One entry.** -/
theorem add (h : Chosen pool start l s) {e : CTxMemPoolEntry G} (he : e ∈ pool.mapTx.entries)
    (hnew : e.hash ∉ s.inBlock.entries) (f : Bool) :
    Chosen pool start (l ++ [e]) (s.addToBlock ctx f e) := by
  refine ⟨?_, ?_, ?_, ?_, ?_, ?_⟩
  · rw [List.map_append, ← List.append_assoc, ← h.vtx]
    rfl
  · rw [List.map_append, ← List.append_assoc, ← h.vTxFees]
    rfl
  · rw [List.map_append, ← List.append_assoc, ← h.vTxSigOpsCost]
    rfl
  · intro k
    rw [List.map_append, List.mem_append, ← h.inBlock k]
    exact KeySet.mem_assign.trans (or_comm.trans (or_congr_right List.mem_singleton.symm))
  · exact List.forall_mem_append.mpr ⟨h.mem, List.forall_mem_singleton.mpr he⟩
  · rw [List.map_append, List.nodup_append']
    refine ⟨h.nodup, List.nodup_singleton _, ?_⟩
    intro k hk hk'
    rw [List.mem_singleton.mp hk'] at hk
    exact hnew ((h.inBlock e.hash).mpr hk)

/-- Entries one after the other. -/
theorem addAll (h : Chosen pool start l s) {p : List (CTxMemPoolEntry G)}
    (hp : ∀ e ∈ p, e ∈ pool.mapTx.entries) (hnodup : (p.map CTxMemPoolEntry.hash).Nodup)
    (hnew : ∀ e ∈ p, e.hash ∉ s.inBlock.entries) (f : Bool) :
    Chosen pool start (l ++ p) (p.foldl (CBlockTemplate.addToBlock ctx f) s) := by
  induction p generalizing l s with
  | nil => rwa [List.append_nil]
  | cons e p ih =>
    rw [List.map_cons, List.nodup_cons] at hnodup
    have hstep : Chosen pool start (l ++ [e]) (s.addToBlock ctx f e) :=
      h.add ctx (hp e List.mem_cons_self) (hnew e List.mem_cons_self) f
    rw [← List.singleton_append, ← List.append_assoc]
    apply ih hstep (fun e' he' => hp e' (List.mem_cons_of_mem e he')) hnodup.2
    intro e' he' hin
    rcases KeySet.mem_assign.mp hin with heq | hin
    · exact hnodup.1 (heq ▸ List.mem_map_of_mem he')
    · exact hnew e' (List.mem_cons_of_mem e he') hin

end Chosen

/-! ## Selection by priority -/

/-- What waits to be chosen. -/
structure Pending (pool : CTxMemPool G) (block : CBlockTemplate G)
    (q : List (TxCoinAgePriority G)) : Prop where
  mem : ∀ p ∈ q, p.second ∈ pool.mapTx.entries
  nodup : (q.map TxCoinAgePriority.hash).Nodup
  fresh : ∀ p ∈ q, p.hash ∉ block.inBlock.entries

namespace Pending

variable {block : CBlockTemplate G} {q q' : List (TxCoinAgePriority G)}

theorem perm (h : Pending pool block q) (hperm : q.Perm q') : Pending pool block q' :=
  ⟨fun p hp => h.mem p (hperm.mem_iff.mpr hp), ((hperm.map _).nodup_iff).mp h.nodup,
    fun p hp => h.fresh p (hperm.mem_iff.mpr hp)⟩

theorem tail {p : TxCoinAgePriority G} (h : Pending pool block (p :: q)) : Pending pool block q :=
  ⟨fun p' hp => h.mem p' (List.mem_cons_of_mem p hp), h.nodup.of_cons,
    fun p' hp => h.fresh p' (List.mem_cons_of_mem p hp)⟩

theorem length_le (h : Pending pool block q) : q.length ≤ pool.mapTx.entries.length := by
  rw [← List.length_map TxCoinAgePriority.hash]
  apply length_le_of_hashes h.nodup
  intro k hk
  obtain ⟨p, hp, rfl⟩ := List.mem_map.mp hk
  exact CTxMemPool.mem_hashes.mpr ⟨p.second, h.mem p hp, rfl⟩

/-- After the first one was added to the block. -/
theorem added {p : TxCoinAgePriority G} (h : Pending pool block (p :: q))
    (ctx : AssemblerContext G) (f : Bool) :
    Pending pool (block.addToBlock ctx f p.second) q := by
  refine ⟨h.tail.mem, h.tail.nodup, ?_⟩
  intro p' hp' hin
  rcases KeySet.mem_assign.mp hin with heq | hin
  · have hnodup := h.nodup
    rw [List.map_cons, List.nodup_cons] at hnodup
    exact hnodup.1 (List.mem_map.mpr ⟨p', hp', heq⟩)
  · exact h.tail.fresh p' hp' hin

end Pending

def PriorityLocals.pending (p : PriorityLocals G) : List (TxCoinAgePriority G) :=
  p.vecPriority ++ p.waitPriMap.entries

/-- Waking children moves entries within what is pending. -/
theorem wakeChildren_spec (children : List Uint256) (p : PriorityLocals G) :
    (wakeChildren children p).block = p.block ∧
      (wakeChildren children p).pending.Perm p.pending := by
  induction children generalizing p with
  | nil => exact ⟨rfl, .refl _⟩
  | cons child children ih =>
    unfold wakeChildren
    rw [List.foldl_cons]
    cases hfind : p.waitPriMap.find? child with
    | none => exact ih p
    | some wpiter =>
      obtain ⟨hblock, hperm⟩ := ih { p with
        vecPriority := wpiter :: p.vecPriority
        waitPriMap := p.waitPriMap.erase child }
      refine ⟨hblock, hperm.trans ?_⟩
      have hwait := OrderedMap.perm_of_find? hfind
      exact (List.perm_middle.symm).trans (hwait.symm.append_left p.vecPriority)

/-- A transaction whose parents are in the block has all its ancestors there. -/
theorem ancestors_mem_of_not_dependent (hpool : pool.Consistent) {start s : CBlockTemplate G}
    {l : List (CTxMemPoolEntry G)} (h : Chosen pool start l s) (hfirst : AncestorsFirst pool l)
    (he : e ∈ pool.mapTx.entries) (hdep : s.isStillDependent pool e.hash = false) {a : Uint256}
    (ha : pool.Ancestor a e.hash) : a ∈ l.map CTxMemPoolEntry.hash := by
  obtain ⟨b, hab, hparent⟩ := Relation.TransGen.tail'_iff.mp ha
  have hb : b ∈ l.map CTxMemPoolEntry.hash := by
    rw [← h.inBlock b]
    have hall := List.any_eq_false.mp hdep b ((hpool.parents e he b).mpr hparent)
    rwa [decide_eq_true_eq, not_not] at hall
  rcases Relation.reflTransGen_iff_eq_or_transGen.mp hab with rfl | hab
  · exact hb
  · exact hfirst.mem hb hab

/-- `TestForBlock` only marks how full the block is. -/
theorem testForBlock_frame (ctx : AssemblerContext G) (s : CBlockTemplate G)
    (e : CTxMemPoolEntry G) :
    ∃ n b, (s.testForBlock ctx e).2 = { s with lastFewTxs := n, blockFinished := b } := by
  unfold CBlockTemplate.testForBlock
  repeat' split
  all_goals exact ⟨_, _, rfl⟩

/-- The invariant of the loop. -/
structure PriorityInv (pool : CTxMemPool G) (start : CBlockTemplate G)
    (p : PriorityLocals G) : Prop where
  chosen : ∃ l, Chosen pool start l p.block ∧ AncestorsFirst pool l
  pending : Pending pool p.block p.pending

/-- Entries not in the block, then the length of the queue. -/
def priorityMeasure (pool : CTxMemPool G) (p : PriorityLocals G) : Nat :=
  (2 * pool.mapTx.entries.length + 2) *
    (pool.mapTx.entries.length - p.block.inBlock.entries.length) + p.vecPriority.length

/-- The block is what the selection may leave. -/
def Selected (pool : CTxMemPool G) (start s : CBlockTemplate G) : Prop :=
  ∃ l, Chosen pool start l s ∧ AncestorsFirst pool l

theorem selected_add (hpool : pool.Consistent) (ctx : AssemblerContext G)
    {start s : CBlockTemplate G} {l : List (CTxMemPoolEntry G)} (h : Chosen pool start l s)
    (hfirst : AncestorsFirst pool l) (he : e ∈ pool.mapTx.entries)
    (hnew : e.hash ∉ s.inBlock.entries) (hdep : s.isStillDependent pool e.hash = false) (f : Bool) :
    Selected pool start (s.addToBlock ctx f e) := by
  refine ⟨l ++ [e], h.add ctx he hnew f, ?_⟩
  unfold AncestorsFirst
  rw [List.map_append]
  apply PredecessorsFirst.append_singleton hfirst
  intro a ha
  exact ancestors_mem_of_not_dependent hpool h hfirst he hdep ha

/-- Fewer entries outside the block outweigh every queue. -/
theorem measure_lt {n k k' q q' : Nat} (hk : k < k') (hn : k' ≤ n) (hq : q' ≤ 2 * n) :
    (2 * n + 2) * (n - k') + q' < (2 * n + 2) * (n - k) + q := by
  have hstep : (2 * n + 2) * (n - k') + (2 * n + 2) ≤ (2 * n + 2) * (n - k) := by
    rw [← Nat.mul_succ]
    apply Nat.mul_le_mul_left
    omega
  omega

theorem measure_lt_turns (k : Nat) {q : Nat} (hq : q ≤ 2 * pool.mapTx.entries.length) :
    (2 * pool.mapTx.entries.length + 2) * (pool.mapTx.entries.length - k) + q < turns pool := by
  have hle := Nat.mul_le_mul_left (2 * pool.mapTx.entries.length + 2)
    (Nat.sub_le pool.mapTx.entries.length k)
  rw [turns, Nat.mul_succ]
  omega

theorem length_inBlock_addToBlock (ctx : AssemblerContext G) {s : CBlockTemplate G}
    (hnew : e.hash ∉ s.inBlock.entries) (f : Bool) :
    (s.addToBlock ctx f e).inBlock.entries.length = s.inBlock.entries.length + 1 :=
  KeySet.length_assign hnew

/-- The turn after a transaction was added. -/
theorem priorityInv_wake {start : CBlockTemplate G} {p : PriorityLocals G} {k q : Nat}
    (children : List Uint256) (hselected : Selected pool start p.block)
    (hpending : Pending pool p.block p.pending) (hk : k < p.block.inBlock.entries.length) :
    PriorityInv pool start (wakeChildren children p) ∧
      priorityMeasure pool (wakeChildren children p) <
        (2 * pool.mapTx.entries.length + 2) * (pool.mapTx.entries.length - k) + q := by
  obtain ⟨hblock, hperm⟩ := wakeChildren_spec children p
  have hwoken : Pending pool (wakeChildren children p).block (wakeChildren children p).pending := by
    rw [hblock]
    exact hpending.perm hperm.symm
  obtain ⟨l, hchosen, hfirst⟩ := hselected
  refine ⟨⟨⟨l, by rwa [hblock], hfirst⟩, hwoken⟩, ?_⟩
  have hlen := hwoken.length_le
  rw [PriorityLocals.pending, List.length_append] at hlen
  unfold priorityMeasure
  rw [hblock]
  apply measure_lt hk hchosen.length_inBlock_le
  omega

/-- **One turn.** -/
theorem priorityStep_sat (hpool : pool.Consistent) (ctx : AssemblerContext G)
    {start : CBlockTemplate G} (n : Nat) (p : PriorityLocals G) (h : PriorityInv pool start p) :
    (priorityStep ctx pool n p).Sat (PriorityInv pool start)
      (fun p => Selected pool start p.block) (priorityMeasure pool) (priorityMeasure pool p) := by
  unfold priorityStep
  split
  · exact h.chosen
  split
  · exact h.chosen
  next front rest hbest =>
  -- the first of the queue is pending, so it is not in the block
  have hperm := perm_of_takeBest hbest
  have hlen : p.vecPriority.length = rest.length + 1 := hperm.length_eq
  have hpending : Pending pool p.block (front :: (rest ++ p.waitPriMap.entries)) :=
    h.pending.perm (hperm.append_right _)
  have hmem := hpending.mem front List.mem_cons_self
  have hfresh : front.second.hash ∉ p.block.inBlock.entries :=
    hpending.fresh front List.mem_cons_self
  have hdrop : PriorityInv pool start { p with vecPriority := rest } ∧
      priorityMeasure pool { p with vecPriority := rest } < priorityMeasure pool p := by
    refine ⟨⟨h.chosen, hpending.tail⟩, ?_⟩
    simp only [priorityMeasure]
    omega
  dsimp only
  rw [if_neg hfresh]
  split
  · exact hdrop
  split
  · exact hdrop
  split
  · refine ⟨⟨h.chosen, ?_⟩, ?_⟩
    · have hnone : p.waitPriMap.find? front.hash = none := by
        rw [OrderedMap.find?_eq_none_iff]
        intro q hq heq
        have hnodup := hpending.nodup
        rw [List.map_cons, List.nodup_cons] at hnodup
        exact hnodup.1 (List.mem_map.mpr ⟨q, List.mem_append_right _ hq, heq⟩)
      have hcontains : ¬ p.waitPriMap.contains front.second.hash = true := by
        have hnone' : p.waitPriMap.find? front.second.hash = none := hnone
        rw [OrderedMap.contains, hnone']
        exact Bool.false_ne_true
      rw [if_neg hcontains]
      apply hpending.perm
      have hassign := OrderedMap.perm_assign front p.waitPriMap
      rw [OrderedMap.entries_erase_of_none hnone] at hassign
      exact List.perm_middle.symm.trans (hassign.symm.append_left rest)
    · simp only [priorityMeasure]
      omega
  next hdep =>
  obtain ⟨few, finished, hframe⟩ := testForBlock_frame ctx p.block front.second
  obtain ⟨l, hchosen, hfirst⟩ := h.chosen
  split
  · next block htest =>
    rw [htest] at hframe
    subst hframe
    refine ⟨⟨⟨l, hchosen.congr rfl rfl rfl rfl, hfirst⟩, ?_⟩, ?_⟩
    · exact ⟨hpending.tail.mem, hpending.tail.nodup, hpending.tail.fresh⟩
    · simp only [priorityMeasure]
      omega
  · next block htest =>
    rw [htest] at hframe
    subst hframe
    have hsame : Chosen pool start l { p.block with
        lastFewTxs := few, blockFinished := finished } := hchosen.congr rfl rfl rfl rfl
    have hpending' : Pending pool { p.block with lastFewTxs := few, blockFinished := finished }
        (front :: (rest ++ p.waitPriMap.entries)) :=
      ⟨hpending.mem, hpending.nodup, hpending.fresh⟩
    have hselected := selected_add hpool ctx hsame hfirst hmem hfresh
      (Bool.not_eq_true _ ▸ hdep) true
    split
    · exact hselected
    · exact priorityInv_wake _ hselected (hpending'.added ctx true)
        (length_inBlock_addToBlock ctx hfresh true).symm.le
/-- **The selection by priority ends**, with ancestors first. -/
theorem addPriorityTxs_selected (hpool : pool.Consistent) (ctx : AssemblerContext G)
    {start : CBlockTemplate G} (hempty : start.inBlock = ∅) :
    ∃ s, addPriorityTxs ctx pool start = some s ∧ Selected pool start s := by
  have hstart : Selected pool start start := ⟨[], .refl hempty, .nil⟩
  unfold addPriorityTxs
  dsimp only
  split
  · exact ⟨start, rfl, hstart⟩
  let vecPriority : List (TxCoinAgePriority G) := pool.mapTx.entries.map fun mi =>
    ⟨pool.applyPriorityDelta mi.hash (mi.getPriority ctx.nHeight), mi⟩
  have hpending : Pending pool start vecPriority := by
    refine ⟨?_, ?_, ?_⟩
    · intro p hp
      obtain ⟨mi, hmi, rfl⟩ := List.mem_map.mp hp
      exact hmi
    · rw [List.map_map]
      exact pool.mapTx.nodup_keys
    · intro p _ hin
      rw [hempty] at hin
      exact KeySet.not_mem_empty p.hash hin
  have hinv : PriorityInv pool start ⟨start, vecPriority, ∅⟩ :=
    ⟨hstart, hpending.perm (List.Perm.of_eq (List.append_nil _).symm)⟩
  have hfuel : priorityMeasure pool ⟨start, vecPriority, ∅⟩ < turns pool := by
    have hlen : vecPriority.length = pool.mapTx.entries.length := List.length_map _
    apply measure_lt_turns
    dsimp only
    omega
  obtain ⟨p, hrun, hpost⟩ := run_sat (priorityStep_sat hpool ctx _) hinv hfuel
  exact ⟨p.block, congrArg (Option.map PriorityLocals.block) hrun, hpost⟩

/-! ## Descendants of added transactions -/

/-- The size of an entry of `mapModifiedTx`: some of its ancestors, all of them done, were taken
off once.  An entry that failed and comes back has lost what was taken off before. -/
def ModifiedOk (pool : CTxMemPool G) (done : Uint256 → Prop) (m : CTxMemPoolModifiedEntry) :
    Prop :=
  ∃ e ∈ pool.mapTx.entries, e.hash = m.iter ∧ ∃ included : List Uint256, included.Nodup ∧
    (∀ a ∈ included, pool.Ancestor a m.iter ∧ done a) ∧
    m.nSizeWithAncestors = e.nSizeWithAncestors - (included.map pool.sizeOf).sum

namespace ModifiedOk

variable {done done' : Uint256 → Prop} {m : CTxMemPoolModifiedEntry}

theorem mono (h : ModifiedOk pool done m) (hdone : ∀ a, done a → done' a) :
    ModifiedOk pool done' m := by
  obtain ⟨e, he, hiter, included, hnodup, hall, hsize⟩ := h
  exact ⟨e, he, hiter, included, hnodup, fun a ha => ⟨(hall a ha).1, hdone a (hall a ha).2⟩,
    hsize⟩

theorem new {e : CTxMemPoolEntry G} (he : e ∈ pool.mapTx.entries) :
    ModifiedOk pool done (.new e) :=
  ⟨e, he, rfl, [], List.nodup_nil, fun _ ha => absurd ha List.not_mem_nil, (sub_zero _).symm⟩

theorem mem_hashes (h : ModifiedOk pool done m) : m.iter ∈ pool.hashes := by
  obtain ⟨e, he, hiter, _⟩ := h
  exact CTxMemPool.mem_hashes.mpr ⟨e, he, hiter⟩

/-- One more ancestor is taken off. -/
theorem takeOff (h : ModifiedOk pool done m) {it : CTxMemPoolEntry G}
    (hit : it ∈ pool.mapTx.entries) (hanc : pool.Ancestor it.hash m.iter) (hnew : ¬ done it.hash)
    {m' : CTxMemPoolModifiedEntry} (hiter : m'.iter = m.iter)
    (hsize : m'.nSizeWithAncestors = m.nSizeWithAncestors - it.nTxSize) :
    ModifiedOk pool (fun a => done a ∨ a = it.hash) m' := by
  obtain ⟨e, he, hm, included, hnodup, hall, hm'⟩ := h
  refine ⟨e, he, hm.trans hiter.symm, it.hash :: included, ?_, ?_, ?_⟩
  · rw [List.nodup_cons]
    exact ⟨fun hin => hnew (hall it.hash hin).2, hnodup⟩
  · intro a ha
    rw [hiter]
    rcases List.mem_cons.mp ha with rfl | ha
    · exact ⟨hanc, .inr rfl⟩
    · exact ⟨(hall a ha).1, .inl (hall a ha).2⟩
  · have hsizeOf : pool.sizeOf it.hash = it.nTxSize := by
      rw [CTxMemPool.sizeOf, CTxMemPool.number, CTxMemPool.find?_of_mem hit]
      rfl
    rw [hsize, hm', List.map_cons, List.sum_cons]
    omega

/-- Such a size is never negative. -/
theorem size_nonneg (hpool : pool.Consistent) (h : ModifiedOk pool done m) :
    0 ≤ m.nSizeWithAncestors := by
  obtain ⟨e, he, hiter, included, hnodup, hall, hsize⟩ := h
  have hmem : e.hash ∈ pool.hashes := CTxMemPool.mem_hashes.mpr ⟨e, he, rfl⟩
  have hsub : included ⊆ (pool.ancestorsOf e.hash).entries := by
    intro a ha
    rw [hpool.mem_ancestorsOf hmem, hiter]
    exact (hall a ha).1
  obtain ⟨l, hperm, hsublist⟩ := List.subperm_of_subset hnodup hsub
  have hle : (l.map pool.sizeOf).sum ≤
      ((pool.ancestorsOf e.hash).entries.map pool.sizeOf).sum := by
    apply (hsublist.map pool.sizeOf).sum_le_sum
    intro n hn
    obtain ⟨a, _, rfl⟩ := List.mem_map.mp hn
    exact CTxMemPool.sizeOf_nonneg a
  have hsum := (hperm.map pool.sizeOf).sum_eq
  have hall := hpool.size_eq he
  omega

end ModifiedOk

/-- The set of modified entries, apart from what is in the block. -/
def ModifiedSetOk (pool : CTxMemPool G) (done out : Uint256 → Prop) (m : ModifiedSet) : Prop :=
  ∀ e ∈ m.entries, ModifiedOk pool done e ∧ ¬ out e.iter

variable {m : ModifiedSet}

section Updates

variable {alreadyAdded : KeySet Uint256} {done out : Uint256 → Prop}

/-- The descendants of one added transaction, each met once. -/
theorem updateDescendants_ok {it : CTxMemPoolEntry G} (hit : it ∈ pool.mapTx.entries)
    (hin : it.hash ∈ alreadyAdded.entries) (hnew : ¬ done it.hash)
    (hout : ∀ d, d ∉ alreadyAdded.entries → pool.Ancestor it.hash d → ¬ out d)
    {descendants : List Uint256} (hnodup : descendants.Nodup)
    (hdesc : ∀ d ∈ descendants, d = it.hash ∨ pool.Ancestor it.hash d)
    (hm : ModifiedSetOk pool (fun a => done a ∨ a = it.hash) out m)
    (hfirst : ∀ e ∈ m.entries, e.iter ∈ descendants → ModifiedOk pool done e) :
    ModifiedSetOk pool (fun a => done a ∨ a = it.hash) out
      (descendants.foldl (updateDescendant pool alreadyAdded it) m) := by
  induction descendants generalizing m with
  | nil => exact hm
  | cons d descendants ih =>
    rw [List.nodup_cons] at hnodup
    have hrest := fun d' hd' => hdesc d' (List.mem_cons_of_mem d hd')
    rw [List.foldl_cons]
    by_cases hadded : d ∈ alreadyAdded.entries
    · have hskip : updateDescendant pool alreadyAdded it m d = m := if_pos hadded
      rw [hskip]
      exact ih hnodup.2 hrest hm fun e he hd' => hfirst e he (List.mem_cons_of_mem d hd')
    · have hanc : pool.Ancestor it.hash d := by
        rcases hdesc d List.mem_cons_self with rfl | hanc
        · exact absurd hin hadded
        · exact hanc
      -- whichever entry is written for `d`, it has one more ancestor taken off
      have hwrite : ∃ e', updateDescendant pool alreadyAdded it m d = m.assign e' ∧ e'.iter = d ∧
          ModifiedOk pool (fun a => done a ∨ a = it.hash) e' := by
        unfold updateDescendant
        rw [if_neg hadded]
        cases hfind : m.find? d with
        | some mit =>
          obtain ⟨hmem, hkey⟩ := OrderedMap.find?_eq_some_iff.mp hfind
          refine ⟨_, rfl, hkey, ?_⟩
          have hold := hfirst mit hmem (hkey ▸ List.mem_cons_self)
          exact hold.takeOff hit (hkey ▸ hanc) hnew rfl rfl
        | none =>
          obtain ⟨entry, hentry, rfl⟩ := CTxMemPool.mem_hashes.mp hanc.right_mem
          rw [CTxMemPool.find?_of_mem hentry]
          exact ⟨_, rfl, rfl, (ModifiedOk.new hentry).takeOff hit hanc hnew rfl rfl⟩
      obtain ⟨e', heq, hiter, hok⟩ := hwrite
      rw [heq]
      apply ih hnodup.2 hrest
      · intro e he
        rcases OrderedMap.mem_assign.mp he with rfl | ⟨he, _⟩
        · exact ⟨hok, hiter ▸ hout d hadded hanc⟩
        · exact hm e he
      · intro e he hd'
        rcases OrderedMap.mem_assign.mp he with rfl | ⟨he, _⟩
        · exact absurd (hiter ▸ hd') hnodup.1
        · exact hfirst e he (List.mem_cons_of_mem d hd')

/-- **All added transactions.** -/
theorem updateForAdded_ok (hpool : pool.Consistent)
    (hout : ∀ k ∈ alreadyAdded.entries, ∀ d, d ∉ alreadyAdded.entries → pool.Ancestor k d → ¬ out d)
    (hks : ∀ k ∈ ks, k ∈ alreadyAdded.entries ∧ k ∈ pool.hashes ∧ ¬ done k)
    (hnodup : ks.Nodup) (hm : ModifiedSetOk pool done out m) :
    ModifiedSetOk pool (fun a => done a ∨ a ∈ ks) out
      (ks.foldl (updateForAdded pool alreadyAdded) m) := by
  induction ks generalizing done m with
  | nil => exact fun e he => ⟨(hm e he).1.mono fun _ h => .inl h, (hm e he).2⟩
  | cons k ks ih =>
    rw [List.nodup_cons] at hnodup
    obtain ⟨hin, hk, hnew⟩ := hks k List.mem_cons_self
    obtain ⟨it, hit, rfl⟩ := CTxMemPool.mem_hashes.mp hk
    have hstep : ModifiedSetOk pool (fun a => done a ∨ a = it.hash) out
        (updateForAdded pool alreadyAdded m it.hash) := by
      unfold updateForAdded
      rw [CTxMemPool.find?_of_mem hit]
      apply updateDescendants_ok hit hin hnew (hout it.hash hin) (KeySet.nodup _)
      · intro d hd
        exact (hpool.mem_calculateDescendants hk).mp hd
      · exact fun e he => ⟨(hm e he).1.mono fun _ h => .inl h, (hm e he).2⟩
      · exact fun e he _ => (hm e he).1
    have hks' : ∀ k' ∈ ks, k' ∈ alreadyAdded.entries ∧ k' ∈ pool.hashes ∧
        ¬ (done k' ∨ k' = it.hash) := by
      intro k' hk'
      obtain ⟨hin', hmem', hnew'⟩ := hks k' (List.mem_cons_of_mem _ hk')
      refine ⟨hin', hmem', ?_⟩
      rintro (h | rfl)
      · exact hnew' h
      · exact hnodup.1 hk'
    have hrest := ih hks' hnodup.2 hstep
    intro e he
    refine ⟨(hrest e he).1.mono ?_, (hrest e he).2⟩
    rintro a ((h | h) | h)
    · exact .inl h
    · exact .inr (h ▸ List.mem_cons_self)
    · exact .inr (List.mem_cons_of_mem _ h)

end Updates

/-! ## Packages -/

theorem map_hash_filterMap (hks : ∀ k ∈ ks, k ∈ pool.hashes) :
    (ks.filterMap pool.mapTx.find?).map CTxMemPoolEntry.hash = ks := by
  induction ks with
  | nil => rfl
  | cons k ks ih =>
    obtain ⟨e, he, rfl⟩ := CTxMemPool.mem_hashes.mp (hks k List.mem_cons_self)
    simp only [List.filterMap_cons, CTxMemPool.find?_of_mem he, List.map_cons]
    rw [ih fun k hk => hks k (List.mem_cons_of_mem _ hk)]

theorem mem_filterMap (he : e ∈ ks.filterMap pool.mapTx.find?) :
    e ∈ pool.mapTx.entries := by
  obtain ⟨k, _, hfind⟩ := List.mem_filterMap.mp he
  exact (OrderedMap.find?_eq_some_iff.mp hfind).1

theorem not_compareTxIterByAncestorCount_iff (a b : CTxMemPoolEntry G) :
    ¬ compareTxIterByAncestorCount b a = true ↔ a.nCountWithAncestors < b.nCountWithAncestors ∨
      a.nCountWithAncestors = b.nCountWithAncestors ∧ a.hash ≤ b.hash := by
  unfold compareTxIterByAncestorCount
  split
  · next hne =>
    rw [decide_eq_true_eq]
    omega
  · next heq =>
    rw [not_not] at heq
    rw [decide_eq_true_eq, BitVec.not_lt]
    constructor
    · exact fun h => .inr ⟨heq.symm, h⟩
    · rintro (h | ⟨_, h⟩)
      · omega
      · exact h

/-- The package in the order of its counts. -/
theorem sortForBlock_pairwise (package : List (CTxMemPoolEntry G)) :
    (sortForBlock package).Pairwise fun a b => a.nCountWithAncestors ≤ b.nCountWithAncestors := by
  have htotal : Std.Total (α := CTxMemPoolEntry G)
      fun a b => ¬ compareTxIterByAncestorCount b a = true := ⟨by
    intro a b
    rw [not_compareTxIterByAncestorCount_iff, not_compareTxIterByAncestorCount_iff]
    rcases lt_trichotomy a.nCountWithAncestors b.nCountWithAncestors with h | h | h
    · exact .inl (.inl h)
    · rcases BitVec.le_total a.hash b.hash with hle | hle
      · exact .inl (.inr ⟨h, hle⟩)
      · exact .inr (.inr ⟨h.symm, hle⟩)
    · exact .inr (.inl h)⟩
  have htrans : IsTrans (CTxMemPoolEntry G)
      fun a b => ¬ compareTxIterByAncestorCount b a = true := ⟨by
    intro a b c
    rw [not_compareTxIterByAncestorCount_iff, not_compareTxIterByAncestorCount_iff,
      not_compareTxIterByAncestorCount_iff]
    rintro (hab | ⟨hab, hle⟩) (hbc | ⟨hbc, hle'⟩)
    · exact .inl (hab.trans hbc)
    · exact .inl (hbc ▸ hab)
    · exact .inl (hab ▸ hbc)
    · exact .inr ⟨hab.trans hbc, BitVec.le_trans hle hle'⟩⟩
  apply (List.pairwise_insertionSort _ package).imp
  intro a b h
  rcases (not_compareTxIterByAncestorCount_iff a b).mp h with h | ⟨h, _⟩
  · omega
  · omega

theorem mem_packageOf (hpool : pool.Consistent) {block : CBlockTemplate G}
    {iter : CTxMemPoolEntry G} (hiter : iter ∈ pool.mapTx.entries) {k : Uint256} :
    k ∈ (packageOf pool block iter).entries ↔
      k = iter.hash ∨ pool.Ancestor k iter.hash ∧ k ∉ block.inBlock.entries := by
  unfold packageOf
  rw [CTxMemPool.calculateMemPoolAncestors_noLimit]
  have hmem : iter.hash ∈ pool.hashes := CTxMemPool.mem_hashes.mpr ⟨iter, hiter, rfl⟩
  rw [KeySet.mem_assign, CBlockTemplate.onlyUnconfirmed, OrderedMap.filter, List.mem_filter,
    hpool.mem_ancestorsOf hmem, decide_eq_true_eq]

/-- A package that can be added: it is not empty, none of it is in the block, and ancestors are in
the package or in the block. -/
structure PackageOk (pool : CTxMemPool G) (block : CBlockTemplate G)
    (package : KeySet Uint256) : Prop where
  nonempty : package.entries ≠ []
  mem : ∀ k ∈ package.entries, k ∈ pool.hashes
  fresh : ∀ k ∈ package.entries, k ∉ block.inBlock.entries
  complete : ∀ b ∈ package.entries, ∀ a, pool.Ancestor a b →
    a ∈ block.inBlock.entries ∨ a ∈ package.entries

theorem packageOf_ok (hpool : pool.Consistent) {block : CBlockTemplate G}
    {iter : CTxMemPoolEntry G} (hiter : iter ∈ pool.mapTx.entries)
    (hnew : iter.hash ∉ block.inBlock.entries) :
    PackageOk pool block (packageOf pool block iter) := by
  have hmem : ∀ k, k ∈ (packageOf pool block iter).entries ↔
      k = iter.hash ∨ pool.Ancestor k iter.hash ∧ k ∉ block.inBlock.entries :=
    fun _ => mem_packageOf hpool hiter
  refine ⟨List.ne_nil_of_mem ((hmem iter.hash).mpr (.inl rfl)), ?_, ?_, ?_⟩
  · intro k hk
    rcases (hmem k).mp hk with rfl | ⟨hanc, _⟩
    · exact CTxMemPool.mem_hashes.mpr ⟨iter, hiter, rfl⟩
    · exact hanc.left_mem
  · intro k hk
    rcases (hmem k).mp hk with rfl | ⟨_, hout⟩
    · exact hnew
    · exact hout
  · intro b hb a hab
    by_cases hin : a ∈ block.inBlock.entries
    · exact .inl hin
    · refine .inr ((hmem a).mpr (.inr ⟨?_, hin⟩))
      rcases (hmem b).mp hb with rfl | ⟨hanc, _⟩
      · exact hab
      · exact Relation.TransGen.trans hab hanc

namespace PackageOk

variable {start block : CBlockTemplate G} {package : KeySet Uint256}
  {l : List (CTxMemPoolEntry G)}

/-- The entries as they are added. -/
abbrev sorted (pool : CTxMemPool G) (package : KeySet Uint256) : List (CTxMemPoolEntry G) :=
  sortForBlock (package.entries.filterMap pool.mapTx.find?)

theorem mem_sorted {e : CTxMemPoolEntry G} (he : e ∈ sorted pool package) :
    e ∈ pool.mapTx.entries :=
  mem_filterMap ((List.perm_insertionSort _ _).mem_iff.mp he)

variable (h : PackageOk pool block package)

include h

theorem perm_sorted : ((sorted pool package).map CTxMemPoolEntry.hash).Perm package.entries := by
  have hmap := (List.perm_insertionSort (fun a b => ¬ compareTxIterByAncestorCount b a = true)
    (package.entries.filterMap pool.mapTx.find?)).map CTxMemPoolEntry.hash
  rwa [map_hash_filterMap h.mem] at hmap

theorem chosen (hchosen : Chosen pool start l block) (ctx : AssemblerContext G) (f : Bool) :
    Chosen pool start (l ++ sorted pool package)
      ((sorted pool package).foldl (CBlockTemplate.addToBlock ctx f) block) := by
  apply hchosen.addAll ctx (fun e he => mem_sorted he) (h.perm_sorted.nodup_iff.mpr package.nodup)
  intro e he
  exact h.fresh e.hash (h.perm_sorted.mem_iff.mp (List.mem_map_of_mem he))

/-- The counts put ancestors first. -/
theorem ancestorsFirst (hpool : pool.Consistent) (hchosen : Chosen pool start l block)
    (hfirst : AncestorsFirst pool l) : AncestorsFirst pool (l ++ sorted pool package) := by
  let rank : Uint256 → Int := pool.number CTxMemPoolEntry.nCountWithAncestors
  have hrank : ∀ e ∈ pool.mapTx.entries, rank e.hash = e.nCountWithAncestors := by
    intro e he
    show pool.number _ _ = _
    rw [CTxMemPool.number, CTxMemPool.find?_of_mem he]
    rfl
  unfold AncestorsFirst
  rw [List.map_append]
  apply PredecessorsFirst.append_sorted hfirst rank
  · intro a ha b hb hab
    obtain ⟨ea, hea, rfl⟩ := List.mem_map.mp ha
    obtain ⟨eb, heb, rfl⟩ := List.mem_map.mp hb
    rw [hrank ea (mem_sorted hea), hrank eb (mem_sorted heb)]
    exact hpool.count_lt (mem_sorted hea) (mem_sorted heb) hab
  · rw [List.pairwise_map]
    apply (sortForBlock_pairwise _).imp_of_mem
    intro a b ha hb hle
    rwa [hrank a (mem_sorted ha), hrank b (mem_sorted hb)]
  · intro b hb a hab
    rw [h.perm_sorted.mem_iff, ← hchosen.inBlock]
    exact h.complete b (h.perm_sorted.mem_iff.mp hb) a hab

end PackageOk

/-- The invariant of the loop. -/
structure PackageInv (pool : CTxMemPool G) (start : CBlockTemplate G)
    (p : PackageLocals G) : Prop where
  selected : Selected pool start p.block
  modified : ModifiedSetOk pool (· ∈ p.block.inBlock.entries) (· ∈ p.block.inBlock.entries)
    p.mapModifiedTx
  remaining : ∀ e ∈ p.remaining, e ∈ pool.mapTx.entries
  length : p.remaining.length ≤ pool.mapTx.entries.length

/-- Entries not in the block, then what is left to look at. -/
def packageMeasure (pool : CTxMemPool G) (p : PackageLocals G) : Nat :=
  (2 * pool.mapTx.entries.length + 2) *
    (pool.mapTx.entries.length - p.block.inBlock.entries.length) +
    (p.mapModifiedTx.entries.length + p.remaining.length)

theorem PackageInv.skip {start : CBlockTemplate G} {mi : CTxMemPoolEntry G}
    {rest : List (CTxMemPoolEntry G)} (h : PackageInv pool start p)
    (hr : p.remaining = mi :: rest) :
    PackageInv pool start { p with remaining := rest } ∧
      packageMeasure pool { p with remaining := rest } < packageMeasure pool p := by
  have hlen := h.length
  rw [hr] at hlen
  refine ⟨⟨h.selected, h.modified, ?_, Nat.le_of_succ_le hlen⟩, ?_⟩
  · exact fun e he => h.remaining e (hr ▸ List.mem_cons_of_mem mi he)
  · simp only [packageMeasure, hr, List.length_cons]
    omega

theorem ModifiedSetOk.length_le {done out : Uint256 → Prop}
    (h : ModifiedSetOk pool done out m) : m.entries.length ≤ pool.mapTx.entries.length := by
  rw [← List.length_map CTxMemPoolModifiedEntry.iter]
  apply length_le_of_hashes m.nodup_keys
  intro k hk
  obtain ⟨e, he, rfl⟩ := List.mem_map.mp hk
  exact (h e he).1.mem_hashes

theorem mem_foldl_erase {p : List (CTxMemPoolEntry G)} {e : CTxMemPoolModifiedEntry}
    (he : e ∈ (p.foldl (fun m e => OrderedMap.erase e.hash m) m).entries) :
    e ∈ m.entries ∧ e.iter ∉ p.map CTxMemPoolEntry.hash := by
  induction p generalizing m with
  | nil => exact ⟨he, List.not_mem_nil⟩
  | cons x p ih =>
    obtain ⟨hmem, hnot⟩ := ih he
    obtain ⟨hmem, hne⟩ := List.mem_filter.mp hmem
    rw [decide_eq_true_eq] at hne
    rw [List.map_cons, List.mem_cons, not_or]
    exact ⟨hmem, hne, hnot⟩

/-- **A package is added**, and what depends on it is updated. -/
theorem addPackage_inv (hpool : pool.Consistent) (ctx : AssemblerContext G)
    {start : CBlockTemplate G} (h : PackageInv pool start p) {package : KeySet Uint256}
    (hpackage : PackageOk pool p.block package) (f : Bool) {q : Nat} :
    PackageInv pool start (addPackage ctx pool f package p) ∧
      packageMeasure pool (addPackage ctx pool f package p) <
        (2 * pool.mapTx.entries.length + 2) *
          (pool.mapTx.entries.length - p.block.inBlock.entries.length) + q := by
  obtain ⟨l, hchosen, hfirst⟩ := h.selected
  have hadded := hpackage.chosen hchosen ctx f
  have hordered := hpackage.ancestorsFirst hpool hchosen hfirst
  have hblock : ∀ k, k ∈ (addPackage ctx pool f package p).block.inBlock.entries ↔
      k ∈ p.block.inBlock.entries ∨ k ∈ package.entries := by
    intro k
    rw [hchosen.inBlock, ← hpackage.perm_sorted.mem_iff, ← List.mem_append, ← List.map_append]
    exact hadded.inBlock k
  have hmodified : ModifiedSetOk pool
      (· ∈ (addPackage ctx pool f package p).block.inBlock.entries)
      (· ∈ (addPackage ctx pool f package p).block.inBlock.entries)
      (addPackage ctx pool f package p).mapModifiedTx := by
    -- what is left after the package was taken out of the set
    have herased : ModifiedSetOk pool (· ∈ p.block.inBlock.entries)
        (fun k => k ∈ p.block.inBlock.entries ∨ k ∈ package.entries)
        ((PackageOk.sorted pool package).foldl (fun m e => OrderedMap.erase e.hash m)
          p.mapModifiedTx) := by
      intro e he
      obtain ⟨hmem, hnot⟩ := mem_foldl_erase he
      rw [hpackage.perm_sorted.mem_iff] at hnot
      obtain ⟨hok, hout⟩ := h.modified e hmem
      exact ⟨hok, fun hin => hin.elim hout hnot⟩
    have hout : ∀ k ∈ package.entries, ∀ d, d ∉ package.entries → pool.Ancestor k d →
        ¬ (d ∈ p.block.inBlock.entries ∨ d ∈ package.entries) := by
      rintro k hk d hd hanc (hin | hin)
      · rw [hchosen.inBlock] at hin
        exact hpackage.fresh k hk ((hchosen.inBlock k).mpr (hfirst.mem hin hanc))
      · exact hd hin
    have hupdated := updateForAdded_ok hpool hout
      (fun k hk => ⟨hk, hpackage.mem k hk, hpackage.fresh k hk⟩) package.nodup herased
    intro e he
    obtain ⟨hok, hnot⟩ := hupdated e he
    exact ⟨hok.mono fun a ha => (hblock a).mpr ha, fun hin => hnot ((hblock e.iter).mp hin)⟩
  refine ⟨⟨⟨_, hadded, hordered⟩, hmodified, h.remaining, h.length⟩, ?_⟩
  have hgrown : p.block.inBlock.entries.length <
      (addPackage ctx pool f package p).block.inBlock.entries.length := by
    obtain ⟨k, hk⟩ := List.exists_mem_of_ne_nil _ hpackage.nonempty
    have hsub : ∀ k' ∈ (OrderedMap.assign k p.block.inBlock).entries,
        k' ∈ (addPackage ctx pool f package p).block.inBlock.entries := by
      intro k' hk'
      rw [hblock]
      rcases KeySet.mem_assign.mp hk' with rfl | hk'
      · exact .inr hk
      · exact .inl hk'
    have hle := KeySet.length_le hsub
    rwa [KeySet.length_assign (hpackage.fresh k hk)] at hle
  apply measure_lt hgrown hadded.length_inBlock_le
  have hm := hmodified.length_le
  have hr := h.length
  show (addPackage ctx pool f package p).mapModifiedTx.entries.length + p.remaining.length ≤ _
  omega

/-- What is chosen: the best modified entry, or the next entry of the pool. -/
theorem choosePackage_cases (h : choosePackage p = some (choice, p')) :
    (choice.fUsingModified = true ∧ choice.values ∈ p.mapModifiedTx.entries ∧ p' = p) ∨
      (choice.fUsingModified = false ∧ ∃ mi remaining, p.remaining = mi :: remaining ∧
        choice.values = .new mi ∧ p' = { p with remaining }) := by
  have hbest : ∀ {modit rest}, takeBest compareModifiedEntry p.mapModifiedTx.entries =
      some (modit, rest) → modit ∈ p.mapModifiedTx.entries := fun hbest =>
    (perm_of_takeBest hbest).mem_iff.mpr List.mem_cons_self
  unfold choosePackage at h
  split at h
  · cases h
  · next modit _ _ htake =>
    cases h
    exact .inl ⟨rfl, hbest htake, rfl⟩
  · next mi remaining hremaining _ =>
    cases h
    exact .inr ⟨rfl, mi, remaining, hremaining, rfl, rfl⟩
  · next mi remaining modit _ hremaining htake =>
    split at h
    · cases h
      exact .inl ⟨rfl, hbest htake, rfl⟩
    · cases h
      exact .inr ⟨rfl, mi, remaining, hremaining, rfl, rfl⟩

theorem length_erase_lt {e : CTxMemPoolModifiedEntry} (he : e ∈ m.entries) :
    (OrderedMap.erase e.iter m).entries.length < m.entries.length := by
  have hfind : m.find? e.iter = some e := OrderedMap.find?_eq_some_iff.mpr ⟨he, rfl⟩
  rw [(OrderedMap.perm_of_find? hfind).length_eq, List.length_cons]
  omega

/-- A choice that fails, or is not even tried, makes the rest smaller. -/
theorem failPackage_inv {start : CBlockTemplate G} (h : PackageInv pool start p)
    (hchoice : choosePackage p = some (choice, p')) :
    PackageInv pool start p' ∧ p'.block = p.block ∧
      PackageInv pool start (failPackage choice p') ∧
      packageMeasure pool (failPackage choice p') < packageMeasure pool p := by
  rcases choosePackage_cases hchoice with ⟨husing, hmem, rfl⟩ | ⟨husing, mi, rest, hr, _, rfl⟩
  · refine ⟨h, rfl, ?_⟩
    rw [failPackage, if_pos husing]
    refine ⟨⟨h.selected, ?_, h.remaining, h.length⟩, ?_⟩
    · intro e he
      exact h.modified e (List.mem_filter.mp he).1
    · have hlt := length_erase_lt hmem
      simp only [packageMeasure]
      omega
  · have hskip := h.skip hr
    rw [failPackage, if_neg (husing ▸ Bool.false_ne_true)]
    exact ⟨hskip.1, rfl, hskip⟩

theorem getFeeFor_isSome (nSatoshisPerK : Int) {nBytes : Int} (h : 0 ≤ nBytes) :
    ∃ nFee, getFeeFor nSatoshisPerK nBytes = some nFee := by
  unfold getFeeFor
  rw [if_neg (not_lt.mpr h)]
  dsimp only
  split
  · exact ⟨_, rfl⟩
  · exact ⟨_, rfl⟩

/-- **The chosen package.** -/
theorem tryPackage_sat (hpool : pool.Consistent) {start : CBlockTemplate G} (f : Bool)
    (h : PackageInv pool start p) (hchoice : choosePackage p = some (choice, p'))
    (hok : ModifiedOk pool (· ∈ p.block.inBlock.entries) choice.values)
    (hnew : choice.values.iter ∉ p.block.inBlock.entries) :
    (tryPackage ctx pool f choice p').Sat (PackageInv pool start)
      (fun p => Selected pool start p.block) (packageMeasure pool) (packageMeasure pool p) := by
  obtain ⟨hinv, hblock, hfail⟩ := failPackage_inv h hchoice
  obtain ⟨iter, hiter, heq⟩ := CTxMemPool.mem_hashes.mp hok.mem_hashes
  have hfresh : iter.hash ∉ p'.block.inBlock.entries := by
    rw [heq, hblock]
    exact hnew
  obtain ⟨nMinFee, hfee⟩ := getFeeFor_isSome ctx.minRelayTxFee (hok.size_nonneg hpool)
  unfold tryPackage
  rw [← heq, CTxMemPool.find?_of_mem hiter]
  dsimp only
  rw [if_neg hfresh, hfee]
  dsimp only
  split
  · exact hinv.selected
  split
  · exact hfail
  split
  · exact hfail
  · have hadd := addPackage_inv hpool ctx hinv (packageOf_ok hpool hiter hfresh) f
      (q := p.mapModifiedTx.entries.length + p.remaining.length)
    rw [hblock] at hadd ⊢
    exact hadd

/-- **One turn.** -/
theorem packageStep_sat (hpool : pool.Consistent) (ctx : AssemblerContext G)
    {start : CBlockTemplate G} (f : Bool) (p : PackageLocals G) (h : PackageInv pool start p) :
    (packageStep ctx pool f p).Sat (PackageInv pool start)
      (fun p => Selected pool start p.block) (packageMeasure pool) (packageMeasure pool p) := by
  -- a modified entry is outside the block, and so is an entry that is not skipped
  have htry : ∀ {choice p'}, choosePackage p = some (choice, p') →
      (∀ mi rest, p.remaining = mi :: rest → mi.hash ∉ p.block.inBlock.entries) →
      (tryPackage ctx pool f choice p').Sat (PackageInv pool start)
        (fun p => Selected pool start p.block) (packageMeasure pool) (packageMeasure pool p) := by
    intro choice p' hchoice hskip
    apply tryPackage_sat hpool f h hchoice
    · rcases choosePackage_cases hchoice with ⟨_, hmem, _⟩ | ⟨_, mi, rest, hr, hvalues, _⟩
      · exact (h.modified _ hmem).1
      · rw [hvalues]
        exact .new (h.remaining mi (hr ▸ List.mem_cons_self))
    · rcases choosePackage_cases hchoice with ⟨_, hmem, _⟩ | ⟨_, mi, rest, hr, hvalues, _⟩
      · exact (h.modified _ hmem).2
      · rw [hvalues]
        exact hskip mi rest hr
  unfold packageStep
  split
  · next mi rest hremaining =>
    split
    · exact h.skip hremaining
    · next hskip =>
      split
      · exact h.selected
      · next choice p' hchoice =>
        apply htry hchoice
        intro mi' rest' hr hin
        rw [hremaining] at hr
        cases hr
        apply hskip
        simp [skipMapTxEntry, hin]
  · next hremaining =>
    split
    · exact h.selected
    · next choice p' hchoice =>
      apply htry hchoice
      intro mi rest hr
      rw [hremaining] at hr
      cases hr

/-- **The selection of packages ends**, with ancestors first. -/
theorem addPackageTxs_selected (hpool : pool.Consistent) (ctx : AssemblerContext G)
    {start s : CBlockTemplate G} (h : Selected pool start s) :
    ∃ s', addPackageTxs ctx pool s = some s' ∧ Selected pool start s' := by
  obtain ⟨l, hchosen, hfirst⟩ := h
  let remaining := pool.mapTx.entries.insertionSort fun a b =>
    ¬ compareTxMemPoolEntryByAncestorFee b a
  have hlen : remaining.length = pool.mapTx.entries.length := List.length_insertionSort _ _
  have hmodified : ModifiedSetOk pool (· ∈ s.inBlock.entries) (· ∈ s.inBlock.entries)
      (updatePackagesForAdded pool s.inBlock ∅) := by
    have hempty : ModifiedSetOk pool (fun _ => False) (· ∈ s.inBlock.entries) ∅ :=
      fun e he => absurd he List.not_mem_nil
    have hupdated := updateForAdded_ok hpool (fun _ _ d hd _ => hd)
      (fun k hk => ⟨hk, hchosen.inBlock_mem_hashes hk, not_false⟩) s.inBlock.nodup hempty
    exact fun e he => ⟨(hupdated e he).1.mono fun a ha => ha.resolve_left not_false,
      (hupdated e he).2⟩
  have hinv : PackageInv pool start ⟨s, updatePackagesForAdded pool s.inBlock ∅, ∅, remaining⟩ :=
    ⟨⟨l, hchosen, hfirst⟩, hmodified, fun e he => (List.mem_insertionSort _).mp he, hlen.le⟩
  have hfuel : packageMeasure pool ⟨s, updatePackagesForAdded pool s.inBlock ∅, ∅, remaining⟩ <
      turns pool := by
    have hm := hmodified.length_le
    apply measure_lt_turns
    dsimp only
    omega
  obtain ⟨p, hrun, hpost⟩ := run_sat (packageStep_sat hpool ctx
    (decide (ctx.limits.nBlockMaxSize < maxBlockSerializedSize - 1000))) hinv hfuel
  exact ⟨p.block, congrArg (Option.map PackageLocals.block) hrun, hpost⟩

end Navcoin
