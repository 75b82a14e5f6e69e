import Navcoin.Index.DiskBlockIndex
import Navcoin.Lib.KeyedLoop

/-!
# The block tree database

`WriteBatchSync` writes block indexes together with the votes that were recorded for their blocks;
`LoadBlockIndexGuts` reads them when the node starts.  Before the DAO a vote is kept as one bit, and
the supplies are kept once the block was connected.

* `loadRow_eq_ok_iff`: one row;
* `loaded_at`: the index and the votes of a block after the load;
* `blockIndex_reloaded_iff`: when everything comes back.
-/

namespace Navcoin

/-! ## In memory -/

/-- What the hash of a block covers. -/
structure BlockHeader where
  nVersion : BitVec 32
  hashPrev : Uint256
  hashMerkleRoot : Uint256
  nTime : UInt32
  nBits : UInt32
  nNonce : UInt32

/-- A `CBlockIndex`, with the hash of its predecessor. -/
structure IndexNode extends DiskPosition, DiskSupply where
  pprev : Option Uint256 := none
  nVersion : BitVec 32 := 0
  hashMerkleRoot : Uint256 := 0
  nTime : UInt32 := 0
  nBits : UInt32 := 0
  nNonce : UInt32 := 0
  nMint : BitVec 64 := 0
  nCFSupply : BitVec 64 := 0
  nCFLocked : BitVec 64 := 0
  strDZeel : Bytes := []
  nFlags : UInt32 := 0
  nStakeModifier : UInt64 := 0
  hashProof : Uint256 := 0

/-- The indexes of the node and the votes it has recorded, by the hash of the block. -/
structure IndexMemory where
  mapBlockIndex : Uint256 → Option IndexNode := fun _ => none
  vProposalVotes : Uint256 → Option (List (Uint256 × BitVec 32)) := fun _ => none
  vPaymentRequestVotes : Uint256 → Option (List (Uint256 × BitVec 32)) := fun _ => none
  mapSupport : Uint256 → Option (HashMap Bool) := fun _ => none
  mapConsultationVotes : Uint256 → Option (HashMap UInt64) := fun _ => none

namespace IndexNode

def header (node : IndexNode) : BlockHeader :=
  ⟨node.nVersion, node.pprev.getD 0, node.hashMerkleRoot, node.nTime, node.nBits, node.nNonce⟩

end IndexNode

/-- The votes recorded for a block. -/
def IndexMemory.votes (mem : IndexMemory) (hash : Uint256) : DiskVotes where
  vPaymentRequestVotes := (mem.vPaymentRequestVotes hash).getD []
  vProposalVotes := (mem.vProposalVotes hash).getD []
  mapSupport := (mem.mapSupport hash).getD ∅
  mapConsultationVotes := (mem.mapConsultationVotes hash).getD ∅

/-- The hash of headers, the version of the format, and what `nStakeTime` happens to be when it was
never set. -/
structure IndexFormat where
  getHash : BlockHeader → Uint256
  clientVersion : BitVec 32
  indeterminateStakeTime : UInt32

/-! ## Writing -/

/-- `CDiskBlockIndex(pindex)` with the votes of the block. -/
def IndexMemory.diskIndex (fmt : IndexFormat) (mem : IndexMemory) (node : IndexNode) :
    CDiskBlockIndex :=
  { node.toDiskPosition, node.toDiskSupply, mem.votes (fmt.getHash node.header) with
    nFlags := node.nFlags
    nStakeModifier := node.nStakeModifier
    nStakeTime := fmt.indeterminateStakeTime
    hashProof := node.hashProof
    nVersion := node.nVersion
    hashPrev := node.pprev.getD 0
    hashMerkleRoot := node.hashMerkleRoot
    nTime := node.nTime
    nBits := node.nBits
    nNonce := node.nNonce
    blockHash := fmt.getHash node.header
    nCFSupply := node.nCFSupply
    nCFLocked := node.nCFLocked }

/-- The rows of block indexes, under the hash of the block. -/
abbrev IndexRows := HashMap Bytes

def IndexMemory.row (fmt : IndexFormat) (mem : IndexMemory) (e : Uint256 × IndexNode) :
    Uint256 × Bytes :=
  (e.1, (mem.diskIndex fmt e.2).serialize fmt.clientVersion)

def writeBatchSync (fmt : IndexFormat) (mem : IndexMemory)
    (blockinfo : List (Uint256 × IndexNode)) (rows : IndexRows) : IndexRows :=
  rows.assignAll (blockinfo.map (mem.row fmt))

/-! ## Loading -/

def CDiskBlockIndex.header (d : CDiskBlockIndex) : BlockHeader :=
  ⟨d.nVersion, d.hashPrev, d.hashMerkleRoot, d.nTime, d.nBits, d.nNonce⟩

/-- `InsertBlockIndex` leaves an empty index for a hash that is not there. -/
def IndexMemory.insertBlockIndex (mem : IndexMemory) (hash : Uint256) : IndexMemory :=
  if hash = 0 ∨ (mem.mapBlockIndex hash).isSome then mem
  else { mem with mapBlockIndex := Function.update mem.mapBlockIndex hash (some {}) }

/-- The index that a row is loaded into; what is not on disk has its default. -/
def CDiskBlockIndex.node (d : CDiskBlockIndex) : IndexNode :=
  { d.toDiskPosition, d.toDiskSupply with
    pprev := if d.hashPrev = 0 then none else some d.hashPrev
    nVersion := d.nVersion
    hashMerkleRoot := d.hashMerkleRoot
    nTime := d.nTime
    nBits := d.nBits
    nNonce := d.nNonce
    nCFSupply := d.nCFSupply
    nCFLocked := d.nCFLocked
    nFlags := d.nFlags
    nStakeModifier := d.nStakeModifier
    hashProof := d.hashProof }

/-- Votes are assigned where there are some. -/
def assignVotes {α : Type} (m : Uint256 → Option α) (hash : Uint256) (isEmpty : Bool) (v : α) :
    Uint256 → Option α :=
  if isEmpty then m else Function.update m hash (some v)

def IndexMemory.load (mem : IndexMemory) (hash : Uint256) (d : CDiskBlockIndex) : IndexMemory :=
  let mem := (mem.insertBlockIndex hash).insertBlockIndex d.hashPrev
  { mapBlockIndex := Function.update mem.mapBlockIndex hash (some d.node)
    vProposalVotes :=
      assignVotes mem.vProposalVotes hash d.vProposalVotes.isEmpty d.vProposalVotes
    vPaymentRequestVotes :=
      assignVotes mem.vPaymentRequestVotes hash d.vPaymentRequestVotes.isEmpty
        d.vPaymentRequestVotes
    mapSupport := assignVotes mem.mapSupport hash d.mapSupport.entries.isEmpty d.mapSupport
    mapConsultationVotes :=
      assignVotes mem.mapConsultationVotes hash d.mapConsultationVotes.entries.isEmpty
        d.mapConsultationVotes }

/-- One round of the loop; no index is inserted for a hash that is zero, and the node stops. -/
def loadRow (fmt : IndexFormat) (mem : IndexMemory) (row : Uint256 × Bytes) :
    Except String IndexMemory :=
  match CDiskBlockIndex.unserialize.run row.2 with
  | .error _ => .error "LoadBlockIndex() : failed to read value"
  | .ok (d, _) =>
    if fmt.getHash d.header = 0 then .error "null pointer"
    else .ok (mem.load (fmt.getHash d.header) d)

def loadBlockIndexGuts (fmt : IndexFormat) (rows : IndexRows) : Except String IndexMemory :=
  rows.entries.foldlM (loadRow fmt) {}

/-! ## One row -/

variable {row : Uint256 × Bytes} {k : Uint256}

section Rows

variable {fmt : IndexFormat} {mem mem' : IndexMemory}
variable {hash : Uint256}

theorem loadRow_eq_ok_iff :
    loadRow fmt mem row = .ok mem' ↔
      ∃ d rest, CDiskBlockIndex.unserialize.run row.2 = .ok (d, rest) ∧
        fmt.getHash d.header ≠ 0 ∧ mem' = mem.load (fmt.getHash d.header) d := by
  unfold loadRow
  cases hrun : CDiskBlockIndex.unserialize.run row.2 with
  | error e => simp
  | ok p =>
    obtain ⟨d, rest⟩ := p
    by_cases hzero : fmt.getHash d.header = 0
    · simp only [if_pos hzero]
      refine iff_of_false (fun h => by cases h) ?_
      rintro ⟨d', rest', heq, hne, -⟩
      cases heq
      exact hne hzero
    · simp only [if_neg hzero, Except.ok.injEq]
      constructor
      · rintro rfl
        exact ⟨d, rest, rfl, hzero, rfl⟩
      · rintro ⟨d', rest', heq, -, rfl⟩
        cases heq
        rfl

/-- What there is under a hash; an empty index is like none. -/
def IndexMemory.seen (mem : IndexMemory) (hash : Uint256) : IndexNode × DiskVotes :=
  ((mem.mapBlockIndex hash).getD {}, mem.votes hash)

theorem seen_insertBlockIndex (mem : IndexMemory) (hash k : Uint256) :
    (mem.insertBlockIndex hash).seen k = mem.seen k := by
  unfold IndexMemory.insertBlockIndex
  split
  · rfl
  · next hnew =>
    have hnone : mem.mapBlockIndex hash = none := by
      rw [not_or, Option.not_isSome_iff_eq_none] at hnew
      exact hnew.2
    by_cases hk : k = hash
    · subst hk
      simp [IndexMemory.seen, IndexMemory.votes, hnone]
    · simp [IndexMemory.seen, IndexMemory.votes, hk]

theorem assignVotes_of_ne {α : Type} {m : Uint256 → Option α} {b : Bool} {v : α}
    (h : k ≠ hash) : assignVotes m hash b v k = m k := by
  cases b
  · exact Function.update_of_ne h ..
  · rfl

/-- A row changes what there is under the hash of its block only. -/
theorem seen_load_of_ne (h : k ≠ hash) (d : CDiskBlockIndex) :
    (mem.load hash d).seen k = mem.seen k := by
  have hseen := (seen_insertBlockIndex _ d.hashPrev k).trans
    (seen_insertBlockIndex mem hash k)
  rw [← hseen]
  simp only [IndexMemory.load, IndexMemory.seen, IndexMemory.votes, assignVotes_of_ne h,
    Function.update_of_ne h]

/-- Where no votes were recorded before, those of the row are. -/
theorem getD_assignVotes {α : Type} {m : Uint256 → Option α} {b : Bool} {v default : α}
    (hm : (m hash).getD default = default) (hb : b = true → v = default) :
    (assignVotes m hash b v hash).getD default = v := by
  unfold assignVotes
  cases b with
  | true => exact hm.trans (hb rfl).symm
  | false => simp

theorem seen_load_self (hvotes : mem.votes hash = {}) (d : CDiskBlockIndex) :
    (mem.load hash d).seen hash = (d.node, d.toDiskVotes) := by
  have hsame : ((mem.insertBlockIndex hash).insertBlockIndex d.hashPrev).votes hash = {} := by
    have hseen := (seen_insertBlockIndex _ d.hashPrev hash).trans
      (seen_insertBlockIndex mem hash hash)
    exact (congrArg Prod.snd hseen).trans hvotes
  unfold IndexMemory.load
  generalize (mem.insertBlockIndex hash).insertBlockIndex d.hashPrev = t at hsame
  rw [DiskVotes.mk.injEq] at hsame
  obtain ⟨hrequests, hproposals, hsupport, hconsultations⟩ := hsame
  refine Prod.ext ?_ ?_
  · show (Function.update t.mapBlockIndex hash (some d.node) hash).getD {} = d.node
    rw [Function.update_self]
    rfl
  · simp only [IndexMemory.seen, IndexMemory.votes]
    rw [getD_assignVotes hrequests List.isEmpty_iff.mp,
      getD_assignVotes hproposals List.isEmpty_iff.mp,
      getD_assignVotes hsupport fun h => OrderedMap.eq_empty_of_entries (List.isEmpty_iff.mp h),
      getD_assignVotes hconsultations fun h =>
        OrderedMap.eq_empty_of_entries (List.isEmpty_iff.mp h)]

theorem isSome_load (h : (mem.mapBlockIndex k).isSome) (d : CDiskBlockIndex) :
    ((mem.load hash d).mapBlockIndex k).isSome := by
  have hinsert : ∀ (t : IndexMemory) (hash : Uint256), (t.mapBlockIndex k).isSome →
      ((t.insertBlockIndex hash).mapBlockIndex k).isSome := by
    intro t hash ht
    unfold IndexMemory.insertBlockIndex
    split
    · exact ht
    · by_cases hk : k = hash
      · subst hk
        simp
      · simpa [hk] using ht
  have hkept := hinsert _ d.hashPrev (hinsert mem hash h)
  unfold IndexMemory.load
  by_cases hk : k = hash
  · subst hk
    simp
  · simpa [hk] using hkept

end Rows

/-! ## The whole load -/

/-- The blocks have the hashes of their headers, which differ and are not zero. -/
structure IndexFormat.Blocks (fmt : IndexFormat) (blockinfo : List (Uint256 × IndexNode)) :
    Prop where
  hash : ∀ e ∈ blockinfo, e.1 = fmt.getHash e.2.header
  nonzero : ∀ e ∈ blockinfo, e.1 ≠ 0
  nodup : (blockinfo.map Prod.fst).Nodup

/-- What is read of the row of a block. -/
def IndexMemory.readBack (fmt : IndexFormat) (mem : IndexMemory) (node : IndexNode) :
    CDiskBlockIndex := (mem.diskIndex fmt node).back

section Load

variable {fmt : IndexFormat} {mem loaded : IndexMemory} {blockinfo : List (Uint256 × IndexNode)}
variable {e : Uint256 × IndexNode}

theorem mem_writeBatchSync (h : fmt.Blocks blockinfo) :
    row ∈ (writeBatchSync fmt mem blockinfo ∅).entries ↔ ∃ e ∈ blockinfo, mem.row fmt e = row := by
  have hnodup : ((blockinfo.map (mem.row fmt)).map Prod.fst).Nodup := by
    rw [List.map_map]
    exact h.nodup
  rw [writeBatchSync, OrderedMap.mem_assignAll_empty hnodup, List.mem_map]

/-- The votes of the block have sizes that can be read. -/
def IndexMemory.Fits (fmt : IndexFormat) (mem : IndexMemory) (node : IndexNode) : Prop :=
  (mem.votes (fmt.getHash node.header)).SizesFit node.isDao

theorem run_row (hfits : mem.Fits fmt e.2) :
    CDiskBlockIndex.unserialize.run (mem.row fmt e).2 = .ok (mem.readBack fmt e.2, []) := by
  have hread := CDiskBlockIndex.unserialize_serialize fmt.clientVersion
    (d := mem.diskIndex fmt e.2) hfits []
  rwa [List.append_nil] at hread

theorem fits_of_run {p : CDiskBlockIndex × Bytes}
    (h : CDiskBlockIndex.unserialize.run (mem.row fmt e).2 = .ok p) : mem.Fits fmt e.2 := by
  by_contra hfits
  obtain ⟨err, herr⟩ := CDiskBlockIndex.unserialize_refused fmt.clientVersion
    (d := mem.diskIndex fmt e.2) hfits []
  rw [List.append_nil] at herr
  have hrun : CDiskBlockIndex.unserialize.run (mem.row fmt e).2 = .error err := herr
  rw [hrun] at h
  cases h

/-- The hash of the block that a row is about. -/
def rowHash (fmt : IndexFormat) (row : Uint256 × Bytes) : Uint256 :=
  match CDiskBlockIndex.unserialize.run row.2 with
  | .ok (d, _) => fmt.getHash d.header
  | .error _ => row.1

theorem seen_loadRow_of_ne (s : IndexMemory) (row : Uint256 × Bytes) (s' : IndexMemory)
    (k : Uint256) (h : loadRow fmt s row = .ok s') (hk : k ≠ rowHash fmt row) :
    s'.seen k = s.seen k := by
  obtain ⟨d, rest, hrun, -, rfl⟩ := loadRow_eq_ok_iff.mp h
  simp only [rowHash, hrun] at hk
  exact seen_load_of_ne hk d

theorem exists_loadRow {l : List (Uint256 × Bytes)} {s s' : IndexMemory}
    (h : l.foldlM (loadRow fmt) s = .ok s') (hrow : row ∈ l) :
    ∃ t t', loadRow fmt t row = .ok t' := by
  induction l generalizing s with
  | nil => cases hrow
  | cons a l ih =>
    rw [List.foldlM_cons, Except.bind_eq_ok_iff] at h
    obtain ⟨t, ht, hrest⟩ := h
    rcases List.mem_cons.mp hrow with rfl | hmem
    · exact ⟨s, t, ht⟩
    · exact ih hrest hmem

theorem isSome_of_foldlM {l : List (Uint256 × Bytes)} {s s' : IndexMemory}
    (h : l.foldlM (loadRow fmt) s = .ok s') (hk : (s.mapBlockIndex k).isSome) :
    (s'.mapBlockIndex k).isSome := by
  induction l generalizing s with
  | nil =>
    cases h
    exact hk
  | cons a l ih =>
    rw [List.foldlM_cons, Except.bind_eq_ok_iff] at h
    obtain ⟨t, ht, hrest⟩ := h
    obtain ⟨d, rest, -, -, rfl⟩ := loadRow_eq_ok_iff.mp ht
    exact ih hrest (isSome_load hk d)

/-- **What a block is loaded as.** -/
theorem loaded_at (hblocks : fmt.Blocks blockinfo)
    (h : loadBlockIndexGuts fmt (writeBatchSync fmt mem blockinfo ∅) = .ok loaded)
    (he : e ∈ blockinfo) :
    (mem.votes e.1).SizesFit e.2.isDao ∧
      loaded.mapBlockIndex e.1 = some (mem.readBack fmt e.2).node ∧
      loaded.votes e.1 = (mem.votes e.1).back e.2.isDao := by
  have hfits : ∀ e ∈ blockinfo, mem.Fits fmt e.2 := by
    intro e he
    obtain ⟨t, t', ht⟩ := exists_loadRow h ((mem_writeBatchSync hblocks).mpr ⟨e, he, rfl⟩)
    obtain ⟨d, rest, hrun, -⟩ := loadRow_eq_ok_iff.mp ht
    exact fits_of_run hrun
  have hhash : ∀ e ∈ blockinfo, rowHash fmt (mem.row fmt e) = e.1 := by
    intro e he
    simp only [rowHash, run_row (hfits e he)]
    exact (hblocks.hash e he).symm
  have hnodup : ((writeBatchSync fmt mem blockinfo ∅).entries.map (rowHash fmt)).Nodup := by
    have hkeys : (writeBatchSync fmt mem blockinfo ∅).entries.map (rowHash fmt) =
        (writeBatchSync fmt mem blockinfo ∅).entries.map Prod.fst := by
      refine List.map_congr_left fun row hrow => ?_
      obtain ⟨e, he, rfl⟩ := (mem_writeBatchSync hblocks).mp hrow
      exact hhash e he
    rw [hkeys]
    exact OrderedMap.nodup_keys _
  obtain ⟨pre, post, t, t', -, -, hstep, hpost, hbefore, hafter⟩ :=
    KeyedLoop.foldlM_at seen_loadRow_of_ne hnodup h
      ((mem_writeBatchSync hblocks).mpr ⟨e, he, rfl⟩)
  rw [hhash e he] at hbefore hafter
  obtain ⟨d, rest, hrun, -, rfl⟩ := loadRow_eq_ok_iff.mp hstep
  rw [run_row (hfits e he)] at hrun
  cases hrun
  have hkey : fmt.getHash (mem.readBack fmt e.2).header = e.1 := (hblocks.hash e he).symm
  rw [hkey] at hpost hafter
  rw [seen_load_self (congrArg Prod.snd hbefore)] at hafter
  have hsome := isSome_of_foldlM hpost (k := e.1)
    (by simp [IndexMemory.load, Function.update_self])
  obtain ⟨node, hnode⟩ := Option.isSome_iff_exists.mp hsome
  have hfirst : (loaded.mapBlockIndex e.1).getD {} = (mem.readBack fmt e.2).node :=
    congrArg Prod.fst hafter
  have hsecond : loaded.votes e.1 =
      (mem.votes (fmt.getHash e.2.header)).back e.2.isDao := congrArg Prod.snd hafter
  have hsizes := hfits e he
  rw [IndexMemory.Fits, ← hblocks.hash e he] at hsizes
  rw [← hblocks.hash e he] at hsecond
  refine ⟨hsizes, ?_, hsecond⟩
  rw [hnode] at hfirst ⊢
  exact congrArg some hfirst

theorem exists_loaded (hblocks : fmt.Blocks blockinfo)
    (hfits : ∀ e ∈ blockinfo, mem.Fits fmt e.2) :
    ∃ loaded, loadBlockIndexGuts fmt (writeBatchSync fmt mem blockinfo ∅) = .ok loaded := by
  have hrows : ∀ row ∈ (writeBatchSync fmt mem blockinfo ∅).entries, ∀ s,
      ∃ s', loadRow fmt s row = .ok s' := by
    intro row hrow s
    obtain ⟨e, he, rfl⟩ := (mem_writeBatchSync hblocks).mp hrow
    have hkey : fmt.getHash (mem.readBack fmt e.2).header = e.1 := (hblocks.hash e he).symm
    refine ⟨_, loadRow_eq_ok_iff.mpr ⟨_, _, run_row (hfits e he), ?_, rfl⟩⟩
    rw [hkey]
    exact hblocks.nonzero e he
  unfold loadBlockIndexGuts
  generalize (writeBatchSync fmt mem blockinfo ∅).entries = l at hrows
  generalize ({} : IndexMemory) = s
  induction l generalizing s with
  | nil => exact ⟨s, rfl⟩
  | cons row l ih =>
    obtain ⟨t, ht⟩ := hrows row List.mem_cons_self s
    obtain ⟨s', hs'⟩ := ih (fun r hr => hrows r (List.mem_cons_of_mem _ hr)) t
    refine ⟨s', ?_⟩
    rw [List.foldlM_cons, ht]
    exact hs'

end Load

/-! ## When everything comes back -/

theorem map_eq_self_iff {α : Type} {f : α → α} {l : List α} : l.map f = l ↔ ∀ a ∈ l, f a = a := by
  induction l with
  | nil => simp
  | cons a l ih => rw [List.map_cons, List.cons.injEq, ih, List.forall_mem_cons]

namespace DiskVotes

/-- Votes that one bit holds, and no votes of the DAO. -/
structure Simple (d : DiskVotes) : Prop where
  requests : ∀ e ∈ d.vPaymentRequestVotes, e.2 = 0 ∨ e.2 = 1
  proposals : ∀ e ∈ d.vProposalVotes, e.2 = 0 ∨ e.2 = 1
  support : d.mapSupport = ∅
  consultations : d.mapConsultationVotes = ∅

theorem ofProxy_proxy_iff (e : Uint256 × BitVec 32) :
    ofProxy (proxy e) = e ↔ e.2 = 0 ∨ e.2 = 1 := by
  obtain ⟨hash, vote⟩ := e
  simp only [ofProxy, proxy, Prod.mk.injEq, true_and]
  by_cases h : vote = 1
  · subst h
    simp
  · simp only [beq_eq_false_iff_ne.mpr h, Bool.false_eq_true, if_false, h, or_false]
    exact eq_comm

theorem proxies_iff (l : List (Uint256 × BitVec 32)) :
    (l.map proxy).map ofProxy = l ↔ ∀ e ∈ l, e.2 = 0 ∨ e.2 = 1 := by
  rw [List.map_map, map_eq_self_iff]
  exact forall₂_congr fun e _ => ofProxy_proxy_iff e

theorem back_eq_iff (fDao : Bool) (d : DiskVotes) :
    d.back fDao = d ↔ (fDao = false → d.Simple) := by
  cases fDao with
  | true => exact iff_of_true rfl fun h => by cases h
  | false =>
    simp only [back, Bool.false_eq_true, if_false, forall_const]
    constructor
    · intro h
      refine ⟨(proxies_iff _).mp (congrArg vPaymentRequestVotes h),
        (proxies_iff _).mp (congrArg vProposalVotes h), (congrArg mapSupport h).symm,
        (congrArg mapConsultationVotes h).symm⟩
    · rintro ⟨hrequests, hproposals, hsupport, hconsultations⟩
      rw [(proxies_iff _).mpr hrequests, (proxies_iff _).mpr hproposals]
      obtain ⟨requests, proposals, support, consultations⟩ := d
      cases hsupport
      cases hconsultations
      rfl

end DiskVotes

theorem DiskSupply.back_eq_iff (fSupply : Bool) (d : DiskSupply) :
    d.back fSupply = d ↔ (fSupply = false → d = {}) := by
  cases fSupply with
  | true => exact iff_of_true rfl fun h => by cases h
  | false =>
    simp only [forall_const]
    exact eq_comm

/-- The block has its votes, its fund, its supplies and its stake data after the load. -/
structure IndexMemory.Reproduces (mem loaded : IndexMemory) (e : Uint256 × IndexNode) : Prop where
  votes : loaded.votes e.1 = mem.votes e.1
  node : ∃ node, loaded.mapBlockIndex e.1 = some node ∧ node.nCFSupply = e.2.nCFSupply ∧
    node.nCFLocked = e.2.nCFLocked ∧ node.toDiskSupply = e.2.toDiskSupply ∧
    node.nFlags = e.2.nFlags ∧ node.nStakeModifier = e.2.nStakeModifier ∧
    node.hashProof = e.2.hashProof

/-- What the status bits of a block ask of it: before the DAO every vote is a yes or a no and there
are none on consultations, and supplies go with their bit.  The lists can be read. -/
structure IndexMemory.Plain (mem : IndexMemory) (e : Uint256 × IndexNode) : Prop where
  sizes : (mem.votes e.1).SizesFit e.2.isDao
  votes : e.2.isDao = false → (mem.votes e.1).Simple
  supply : e.2.hasSupply = false → e.2.toDiskSupply = {}

/-- **The block tree comes back** exactly when its blocks are plain. -/
theorem blockIndex_reloaded_iff (fmt : IndexFormat) (mem : IndexMemory)
    (blockinfo : List (Uint256 × IndexNode)) (hblocks : fmt.Blocks blockinfo) :
    (∃ loaded, loadBlockIndexGuts fmt (writeBatchSync fmt mem blockinfo ∅) = .ok loaded ∧
      ∀ e ∈ blockinfo, mem.Reproduces loaded e) ↔ ∀ e ∈ blockinfo, mem.Plain e := by
  constructor
  · rintro ⟨loaded, hload, hall⟩ e he
    obtain ⟨hsizes, hnode, hvotes⟩ := loaded_at hblocks hload he
    obtain ⟨hsame, node, hfound, -, -, hsupply, -⟩ := hall e he
    rw [hnode] at hfound
    cases hfound
    have hback := hvotes.symm.trans hsame
    exact ⟨hsizes, (DiskVotes.back_eq_iff _ _).mp hback, (DiskSupply.back_eq_iff _ _).mp hsupply⟩
  · intro hall
    have hfits : ∀ e ∈ blockinfo, mem.Fits fmt e.2 := by
      intro e he
      rw [IndexMemory.Fits, ← hblocks.hash e he]
      exact (hall e he).sizes
    obtain ⟨loaded, hload⟩ := exists_loaded hblocks hfits
    refine ⟨loaded, hload, fun e he => ?_⟩
    obtain ⟨-, hnode, hvotes⟩ := loaded_at hblocks hload he
    obtain ⟨-, hsimple, hsupply⟩ := hall e he
    exact ⟨hvotes.trans ((DiskVotes.back_eq_iff _ _).mpr hsimple), _, hnode, rfl, rfl,
      (DiskSupply.back_eq_iff _ _).mpr hsupply, rfl, rfl, rfl⟩

namespace FundBlock

/-- The hash of a header is its nonce. -/
def fmt : IndexFormat :=
  { getHash := fun header => BitVec.ofNat 256 header.nNonce.toNat, clientVersion := 1
    indeterminateStakeTime := 3 }

/-- A connected block from before the DAO. -/
def block : Uint256 × IndexNode :=
  (7, { nStatus := blockHaveData ||| blockOptSupply, nTx := 1, nNonce := 7, nCFSupply := 5,
        nPublicMoneySupply := 50, nFlags := blockProofOfStake, nStakeModifier := 9 })

/-- The block with one vote on a proposal. -/
def voted (vote : BitVec 32) : IndexMemory :=
  { mapBlockIndex := fun h => if h = 7 then some block.2 else none
    vProposalVotes := fun h => if h = 7 then some [(5, vote)] else none }

theorem blocks : fmt.Blocks [block] :=
  ⟨by simp [block, fmt, IndexNode.header], by simp [block], by simp⟩

theorem blockIndex_reloaded_yes :
    ∃ loaded, loadBlockIndexGuts fmt (writeBatchSync fmt (voted 1) [block] ∅) = .ok loaded ∧
      (voted 1).Reproduces loaded block := by
  have hsimple : ((voted 1).votes 7).Simple :=
    ⟨List.forall_mem_nil _, List.forall_mem_singleton.mpr (.inr rfl), rfl, rfl⟩
  obtain ⟨loaded, hload, hall⟩ := (blockIndex_reloaded_iff fmt (voted 1) [block] blocks).mpr (by
    intro e he
    obtain rfl := List.mem_singleton.mp he
    exact ⟨⟨by decide, by decide, fun h => absurd h (by decide), fun h => absurd h (by decide)⟩,
      fun _ => hsimple, fun h => absurd h (by decide)⟩)
  exact ⟨loaded, hload, hall block List.mem_cons_self⟩

/-- An abstention comes back as a no. -/
theorem abstention_lost :
    (loadBlockIndexGuts fmt (writeBatchSync fmt (voted (-1)) [block] ∅)).toOption.map
        (fun loaded => (loaded.votes 7).vProposalVotes) = some [(5, 0)] ∧
      ((voted (-1)).votes 7).vProposalVotes = [(5, -1)] := by
  decide +kernel

end FundBlock

end Navcoin
