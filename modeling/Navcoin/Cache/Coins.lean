import Navcoin.Lib.LayeredCache
import Navcoin.Undo.Entries
import Navcoin.Validation.ChainNode

/-!
# `CStateViewCache`: the coins

Caches of the coins database on top of each other, and the calls that `UpdateCoins` and
`DisconnectBlock` make on the one on top, against the same calls on one map.

* `CoinsStack.step_shown`: one call;
* `coinsCache_refines`: every sequence of calls, as long as no transaction is created over one
  that the layer below still has.
-/

namespace Navcoin

variable {G : Type}

open LayeredCache

/-! ## The caches -/

/-- An entry as a modifier leaves it and as it is read from disk: without holes at the end. -/
def StoredCoins (G : Type) : Type :=
  { coins : CCoins G // coins.vout.rdropWhile CTxOut.isNull = coins.vout }

/-- `Cleanup` -/
def CCoins.stored (coins : CCoins G) : StoredCoins G :=
  ⟨coins.cleanup, List.rdropWhile_idempotent _ _⟩

def StoredCoins.isPruned (coins : StoredCoins G) : Bool := coins.1.isPruned

/-- The coins of a view, by txid. -/
abbrev CoinsMap (G : Type) := Uint256 → Option (StoredCoins G)

/-- The `cacheCoins` of the caches, that of the one on top first, and the map at the bottom. -/
structure CoinsStack (G : Type) where
  top : Layer Uint256 (StoredCoins G)
  below : List (Layer Uint256 (StoredCoins G))
  base : CoinsMap G

namespace CoinsStack

/-- New caches over a map. -/
def onBase (base : CoinsMap G) (n : Nat) : CoinsStack G :=
  { top := fun _ => none, below := List.replicate n fun _ => none, base := base }

/-- `FetchCoins` of the cache on top. -/
def fetchCoins (s : CoinsStack G) (txid : Uint256) : CoinsStack G × Option (StoredCoins G) :=
  match s.top txid with
  | some e => (s, some e.value)
  | none =>
    let r := fetch StoredCoins.isPruned s.base txid s.below
    match r.2 with
    | none => ({ s with below := r.1 }, none)
    | some coins =>
      let e : CacheEntry (StoredCoins G) := { value := coins, fresh := coins.isPruned }
      ({ s with top := Function.update s.top txid (some e), below := r.1 }, some coins)

/-- `HaveCoins` looks at the size of `vout` only. -/
def haveCoins (s : CoinsStack G) (txid : Uint256) : CoinsStack G × Bool :=
  let r := s.fetchCoins txid
  (r.1, r.2.any fun coins => !coins.1.vout.isEmpty)

/-- `ModifyCoins` with what is done to the entry, to the end of the modifier. -/
def modifyCoins (s : CoinsStack G) (txid : Uint256) (f : CCoins G → CCoins G) : CoinsStack G :=
  let r := modify StoredCoins.isPruned s.base txid (CCoins.stored {})
    (fun coins => (f coins.1).stored) s.top s.below
  { s with top := r.1, below := r.2 }

/-- `ModifyNewCoins` with what the entry becomes, to the end of the modifier. -/
def modifyNewCoins (s : CoinsStack G) (txid : Uint256) (coinbase : Bool) (coins : CCoins G) :
    CoinsStack G :=
  { s with top := replace StoredCoins.isPruned txid coins.stored (!coinbase) s.top }

/-- `Flush` of the cache at a depth. -/
def flush (s : CoinsStack G) : Nat → CoinsStack G
  | 0 =>
    match s.below with
    | [] =>
      { s with
        top := fun _ => none
        base := fun txid => writeValue StoredCoins.isPruned (s.base txid) (s.top txid) }
    | p :: ls =>
      { s with
        top := fun _ => none
        below := (fun txid => mergeEntry StoredCoins.isPruned (p txid) (s.top txid)) :: ls }
  | n + 1 =>
    let r := flushAt StoredCoins.isPruned s.base n s.below
    { s with below := r.1, base := r.2 }

/-- `Flush` of every cache, from the one on top. -/
def flushAll (s : CoinsStack G) : CoinsStack G :=
  (List.range (s.below.length + 1)).foldl flush s

end CoinsStack

/-! ## Calls -/

/-- Calls on the cache on top as `UpdateCoins` and `DisconnectBlock` make them, and `Flush` at any
depth. -/
inductive CoinsCall (G : Type) where
  | getCoins (txid : Uint256)
  | accessCoins (txid : Uint256)
  | haveCoins (txid : Uint256)
  | spend (out : COutPoint)
  | fromTx (tx : CTransaction G) (nHeight : Int)
  | removeOutputs (txid : Uint256)
  | applyTxInUndo (undo : CTxInUndo G) (out : COutPoint)
  | flush (n : Nat)

/-- What a call returns.  An entry without outputs counts as missing. -/
inductive CoinsResult (G : Type) where
  | coins (coins : Option (StoredCoins G))
  | known (found : Bool)
  | done

/-- A call; `none` is a failed assertion of `UpdateCoins`. -/
def CoinsStack.step [Zero G] (c : Crypto G) (s : CoinsStack G) :
    CoinsCall G → Option (CoinsStack G × CoinsResult G)
  | .getCoins txid | .accessCoins txid =>
    let r := s.fetchCoins txid
    some (r.1, .coins (live StoredCoins.isPruned r.2))
  | .haveCoins txid =>
    let r := s.haveCoins txid
    some (r.1, .known r.2)
  | .spend out =>
    if (s.fetchCoins out.hash).2.any fun coins => coins.1.isAvailable out.n then
      some (s.modifyCoins out.hash fun coins => coins.spend out.n, .done)
    else none
  | .fromTx tx nHeight =>
    some (s.modifyNewCoins (tx.getHash c) tx.isCoinBase (CCoins.fromTx tx nHeight), .done)
  | .removeOutputs txid => some (s.modifyCoins txid fun _ => {}, .done)
  | .applyTxInUndo undo out =>
    some (s.modifyCoins out.hash fun coins => (coins.applyUndo undo out.n).1, .done)
  | .flush n => some (s.flush n, .done)

/-- Calls one after another, with what they return. -/
def CoinsStack.run [Zero G] (c : Crypto G) (s : CoinsStack G) :
    List (CoinsCall G) → Option (CoinsStack G × List (CoinsResult G))
  | [] => some (s, [])
  | call :: calls => (s.step c call).bind fun r =>
    (run c r.1 calls).map fun q => (q.1, r.2 :: q.2)

/-! ## One map -/

namespace CoinsMap

/-- The entry of a txid is written; one without outputs is dropped. -/
def write (m : CoinsMap G) (txid : Uint256) (coins : CCoins G) : CoinsMap G :=
  Function.update m txid (live StoredCoins.isPruned (some coins.stored))

/-- The same call on a map. -/
def step [Zero G] (c : Crypto G) (m : CoinsMap G) :
    CoinsCall G → Option (CoinsMap G × CoinsResult G)
  | .getCoins txid | .accessCoins txid => some (m, .coins (m txid))
  | .haveCoins txid => some (m, .known (m txid).isSome)
  | .spend out =>
    match m out.hash with
    | none => none
    | some coins =>
      if coins.1.isAvailable out.n then some (m.write out.hash (coins.1.spend out.n), .done)
      else none
  | .fromTx tx nHeight => some (m.write (tx.getHash c) (CCoins.fromTx tx nHeight), .done)
  | .removeOutputs txid => some (m.write txid {}, .done)
  | .applyTxInUndo undo out =>
    let coins := ((m out.hash).map Subtype.val).getD {}
    some (m.write out.hash (coins.applyUndo undo out.n).1, .done)
  | .flush _ => some (m, .done)

def run [Zero G] (c : Crypto G) (m : CoinsMap G) :
    List (CoinsCall G) → Option (CoinsMap G × List (CoinsResult G))
  | [] => some (m, [])
  | call :: calls => (m.step c call).bind fun r =>
    (run c r.1 calls).map fun q => (q.1, r.2 :: q.2)

end CoinsMap

/-! ## The caches show one map -/

theorem StoredCoins.isPruned_iff (coins : StoredCoins G) :
    coins.isPruned = coins.1.vout.isEmpty := by
  have hiff : coins.1.isPruned = true ↔ coins.1.vout = [] := by
    rw [CCoins.isPruned, List.all_eq_true, ← List.rdropWhile_eq_nil_iff, coins.2]
  rw [← List.isEmpty_iff] at hiff
  exact Bool.eq_iff_iff.mpr hiff

namespace CoinsStack

variable {s : CoinsStack G}

def layers (s : CoinsStack G) : List (Layer Uint256 (StoredCoins G)) := s.top :: s.below

/-- The flags of all entries are right. -/
def Valid (s : CoinsStack G) : Prop := LayeredCache.Valid StoredCoins.isPruned s.base s.layers

/-- The unspent coins that the cache on top shows. -/
def shown (s : CoinsStack G) : CoinsMap G := fun txid =>
  live StoredCoins.isPruned (look s.base s.layers txid)

/-- The unspent coins that the cache below the one on top shows. -/
def shownBelow (s : CoinsStack G) : CoinsMap G := fun txid =>
  live StoredCoins.isPruned (look s.base s.below txid)

theorem valid_over (base : CoinsMap G) (n : Nat) : (onBase base n).Valid := by
  refine ⟨fun k e he => (by cases he), ?_⟩
  induction n with
  | zero => trivial
  | succ n ih => exact ⟨fun k e he => (by cases he), ih⟩

theorem shown_over (base : CoinsMap G) (n : Nat) :
    (onBase base n).shown = fun txid => live StoredCoins.isPruned (base txid) := by
  funext txid
  have hlook : look base (List.replicate n fun _ => none) txid = base txid := by
    induction n with
    | zero => rfl
    | succ n ih => exact ih
  exact congrArg _ hlook

/-! ### Reading -/

theorem fetchCoins_eq (s : CoinsStack G) (txid : Uint256) :
    (s.fetchCoins txid).1.layers = (fetch StoredCoins.isPruned s.base txid s.layers).1 ∧
      (s.fetchCoins txid).1.base = s.base ∧
      (s.fetchCoins txid).2 = look s.base s.layers txid := by
  have hsnd : (fetch StoredCoins.isPruned s.base txid s.layers).2 = look s.base s.layers txid :=
    fetch_snd txid s.layers
  rw [← hsnd]
  unfold fetchCoins layers
  rw [fetch]
  cases s.top txid with
  | some e => exact ⟨rfl, rfl, rfl⟩
  | none =>
    simp only
    cases (fetch StoredCoins.isPruned s.base txid s.below).2 <;> exact ⟨rfl, rfl, rfl⟩

theorem fetchCoins_spec (h : s.Valid) (txid : Uint256) :
    (s.fetchCoins txid).1.Valid ∧ (s.fetchCoins txid).1.shown = s.shown := by
  obtain ⟨hlayers, hbase, _⟩ := s.fetchCoins_eq txid
  constructor
  · rw [Valid, hlayers, hbase]
    exact valid_fetch txid h
  · funext txid'
    rw [shown, shown, hlayers, hbase, look_fetch]

/-- `HaveCoins` finds the unspent coins. -/
theorem haveCoins_eq (s : CoinsStack G) (txid : Uint256) :
    (s.haveCoins txid).2 = (s.shown txid).isSome := by
  show (s.fetchCoins txid).2.any _ = _
  rw [(s.fetchCoins_eq txid).2.2, shown]
  cases look s.base s.layers txid with
  | none => rfl
  | some coins =>
    rw [live_some, StoredCoins.isPruned_iff]
    simp only [Option.any_some]
    cases coins.1.vout.isEmpty <;> rfl

/-! ### Writing -/

/-- The calls that leave the flags right: a new transaction is not in the layer below, and an
output without the rest of its entry is put back only where there is an entry. -/
def allows [Zero G] (c : Crypto G) (s : CoinsStack G) : CoinsCall G → Prop
  | .fromTx tx _ => tx.isCoinBase = false → s.shownBelow (tx.getHash c) = none
  | .applyTxInUndo undo out => undo.nHeight = 0 → s.shown out.hash ≠ none
  | _ => True

theorem modifyCoins_spec (h : s.Valid) (txid : Uint256) (f : CCoins G → CCoins G) {coins : CCoins G}
    (hf : f (((look s.base s.layers txid).getD (CCoins.stored {})).1) = coins) :
    (s.modifyCoins txid f).Valid ∧ (s.modifyCoins txid f).shown = s.shown.write txid coins := by
  obtain ⟨hvalid, hlook⟩ := modify_spec h txid (CCoins.stored {})
    (fun coins => (f coins.1).stored)
  refine ⟨hvalid, ?_⟩
  funext txid'
  refine (hlook txid').trans ?_
  rw [CoinsMap.write, Function.update_apply, ← hf]
  rfl

theorem modifyNewCoins_spec (h : s.Valid) (txid : Uint256) (coinbase : Bool) (coins : CCoins G)
    (hnew : coinbase = false → s.shownBelow txid = none) :
    (s.modifyNewCoins txid coinbase coins).Valid ∧
      (s.modifyNewCoins txid coinbase coins).shown = s.shown.write txid coins := by
  obtain ⟨hvalid, hlook⟩ := replace_spec h txid coins.stored (!coinbase)
    (fun hcb => hnew (by simpa using hcb))
  refine ⟨hvalid, ?_⟩
  funext txid'
  refine (hlook txid').trans ?_
  rw [CoinsMap.write, Function.update_apply]
  rfl

theorem layers_flush (s : CoinsStack G) (n : Nat) :
    ((s.flush n).layers, (s.flush n).base) = flushAt StoredCoins.isPruned s.base n s.layers := by
  unfold flush layers
  cases n with
  | zero => cases s.below <;> rfl
  | succ n => rw [flushAt]

theorem flush_spec (h : s.Valid) (n : Nat) :
    (s.flush n).Valid ∧ (s.flush n).shown = s.shown := by
  obtain ⟨hvalid, hlook⟩ := flushAt_spec h n
  rw [← layers_flush] at hvalid hlook
  exact ⟨hvalid, funext hlook⟩

/-! ### Calls -/

/-- Without its outputs, an entry is what a record with a height makes of it. -/
theorem applyUndo_of_nHeight {undo : CTxInUndo G} (h : undo.nHeight ≠ 0) (n : UInt32)
    (coins : CCoins G) : (coins.applyUndo undo n).1 = (CCoins.applyUndo undo n {}).1 := by
  simp only [CCoins.applyUndo, CCoins.restart, if_neg h]

theorem shown_of_look {txid : Uint256} {coins : StoredCoins G} (h : s.shown txid = some coins) :
    look s.base s.layers txid = some coins := by
  rw [shown] at h
  cases hlook : look s.base s.layers txid with
  | none =>
    rw [hlook] at h
    cases h
  | some coins' =>
    rw [hlook, live_some] at h
    split at h
    · cases h
    · exact h

theorem available_of_look (s : CoinsStack G) (txid : Uint256) (n : UInt32) :
    ((look s.base s.layers txid).any fun coins => coins.1.isAvailable n) =
      (s.shown txid).any fun coins => coins.1.isAvailable n := by
  rw [shown]
  cases look s.base s.layers txid with
  | none => rfl
  | some coins =>
    rw [live_some]
    split
    · next hpruned =>
      have hnull := CCoins.isPruned_iff.mp hpruned
      simp [CCoins.isAvailable_eq, hnull]
    · rfl

theorem layers_flushAll (s : CoinsStack G) : (s.flushAll.layers, s.flushAll.base) =
    flushLayers StoredCoins.isPruned s.layers.length (s.layers, s.base) := by
  have hloop : ∀ n, (((List.range n).foldl flush s).layers, ((List.range n).foldl flush s).base) =
      flushLayers StoredCoins.isPruned n (s.layers, s.base) := by
    intro n
    induction n with
    | zero => rfl
    | succ n ih =>
      rw [List.range_succ, List.foldl_append, List.foldl_cons, List.foldl_nil, layers_flush,
        flushLayers, ← ih]
  exact hloop (s.below.length + 1)

/-- **After every flush the map at the bottom holds the coins.** -/
theorem base_flushAll (h : s.Valid) (txid : Uint256) :
    live StoredCoins.isPruned (s.flushAll.base txid) = s.shown txid := by
  have hbase := congrArg Prod.snd s.layers_flushAll
  rw [show s.flushAll.base = _ from hbase]
  exact live_base_flushLayers h txid

variable [Zero G] {c : Crypto G}

/-- **One call**: the caches show what the map becomes, and return what it returns. -/
theorem step_shown (h : s.Valid) {call : CoinsCall G} (hallow : s.allows c call) :
    (s.step c call).map (fun r => (r.1.shown, r.2)) = s.shown.step c call ∧
      ∀ r, s.step c call = some r → r.1.Valid := by
  have hread : ∀ txid, (s.step c (.getCoins txid)).map (fun r => (r.1.shown, r.2)) =
      s.shown.step c (.getCoins txid) ∧
        ∀ r, s.step c (.getCoins txid) = some r → r.1.Valid := by
    intro txid
    obtain ⟨hvalid, hshown⟩ := fetchCoins_spec h txid
    refine ⟨?_, fun r hr => ?_⟩
    · simp only [step, CoinsMap.step, Option.map_some, hshown, (s.fetchCoins_eq txid).2.2]
      rfl
    · cases hr
      exact hvalid
  cases call with
  | getCoins txid => exact hread txid
  | accessCoins txid => exact hread txid
  | haveCoins txid =>
    obtain ⟨hvalid, hshown⟩ := fetchCoins_spec h txid
    refine ⟨?_, fun r hr => ?_⟩
    · simp only [step, CoinsMap.step, Option.map_some, s.haveCoins_eq txid]
      rw [haveCoins, hshown]
    · cases hr
      exact hvalid
  | spend out =>
    have havail := s.available_of_look out.hash out.n
    simp only [step, CoinsMap.step, (s.fetchCoins_eq out.hash).2.2, havail]
    cases hcoins : s.shown out.hash with
    | none => simp
    | some coins =>
      obtain ⟨hvalid, hshown⟩ := modifyCoins_spec h out.hash (fun coins => coins.spend out.n) rfl
      rw [shown_of_look hcoins] at hshown
      simp only [Option.any_some]
      split
      · refine ⟨by rw [Option.map_some, hshown]; rfl, fun r hr => ?_⟩
        cases hr
        exact hvalid
      · exact ⟨rfl, fun r hr => by cases hr⟩
  | fromTx tx nHeight =>
    obtain ⟨hvalid, hshown⟩ := modifyNewCoins_spec h (tx.getHash c) tx.isCoinBase
      (CCoins.fromTx tx nHeight) hallow
    refine ⟨by rw [step, CoinsMap.step, Option.map_some, hshown], fun r hr => ?_⟩
    cases hr
    exact hvalid
  | removeOutputs txid =>
    obtain ⟨hvalid, hshown⟩ := modifyCoins_spec h txid (fun _ => {}) rfl
    refine ⟨by rw [step, CoinsMap.step, Option.map_some, hshown], fun r hr => ?_⟩
    cases hr
    exact hvalid
  | applyTxInUndo undo out =>
    have hsame : (((look s.base s.layers out.hash).getD (CCoins.stored {})).1.applyUndo undo
        out.n).1 = (((((s.shown out.hash).map Subtype.val).getD {} : CCoins G)).applyUndo undo
          out.n).1 := by
      cases hcoins : s.shown out.hash with
      | some coins => rw [shown_of_look hcoins]; rfl
      | none =>
        have hheight : undo.nHeight ≠ 0 := fun hzero => hallow hzero hcoins
        rw [applyUndo_of_nHeight hheight]
        rfl
    obtain ⟨hvalid, hshown⟩ := modifyCoins_spec h out.hash
      (fun coins => (coins.applyUndo undo out.n).1) hsame
    refine ⟨by rw [step, CoinsMap.step, Option.map_some, hshown], fun r hr => ?_⟩
    cases hr
    exact hvalid
  | flush n =>
    obtain ⟨hvalid, hshown⟩ := flush_spec h n
    refine ⟨by rw [step, CoinsMap.step, Option.map_some, hshown], fun r hr => ?_⟩
    cases hr
    exact hvalid

/-- Every call of a sequence is allowed where it is made. -/
def Allowed (c : Crypto G) (s : CoinsStack G) : List (CoinsCall G) → Prop
  | [] => True
  | call :: calls => s.allows c call ∧
    match s.step c call with
    | none => True
    | some r => Allowed c r.1 calls

instance decidableAllows (c : Crypto G) (s : CoinsStack G) :
    (call : CoinsCall G) → Decidable (s.allows c call)
  | .fromTx tx _ =>
    inferInstanceAs (Decidable (tx.isCoinBase = false → s.shownBelow (tx.getHash c) = none))
  | .applyTxInUndo undo out =>
    inferInstanceAs (Decidable (undo.nHeight = 0 → s.shown out.hash ≠ none))
  | .getCoins _ | .accessCoins _ | .haveCoins _ | .spend _ | .removeOutputs _ | .flush _ =>
    .isTrue trivial

instance decidableAllowed (c : Crypto G) :
    (calls : List (CoinsCall G)) → (s : CoinsStack G) → Decidable (s.Allowed c calls)
  | [], _ => .isTrue trivial
  | call :: calls, s =>
    match hr : s.step c call with
    | none => decidable_of_iff (s.allows c call) (by simp [Allowed, hr])
    | some r =>
      have := decidableAllowed c calls r.1
      decidable_of_iff (s.allows c call ∧ r.1.Allowed c calls) (by simp [Allowed, hr])

/-- **A sequence of calls.** -/
theorem run_shown {calls : List (CoinsCall G)} (h : s.Valid) (hallow : s.Allowed c calls) :
    (s.run c calls).map (fun r => (r.1.shown, r.2)) = s.shown.run c calls ∧
      ∀ r, s.run c calls = some r → r.1.Valid := by
  induction calls generalizing s with
  | nil =>
    refine ⟨rfl, fun r hr => ?_⟩
    cases hr
    exact h
  | cons call calls ih =>
    obtain ⟨hfirst, hrest⟩ := hallow
    obtain ⟨hstep, hvalid⟩ := step_shown h hfirst
    rw [run, CoinsMap.run, ← hstep]
    cases hr : s.step c call with
    | none => exact ⟨rfl, fun r hr => by cases hr⟩
    | some r =>
      rw [hr] at hrest
      obtain ⟨hrun, hvalid'⟩ := ih (hvalid r hr) hrest
      simp only [Option.bind_some, Option.map_some, ← hrun, Option.map_map, Function.comp_def]
      refine ⟨trivial, fun q hq => ?_⟩
      obtain ⟨q', hq', rfl⟩ := Option.map_eq_some_iff.mp hq
      exact hvalid' q' hq'

end CoinsStack

/-- **The caches are one map.**  Any number of caches over any map, any calls on the one on top and
any flushes in between: what the calls return, which of them fail, what the cache on top shows in
the end and what all flushes would leave at the bottom are those of a single map, if no
transaction but a coinbase is created while the layer below still has outputs of its txid, and no
output is put back without its metadata where there is no entry. -/
theorem coinsCache_refines [Zero G] (c : Crypto G) (base : CoinsMap G) (n : Nat)
    (calls : List (CoinsCall G)) (hallow : (CoinsStack.onBase base n).Allowed c calls) :
    ((CoinsStack.onBase base n).run c calls).map (fun r => (r.1.shown, r.2)) =
        CoinsMap.run c (fun txid => live StoredCoins.isPruned (base txid)) calls ∧
      ∀ r, (CoinsStack.onBase base n).run c calls = some r →
        ∀ txid, live StoredCoins.isPruned (r.1.flushAll.base txid) = r.1.shown txid := by
  obtain ⟨hrun, hvalid⟩ := CoinsStack.run_shown (CoinsStack.valid_over base n) hallow
  rw [CoinsStack.shown_over] at hrun
  exact ⟨hrun, fun r hr => CoinsStack.base_flushAll (hvalid r hr)⟩

/-! ## A transaction that is created again -/

namespace Recreated

abbrev crypto : Crypto (ZMod groupOrder) := (fixedBls true).toCrypto

def tx : CTransaction (ZMod groupOrder) := { vin := [coinInput 0], vout := [navOutput 5] }

def txid : Uint256 := tx.getHash crypto

/-- The database has the output of the transaction. -/
def base : CoinsMap (ZMod groupOrder) := fun id =>
  if id = txid then some (CCoins.fromTx tx 1).stored else none

/-- A block is disconnected and connected again, with a flush in between, and the output is
spent. -/
def calls : List (CoinsCall (ZMod groupOrder)) :=
  [.removeOutputs txid, .flush 0, .fromTx tx 1, .spend ⟨txid, 0⟩, .haveCoins txid]

theorem coinsCache_refines_flushed :
    ((CoinsStack.onBase base 1).run crypto calls).map (fun r => (r.1.shown, r.2)) =
        CoinsMap.run crypto (fun txid => live StoredCoins.isPruned (base txid)) calls ∧
      ∀ r, (CoinsStack.onBase base 1).run crypto calls = some r →
        ∀ txid, live StoredCoins.isPruned (r.1.flushAll.base txid) = r.1.shown txid :=
  coinsCache_refines crypto base 1 calls (by decide +kernel)

/-- Without the flush the cache forgets that the output was spent, and shows the one below. -/
theorem spent_survives :
    ((CoinsStack.onBase base 1).run crypto
        [.removeOutputs txid, .fromTx tx 1, .spend ⟨txid, 0⟩]).map
      (fun r => (r.1.shown txid).map Subtype.val) = some (some (CCoins.fromTx tx 1)) ∧
    (CoinsMap.run crypto base [.removeOutputs txid, .fromTx tx 1, .spend ⟨txid, 0⟩]).map
      (fun r => (r.1 txid).map Subtype.val) = some none := by
  decide +kernel

end Recreated

end Navcoin
