import Navcoin.Dotnav.Visibility
import Navcoin.Validation.NameOwners

/-!
# Names that are revealed again

When a name has expired, `UPDATE_NAME_FIRST` gives it to a new owner.  The entries of the old one
stay in the list, and with the new expiry they count again.

* `fresh_revealed_iff`: which of them the reveal supersedes;
* `NodeState.reveal_shows_new_iff`: a revealed name shows nothing from before if and only if the
  reveal supersedes all that was there.
-/

namespace Navcoin

open DotNav

variable {G : Type}

/-- The program writes every key again of which entries from before the block have a value. -/
structure Superseded (program : Predicate G) (data : NameDataValues) (nHeight : Int) : Prop where
  domain : ∀ subdomain key it, lastEntry (decides nHeight subdomain key) data = some it →
    it.2.value ≠ [] → it.1.toNat < toUint64 nHeight →
    key = expiryEntry ∨ key = keyEntry ∨
      key = program.str 2 ∧ concerns subdomain program.entry = true
  subdomains : ∀ subdomain key it, subdomain ≠ [] →
    lastEntry (decidesSubdomain nHeight subdomain key) data = some it →
    it.1.toNat < toUint64 nHeight →
    subdomain = program.str 1 ∧ key = program.str 2 ∧ program.str 3 ≠ []

section Reveal

variable [Zero G] {b : Bls G} {nHeight : Int} {view : CStateView G} {program : Predicate G}
  {data : NameDataValues}

/-- The keys that a reveal writes. -/
theorem exists_revealEntries_decides_iff (b : Bls G) (nHeight : Int) (view : CStateView G)
    (subdomain key : Bytes) :
    (∃ it ∈ revealEntries b nHeight view program, decides nHeight subdomain key it = true) ↔
      key = expiryEntry ∨ key = keyEntry ∨
        key = program.str 2 ∧ concerns subdomain program.entry = true := by
  have hexpiry : ∀ d : NameDataValue, d.key = expiryEntry → concerns subdomain d = true := by
    intro d hd
    simp [concerns, hd, expiryEntry]
  have hkey : ∀ d : NameDataValue, d.key = keyEntry → concerns subdomain d = true := by
    intro d hd
    simp [concerns, hd, keyEntry]
  simp only [revealEntries, List.map_cons, List.map_nil, List.mem_cons, List.not_mem_nil, or_false,
    exists_eq_or_imp, exists_eq_left, decides, toNat_entryHeight, le_refl, decide_true,
    Bool.and_eq_true, true_and, beq_iff_eq]
  rw [hexpiry _ rfl, hkey _ rfl]
  constructor
  · rintro (⟨-, rfl⟩ | ⟨-, rfl⟩ | ⟨hconcerns, rfl⟩)
    · exact .inl rfl
    · exact .inr (.inl rfl)
    · exact .inr (.inr ⟨rfl, hconcerns⟩)
  · rintro (rfl | rfl | ⟨rfl, hconcerns⟩)
    · exact .inl ⟨rfl, rfl⟩
    · exact .inr (.inl ⟨rfl, rfl⟩)
    · exact .inr (.inr ⟨hconcerns, rfl⟩)

/-- The keys of subdomains that a reveal writes. -/
theorem exists_revealEntries_decidesSubdomain_iff (b : Bls G) (nHeight : Int) (view : CStateView G)
    {subdomain : Bytes} (hsub : subdomain ≠ []) (key : Bytes) :
    (∃ it ∈ revealEntries b nHeight view program,
        decidesSubdomain nHeight subdomain key it = true) ↔
      subdomain = program.str 1 ∧ key = program.str 2 ∧ program.str 3 ≠ [] := by
  simp only [revealEntries, List.map_cons, List.map_nil, List.mem_cons, List.not_mem_nil, or_false,
    exists_eq_or_imp, exists_eq_left, decidesSubdomain, toNat_entryHeight, le_refl,
    Bool.and_eq_true, true_and, beq_iff_eq, decide_eq_true_eq, expiryValue, Predicate.entry]
  constructor
  · rintro (⟨⟨heq, _⟩, _⟩ | ⟨⟨heq, _⟩, _⟩ | ⟨⟨rfl, rfl⟩, hvalue⟩)
    · exact absurd heq.symm hsub
    · exact absurd heq.symm hsub
    · exact ⟨rfl, rfl, hvalue⟩
  · rintro ⟨rfl, rfl, hvalue⟩
    exact .inr (.inr ⟨⟨rfl, rfl⟩, hvalue⟩)

/-- The last entry after a reveal is one of the reveal or, where it writes nothing, an old one. -/
theorem lastEntry_reveal {p : UInt64 × NameDataValue → Bool} {it : UInt64 × NameDataValue} :
    lastEntry p (data ++ revealEntries b nHeight view program) = some it ↔
      lastEntry p (revealEntries b nHeight view program) = some it ∨
        (¬ ∃ o ∈ revealEntries b nHeight view program, p o = true) ∧
          lastEntry p data = some it := by
  rw [lastEntry_append, Option.or_eq_some_iff, lastEntry_eq_none_iff]
  simp only [not_exists, not_and, Bool.not_eq_true]

theorem height_of_lastEntry_reveal {p : UInt64 × NameDataValue → Bool}
    {it : UInt64 × NameDataValue}
    (h : lastEntry p (revealEntries b nHeight view program) = some it) :
    it.1.toNat = toUint64 nHeight := by
  obtain ⟨d, _, rfl⟩ := List.mem_map.mp (mem_of_lastEntry h).1
  exact toNat_entryHeight nHeight

/-- **What a reveal leaves to be seen.** -/
theorem fresh_revealed_iff :
    Fresh (toUint64 nHeight) (data ++ revealEntries b nHeight view program) nHeight ↔
      Superseded program data nHeight := by
  constructor
  · intro hfresh
    constructor
    · intro subdomain key it hlast hvalue hold
      by_contra hnot
      rw [← exists_revealEntries_decides_iff b nHeight view] at hnot
      have := hfresh.domain subdomain key it (lastEntry_reveal.mpr (.inr ⟨hnot, hlast⟩)) hvalue
      omega
    · intro subdomain key it hsub hlast hold
      by_contra hnot
      rw [← exists_revealEntries_decidesSubdomain_iff b nHeight view hsub] at hnot
      have := hfresh.subdomains subdomain key it hsub (lastEntry_reveal.mpr (.inr ⟨hnot, hlast⟩))
      omega
  · intro hsuper
    constructor
    · intro subdomain key it hlast hvalue
      rcases lastEntry_reveal.mp hlast with hnew | ⟨hnot, hold⟩
      · exact (height_of_lastEntry_reveal hnew).ge
      · by_contra hlt
        exact hnot ((exists_revealEntries_decides_iff b nHeight view subdomain key).mpr
          (hsuper.domain subdomain key it hold hvalue (by omega)))
    · intro subdomain key it hsub hlast
      rcases lastEntry_reveal.mp hlast with hnew | ⟨hnot, hold⟩
      · exact (height_of_lastEntry_reveal hnew).ge
      · by_contra hlt
        exact hnot ((exists_revealEntries_decidesSubdomain_iff b nHeight view hsub key).mpr
          (hsuper.subdomains subdomain key it hsub hold (by omega)))

end Reveal

/-! ## Chains -/

namespace NodeState

section Chain

variable [G1Group G] [DecidableEq G] {nd : ChainNode G} {s : NodeState G}
  {l : List (BlockEntry G)} {n : Nat} {e : BlockEntry G} {u : NodeState G} {p : Execution G}

/-- On a chain without names at the start, entries are appended. -/
theorem Nameless.appended (hs : s.Nameless) (hat : ExecutedAt nd s l n e u p) (id : Uint256) :
    ∃ extra, p.after.nameData id = p.before.nameData id ++ extra ∧
      ∀ it ∈ extra, it.1 = entryHeight e.pindex.nHeight := by
  obtain ⟨hrun, hwritten⟩ := (hs.namesWritten nd l).2 hat
  obtain ⟨extra, hdata, hextra⟩ := appends_of_ran hrun id
  refine ⟨extra, ?_, fun it hit => (hextra it hit).1⟩
  rw [hdata, foldl_added_eq_append]
  · exact fun it hit => (hwritten.data id it hit).1
  · exact fun it hit => (hextra it hit).2

/-- The entries of a name are in the order of their heights. -/
theorem Nameless.ascending (hs : s.Nameless) (hfit : HeightsFit s l)
    (hat : ExecutedAt nd s l n e u p) (id : Uint256) :
    Ascending (p.before.nameData id) ∧ Ascending (p.after.nameData id) := by
  have hstep : ∀ {n e u p}, ExecutedAt nd s l n e u p → Ascending (p.before.nameData id) →
      Ascending (p.after.nameData id) := by
    intro n e u p hat hbefore
    obtain ⟨extra, hdata, hextra⟩ := hs.appended hat id
    have hwritten := ((hs.namesWritten nd l).2 hat).2
    rw [hdata]
    refine hbefore.append (n := toUint64 e.pindex.nHeight) ?_ ?_
    · exact fun it hit => hwritten.height_le hfit hat.toConnectedAt hit
    · exact fun it hit => by rw [hextra it hit, toNat_entryHeight]
  have hall := (invariant_after (l := l)
    (P := fun _ v => Ascending (v.nameData id)) ?_ (fun _ _ h => h) ?_ ?_).2 hat
  · exact ⟨hall.2, hstep hat hall.2⟩
  · rw [hs.data id]
    exact .nil
  · intro _ v v' hsame h
    rw [hsame.nameData]
    exact h
  · intro _ _ _ _ hat _ h
    exact hstep hat h

/-- A reveal appends its entries. -/
theorem Nameless.revealed (hs : s.Nameless) (hat : ExecutedAt nd s l n e u p)
    (hlive : p.Live (u.dotNavLive nd e))
    (haction : (p.program nd.toBls).action = .updateNameFirst) :
    p.after.nameData (getHashName nd.toCrypto ((p.program nd.toBls).str 0)) =
      p.before.nameData (getHashName nd.toCrypto ((p.program nd.toBls).str 0)) ++
        revealEntries nd.toBls e.pindex.nHeight p.before (p.program nd.toBls) := by
  obtain ⟨hrun, hwritten⟩ := (hs.namesWritten nd l).2 hat
  rcases (executeProgram_names hrun).1 hlive with ⟨hnot, _⟩ | ⟨heq, _⟩ |
    ⟨_, _, _, _, _, hentry, _, hdata⟩ | ⟨heq, _⟩ | ⟨heq, _⟩
  · exact absurd (by simp [nameActions, haction]) hnot
  · cases haction.symm.trans heq
  · rw [hdata, Function.update_self, revealedData, foldl_added_eq_append]
    · exact fun it hit => (hwritten.data _ it hit).1
    · exact fun it hit => (mem_revealEntries hentry hit).2
  · cases haction.symm.trans heq
  · cases haction.symm.trans heq

/-- The view right after an execution of block `n`, or at a later tip. -/
def LaterView (nd : ChainNode G) (s : NodeState G) (l : List (BlockEntry G)) (n : Nat)
    (p : Execution G) (v : CStateView G) : Prop :=
  v = p.after ∨ ∃ m t, n < m ∧ after nd s l m = .ok t ∧ v = t.view

/-- Later views have the entries of the execution, and others of its height or above. -/
theorem Nameless.laterView (hs : s.Nameless) (hfit : HeightsFit s l)
    (hat : ExecutedAt nd s l n e u p) {v : CStateView G} (hv : LaterView nd s l n p v)
    (id : Uint256) :
    ∃ extra, v.nameData id = p.after.nameData id ++ extra ∧
      ∀ it ∈ extra, toUint64 e.pindex.nHeight ≤ it.1.toNat := by
  rcases hv with rfl | ⟨m, t, hlt, ht, rfl⟩
  · exact ⟨[], (List.append_nil _).symm, fun it hit => by cases hit⟩
  · refine hat.invariant (Q := fun v => ∃ extra, v.nameData id = p.after.nameData id ++ extra ∧
      ∀ it ∈ extra, toUint64 e.pindex.nHeight ≤ it.1.toNat) ?_ ?_ ?_ hlt ht
    · exact ⟨[], (List.append_nil _).symm, fun it hit => by cases hit⟩
    · intro v v' hsame h
      rw [hsame.nameData]
      exact h
    · intro m e' u' q hle hat' _ h
      obtain ⟨extra, hbefore, hold⟩ := h
      obtain ⟨extra', hafter, hnew⟩ := hs.appended hat' id
      refine ⟨extra ++ extra', by rw [hafter, hbefore, List.append_assoc], fun it hit => ?_⟩
      rcases List.mem_append.mp hit with hit | hit
      · exact hold it hit
      · obtain ⟨htip, hnext, hmax⟩ := hfit.range hat.toConnectedAt
        obtain ⟨htip', hnext', hmax'⟩ := hfit.range hat'.toConnectedAt
        have hmono := hat.toConnectedAt.height_mono hle hat'.toConnectedAt
        rw [hnew it hit, toNat_entryHeight, toUint64_height (by omega) hmax,
          toUint64_height (by omega) hmax']
        omega

/-- **A name that was revealed** shows nothing from before, at any height from then on, if and only
if the reveal supersedes all that was there. -/
theorem reveal_shows_new_iff (hs : s.Nameless) (hfit : HeightsFit s l)
    (hat : ExecutedAt nd s l n e u p) (hlive : p.Live (u.dotNavLive nd e))
    (haction : (p.program nd.toBls).action = .updateNameFirst)
    (howner : (owner (p.after.nameData
      (getHashName nd.toCrypto ((p.program nd.toBls).str 0))) e.pindex.nHeight).isSome) :
    (∀ v, LaterView nd s l n p v → ∀ height, e.pindex.nHeight ≤ height → height < 2 ^ 31 →
      OnlySince (toUint64 e.pindex.nHeight)
        (v.nameData (getHashName nd.toCrypto ((p.program nd.toBls).str 0))) height) ↔
    Superseded (p.program nd.toBls)
      (p.before.nameData (getHashName nd.toCrypto ((p.program nd.toBls).str 0)))
      e.pindex.nHeight := by
  obtain ⟨hrun, hwritten⟩ := (hs.namesWritten nd l).2 hat
  obtain ⟨htip, hnext, hmax⟩ := hfit.range hat.toConnectedAt
  have hreveal := hs.revealed hat hlive haction
  have hbelow : ∀ it ∈ p.after.nameData (getHashName nd.toCrypto ((p.program nd.toBls).str 0)),
      it.1.toNat ≤ toUint64 e.pindex.nHeight := by
    intro it hit
    obtain ⟨extra, hdata, hextra⟩ := hs.appended hat
      (getHashName nd.toCrypto ((p.program nd.toBls).str 0))
    rw [hdata] at hit
    rcases List.mem_append.mp hit with hold | hnew
    · exact hwritten.height_le hfit hat.toConnectedAt hold
    · rw [hextra it hnew, toNat_entryHeight]
  rw [← fresh_revealed_iff, ← hreveal]
  constructor
  · intro hsince
    obtain ⟨value, hvalue⟩ := Option.isSome_iff_exists.mp howner
    obtain ⟨nExpiry, hexp, hahead, -⟩ := expiry_of_owner hvalue
    exact fresh_of_onlySince (hsince p.after (.inl rfl) _ (le_refl _) hmax)
      (hs.ascending hfit hat _).2 hexp hahead
  · intro hfresh v hv height hle hlt
    obtain ⟨extra, hdata, hextra⟩ := hs.laterView hfit hat hv
      (getHashName nd.toCrypto ((p.program nd.toBls).str 0))
    rw [hdata]
    refine onlySince_of_fresh (hfresh.later hbelow ?_ hextra)
    rw [toUint64_height (by omega) hmax, toUint64_height (by omega) hlt]
    omega

end Chain

end NodeState

/-! ## A name with two owners -/

namespace ReusedName

open ShortenedName (name programTx)

/-- A chain whose hash depends on every byte. -/
def nd : ChainNode (ZMod groupOrder) :=
  { daoChain { fundAndDao with dotNav := true } [] with
    hash := fun bs => BitVec.ofNat 256 (ofLE bs % (2 ^ 256 - 189)) }

/-- The parameters of the development network, with a small fee and names of five blocks. -/
def params : ConsensusParam → Int
  | .navnsFee => 3
  | .dotnavLength => 5
  | p => devNetParams p

def start : NodeState (ZMod groupOrder) :=
  { freshNode 0 [] with
    view := { coinView (List.replicate 4 (keyedOutput 3)) with consensusParams := params } }

def registerTx (n : UInt32) (key : ZMod groupOrder) : CTransaction (ZMod groupOrder) :=
  programTx n (toLE 4 6 ++ writeUint256 (getHashIdName nd.toCrypto name key))

def revealTx (n : UInt32) (key : ZMod groupOrder) (entry : String) :
    CTransaction (ZMod groupOrder) :=
  programTx n (toLE 4 7 ++ writeVector name ++ writeG1 nd.toCrypto key ++ writeVector [] ++
    writeVector (ascii entry) ++ writeVector (ascii "1"))

/-- Two keys register the name; the first reveals it at height 8, the second at height 13. -/
def blockAt (n : Nat) : BlockEntry (ZMod groupOrder) :=
  entryAt n [] [] (if n = 2 then [registerTx 0 (5 : Nat)]
    else if n = 3 then [registerTx 1 (7 : Nat)] else if n = 8 then [revealTx 2 (5 : Nat) "url"]
    else if n = 13 then [revealTx 3 (7 : Nat) "mail"] else [])

def blocks : List (BlockEntry (ZMod groupOrder)) := (List.range 12).map fun n => blockAt (n + 2)

theorem start_nameless : start.Nameless := ⟨fun _ => rfl, fun _ => rfl⟩

theorem heightsFit : NodeState.HeightsFit start blocks := by
  refine ⟨by decide, fun e he => ?_⟩
  obtain ⟨n, hn, rfl⟩ := List.mem_map.mp he
  rw [List.mem_range] at hn
  show ((n + 2 : Nat) : Int) < 2 ^ 31
  omega

/-- The execution reveals the name in the block of height `n`. -/
def Reveals (u : NodeState (ZMod groupOrder)) (n : Nat) (p : Execution (ZMod groupOrder)) : Prop :=
  (u.dotNavLive nd (blockAt n) = true ∧ p.output.1.vData.isEmpty = false) ∧
    (p.program nd.toBls).action = .updateNameFirst ∧ (p.program nd.toBls).str 0 = name ∧
    (owner (p.after.nameData (getHashName nd.toCrypto name)) n).isSome

instance (u : NodeState (ZMod groupOrder)) (n : Nat) (p : Execution (ZMod groupOrder)) :
    Decidable (Reveals u n p) :=
  inferInstanceAs (Decidable ((_ ∧ _) ∧ _ ∧ _ ∧ _))

/-- **The second owner shows an entry of the first.** -/
theorem old_entry_shown :
    ∃ u p, NodeState.ExecutedAt nd start blocks 11 (blockAt 13) u p ∧ Reveals u 13 p ∧
      owner (p.before.nameData (getHashName nd.toCrypto name)) 12 =
        some (hexStr (nd.serialize 5)) ∧
      owner (p.before.nameData (getHashName nd.toCrypto name)) 13 = none ∧
      ¬ ∀ v, NodeState.LaterView nd start blocks 11 p v → ∀ height, 13 ≤ height →
        height < 2 ^ 31 →
          OnlySince 13 (v.nameData (getHashName nd.toCrypto name)) height := by
  have hrun : ((NodeState.after nd start blocks 11).bind fun u =>
      (u.connectTip nd (blockAt 13)).map fun _ => (u.executions nd (blockAt 13)).any fun p =>
        decide (Reveals u 13 p ∧
          owner (p.before.nameData (getHashName nd.toCrypto name)) 12 =
            some (hexStr (nd.serialize 5)) ∧
          owner (p.before.nameData (getHashName nd.toCrypto name)) 13 = none ∧
          (consolidate (p.after.nameData (getHashName nd.toCrypto name)) 13 []).bind
            (AssocMap.find? (ascii "url")) = some (ascii "1") ∧
          ∀ it ∈ p.after.nameData (getHashName nd.toCrypto name),
            13 ≤ it.1.toNat → it.2.key ≠ ascii "url")) = .ok true := by decide +kernel
  obtain ⟨u, hu, hrun⟩ := (Except.bind_eq_ok_iff _ _ _).mp hrun
  obtain ⟨t, ht, hany⟩ := Except.exists_of_map_eq_ok hrun
  obtain ⟨p, hp, hfacts⟩ := List.any_eq_true.mp hany
  obtain ⟨hreveals, howned, hexpired, hshown, hnew⟩ := of_decide_eq_true hfacts
  refine ⟨u, p, ⟨⟨rfl, hu, t, ht⟩, hp⟩, hreveals, howned, hexpired, fun hsince => ?_⟩
  obtain ⟨it, hit, hheight, hdecides, -⟩ :=
    (hsince p.after (.inl rfl) 13 (le_refl _) (by decide)).domain [] (ascii "url") _ hshown
  simp only [decides, Bool.and_eq_true, beq_iff_eq] at hdecides
  exact hnew it hit hheight hdecides.2

/-- The first owner has nothing to hide. -/
theorem reveal_shows_new_first :
    ∃ u p, NodeState.ExecutedAt nd start blocks 6 (blockAt 8) u p ∧ Reveals u 8 p ∧
      ∀ v, NodeState.LaterView nd start blocks 6 p v → ∀ height, 8 ≤ height → height < 2 ^ 31 →
        OnlySince (toUint64 8) (v.nameData (getHashName nd.toCrypto ((p.program nd.toBls).str 0)))
          height := by
  have hrun : ((NodeState.after nd start blocks 6).bind fun u =>
      (u.connectTip nd (blockAt 8)).map fun _ => (u.executions nd (blockAt 8)).any fun p =>
        decide (Reveals u 8 p ∧ p.before.nameData (getHashName nd.toCrypto name) = [])) =
      .ok true := by decide +kernel
  obtain ⟨u, hu, hrun⟩ := (Except.bind_eq_ok_iff _ _ _).mp hrun
  obtain ⟨t, ht, hany⟩ := Except.exists_of_map_eq_ok hrun
  obtain ⟨p, hp, hfacts⟩ := List.any_eq_true.mp hany
  obtain ⟨hreveals, hempty⟩ := of_decide_eq_true hfacts
  have hat : NodeState.ExecutedAt nd start blocks 6 (blockAt 8) u p := ⟨⟨rfl, hu, t, ht⟩, hp⟩
  obtain ⟨hlive, haction, hname, howner⟩ := hreveals
  refine ⟨u, p, hat, ⟨hlive, haction, hname, howner⟩, (NodeState.reveal_shows_new_iff
    start_nameless heightsFit hat hlive haction (by rw [hname]; exact howner)).mpr ?_⟩
  rw [hname, hempty]
  constructor
  · intro _ _ _ h
    cases h
  · intro _ _ _ _ h
    cases h

end ReusedName

end Navcoin
