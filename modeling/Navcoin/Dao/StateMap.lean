import Navcoin.Dao.Objects
import Navcoin.Lib.Highest

/-!
# The last state

`GetLastState` and its relatives pick the highest known block of a state map.

* `isHighest_last`: what the loop returns;
* `last_eq_of_highest`: an entry above all others is the last one;
* `getLastState_decided`: a state that is set on top of all others is the last one.
-/

namespace Navcoin

open Highest (IsHighest)

namespace StateMap

variable {m : BlockMap} {mapState : StateMap}

/-- The entries of known blocks. -/
def known (m : BlockMap) (mapState : StateMap) : List (CBlockIndex × DaoFlag) :=
  mapState.filterMap fun it => (m it.1).map (·, it.2)

theorem mem_known {p : CBlockIndex} {f : DaoFlag} :
    (p, f) ∈ known m mapState ↔ ∃ k, (k, f) ∈ mapState ∧ m k = some p := by
  simp [known, and_comm]

/-- **What the loop returns.** -/
theorem isHighest_last (m : BlockMap) (mapState : StateMap) :
    IsHighest (fun b => b.1.nHeight) (known m mapState) (last m mapState) := by
  have hlast : last m mapState =
      (known m mapState).foldl (Highest.keep fun b => b.1.nHeight) none := by
    rw [last, known, List.foldl_filterMap]
    congr
    funext best it
    unfold consider
    cases m it.1 with
    | none => rfl
    | some pindex => rfl
  rw [hlast]
  exact Highest.isHighest_foldl _

/-- An entry above all others is the last one. -/
theorem last_eq_of_highest {k : Uint256} {f : DaoFlag} {p : CBlockIndex}
    (hmem : (k, f) ∈ mapState) (hk : m k = some p) (hpos : 0 < p.nHeight)
    (hother : ∀ it ∈ mapState, it ≠ (k, f) → ∀ q, m it.1 = some q → q.nHeight < p.nHeight) :
    last m mapState = some (p, f) := by
  obtain ⟨hbest, hle⟩ := isHighest_last m mapState
  have hle := hle (p, f) (mem_known.mpr ⟨k, hmem, hk⟩)
  cases hlast : last m mapState with
  | none =>
    rw [hlast] at hle
    exact absurd hle (not_le.mpr hpos)
  | some b =>
    obtain ⟨h, hb, hq⟩ := mem_known.mp (hbest b hlast).1
    by_cases heq : (h, b.2) = (k, f)
    · cases heq
      rw [hk] at hq
      rw [Option.some.inj hq]
    · rw [hlast] at hle
      exact absurd (hother (h, b.2) hb heq b.1 hq) (not_lt.mpr hle)

/-! ## A block on top -/

/-- The entries are of lower blocks, or of the block itself. -/
def Below (m : BlockMap) (pindex : CBlockIndex) (mapState : StateMap) : Prop :=
  ∀ e ∈ mapState, ∀ q, m e.1 = some q → q.nHeight < pindex.nHeight ∨ e.1 = pindex.hashBlock

/-- The map with the state that was decided at a block, if one was. -/
def decided (mapState : StateMap) (pindex : CBlockIndex) (decision : Option DaoFlag) : StateMap :=
  match decision with
  | none => mapState
  | some f => mapState.setState pindex f

section Top

variable {pindex : CBlockIndex} (hm : m pindex.hashBlock = some pindex) (hpos : 0 < pindex.nHeight)
  (h : Below m pindex mapState)

include hm hpos h in
/-- A state that is set at a block on top is the last one. -/
theorem last_setState (f : DaoFlag) : last m (mapState.setState pindex f) = some (pindex, f) := by
  apply last_eq_of_highest (k := pindex.hashBlock)
  · exact (AssocMap.mem_assign _ _ _ _).mpr (.inl rfl)
  · exact hm
  · exact hpos
  · intro e he hne q hq
    rcases (AssocMap.mem_assign _ _ _ _).mp he with heq | ⟨hmem, hkey⟩
    · exact absurd heq hne
    · exact (h e hmem q hq).resolve_right hkey

include hm hpos h in
theorem getLastState_decided (decision : Option DaoFlag) :
    getLastState m (mapState.decided pindex decision) =
      decision.getD (getLastState m mapState) := by
  cases decision with
  | none => rfl
  | some f =>
    show getLastState m (mapState.setState pindex f) = f
    rw [getLastState, last_setState hm hpos h]

include h in
theorem Below.decided (decision : Option DaoFlag) :
    Below m pindex (mapState.decided pindex decision) := by
  cases decision with
  | none => exact h
  | some f =>
    intro e he q hq
    rcases (AssocMap.mem_assign _ _ _ _).mp he with rfl | ⟨hmem, _⟩
    · exact .inr rfl
    · exact h e hmem q hq

include hm h in
/-- What is below a block is below the next one. -/
theorem Below.next {pindex' : CBlockIndex} (hlt : pindex.nHeight < pindex'.nHeight) :
    Below m pindex' mapState := by
  intro e he q hq
  left
  rcases h e he q hq with hless | heq
  · exact hless.trans hlt
  · rw [heq, hm] at hq
    rwa [← Option.some.inj hq]

end Top

end StateMap

end Navcoin
