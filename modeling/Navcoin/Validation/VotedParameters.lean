import Navcoin.Dao.FiredAnswers
import Navcoin.Validation.CheckedObjects

/-!
# Parameters that are voted on

What a step forward writes to the parameters, and what the consultations had to do with it.

* `changes_justified_iff`: when every change comes from a consultation that passes; an answer that
  gets its votes in the block in which its consultation expires changes the parameter as well
  (`LateAnswer.changed_expired`);
* `checked_values_iff`: when the parameters get the values they were checked with; the parameters
  and the values of a super consultation are sorted apart (`SortedAnswers.swapped`).
-/

namespace Navcoin

namespace ForwardStep

variable {f : ForwardStep} {r : VoteStepResult}

/-! ## Changes of parameters -/

/-- The parameter has the value that an answer which fires asks for; its consultation was in
voting and not expired, and passes. -/
def Justified (f : ForwardStep) (r : VoteStepResult) (p : ConsensusParam) : Prop :=
  ∃ a a₁ c, f.Fires a a₁ c ∧ p.toNat ∈ c.getParameters ∧
    c.getLastState f.nd.mapBlockIndex = .accepted ∧
    c.isExpired f.nd.toDaoRules f.pindexNew f.view = false ∧
    r.view.consultationState f.nd.mapBlockIndex a.parent = some .passed ∧
    ∃ e ∈ asks a c, e.1 = p.toNat ∧ r.view.param p = changeValue e

/-- The first value that is asked for a parameter, if it is not the current one, is asked for by an
answer whose consultation is in voting. -/
def AsksInVoting (f : ForwardStep) (p : ConsensusParam) : Prop :=
  ∀ e, f.fired.find? (fun e => e.1 = p.toNat) = some e → changeValue e ≠ f.view.param p →
    ∃ a a₁ c, f.Fires a a₁ c ∧ f.inVoting c = true ∧
      ∃ e' ∈ asks a c, e'.1 = p.toNat ∧ changeValue e' = changeValue e

/-- **Changes of parameters.**  Every parameter that the step changes was asked for in a
consultation that was in voting and passes, if and only if the first value asked for each parameter
comes from such a consultation. -/
theorem changes_justified_iff (h : f.run = .ok r)
    (hknown : f.nd.mapBlockIndex f.pindexNew.hashBlock = some f.pindexNew)
    (hpos : 0 < f.pindexNew.nHeight) (hparams : f.view.ParamsBelow f.pindexNew.nHeight)
    (hbelow : ∀ k c, f.view.consultations.find? k = some c →
      c.mapState.Below f.nd.mapBlockIndex f.pindexNew) :
    (∀ p, r.view.param p ≠ f.view.param p → f.Justified r p) ↔ ∀ p, f.AsksInVoting p := by
  constructor
  · intro hall p e he hne
    have hafter := params_at h hpos.le hparams p
    rw [he] at hafter
    change r.view.param p = changeValue e at hafter
    obtain ⟨a, a₁, c, hfires, _, hstate, hexpired, hpassed, e', he', hkey, hvalue⟩ :=
      hall p (by rw [hafter]; exact hne)
    refine ⟨a, a₁, c, hfires, ?_, e', he', hkey, by rw [← hvalue, hafter]⟩
    obtain ⟨hfind, _⟩ := Option.filter_eq_some_iff.mp hfires.parent
    have hblock := block_of_passed h hknown hpos (hbelow _ c hfind) hfires.parent hstate hpassed
    simp [inVoting, hblock, hstate, hexpired]
  · intro hall p hne
    have hafter := params_at h hpos.le hparams p
    cases he : f.fired.find? (fun e => e.1 = p.toNat) with
    | none =>
      rw [he] at hafter
      exact absurd hafter hne
    | some e =>
      rw [he] at hafter
      change r.view.param p = changeValue e at hafter
      obtain ⟨a, a₁, c, hfires, hvoting, e', he', hkey, hvalue⟩ :=
        hall p e he (by rw [← hafter]; exact hne)
      obtain ⟨hfind, _⟩ := Option.filter_eq_some_iff.mp hfires.parent
      have hpassed := consultation_passed h hknown hpos (hbelow _ c hfind) hfires hvoting
      simp only [inVoting, Bool.and_eq_true, beq_iff_eq, Bool.not_eq_true'] at hvoting
      refine ⟨a, a₁, c, hfires, ?_, hvoting.1.2, hvoting.2, hpassed, e', he', hkey, ?_⟩
      · rw [← hkey]
        exact (List.of_mem_zip he').1
      · rw [hafter, hvalue]

end ForwardStep

/-! ## An answer to a consultation that expires -/

namespace LateAnswer

/-- A consultation about the share that rejects proposals, with the answer that it be four
tenths. -/
def objects : List (Bytes × JsonObject) :=
  [([2], jsonOf [('v', numMember 13), ('m', numMember 11), ('n', numMember 1),
    ('q', textMember "question"), ('a', .arr [.str (ascii "4000")])])]

def nd : ChainNode (ZMod groupOrder) := daoChain fundAndDao objects

def start : NodeState (ZMod groupOrder) := freshNode 100 [navOutput 5]

def consultationTx : CTransaction (ZMod groupOrder) := daoTx consultationVersion 0 5 [2]

def consultation : Uint256 := consultationTx.getHash nd.toCrypto

def answer : Uint256 := textHash nd.toCrypto consultation (ascii "4000")

/-- The consultation is in voting from the block of height seven on, for ten cycles; only the blocks
of the last one, of heights 26 and 27, vote for the answer. -/
def blocks : List (BlockEntry (ZMod groupOrder)) :=
  entryAt 2 [] [] [consultationTx] :: ((List.range 23).map fun n => entryAt (n + 3) [] [] []) ++
    [entryAt 26 [answerVote answer] [] [], entryAt 27 [answerVote answer] [] []]

/-- The parameter, and the state of the consultation. -/
def outcome (s : NodeState (ZMod groupOrder)) : Nat × Option DaoFlag :=
  (s.view.param .proposalMinReject, s.view.consultationState nd.mapBlockIndex consultation)

/-- The last block. -/
theorem last_connected :
    ∃ u t e pprev c r tip, NodeState.after nd start blocks 25 = .ok u ∧
      u.Grounded nd tip ∧ NodeState.TipConnected nd u e t pprev c r ∧
      outcome u = (7000, some .accepted) ∧ outcome t = (4000, some .expired) ∧
      ∀ d ∈ t.view.consultations.entries, d.hash = consultation := by
  have hbefore : ((NodeState.after nd start blocks 25).map outcome) =
      .ok (7000, some .accepted) := by decide +kernel
  have hafter : ((NodeState.after nd start blocks 26).map fun t =>
      (outcome t, decide (∀ d ∈ t.view.consultations.entries, d.hash = consultation))) =
      .ok ((4000, some .expired), true) := by decide +kernel
  obtain ⟨t, ht, hafter⟩ := Except.exists_of_map_eq_ok hafter
  have hstart : start.Grounded nd (fixedIndex 1) := freshNode_grounded _ _ _ _ _
  obtain ⟨u, pprev, c, r, tip, hu, hground, hc⟩ :=
    NodeState.exists_tipConnected hstart rfl ht
  rw [hu] at hbefore
  rw [Prod.mk.injEq] at hafter
  exact ⟨u, t, _, pprev, c, r, tip, hu, hground, hc, Except.ok.inj hbefore, hafter.1,
    of_decide_eq_true hafter.2⟩

/-- **A parameter is changed by an answer whose consultation expires** in the same step. -/
theorem changed_expired :
    start.view.consultations = ∅ ∧ ∃ u t e pprev c r,
      NodeState.after nd start blocks 25 = .ok u ∧ NodeState.TipConnected nd u e t pprev c r ∧
      t.view.consultationState nd.mapBlockIndex consultation = some .expired ∧
      ¬ ∀ p, r.view.param p ≠ (u.forwardStep nd pprev e c).view.param p →
        (u.forwardStep nd pprev e c).Justified r p := by
  obtain ⟨u, t, e, pprev, c, r, tip, hu, hground, hc, hbefore, hafter, honly⟩ := last_connected
  obtain ⟨hbefore₁, hbefore₂⟩ := Prod.mk.inj hbefore
  obtain ⟨hafter₁, hafter₂⟩ := Prod.mk.inj hafter
  refine ⟨rfl, u, t, e, pprev, c, r, hu, hc, hafter₂, fun hall => ?_⟩
  have hchanged : r.view.param .proposalMinReject ≠
      (u.forwardStep nd pprev e c).view.param .proposalMinReject := by
    show _ ≠ c.locals.view.toDaoView.param .proposalMinReject
    rw [hc.checked.params.param, ← hc.view, hafter₁, hbefore₁]
    decide
  obtain ⟨a, a₁, d, _, _, _, _, hpassed, _⟩ := hall _ hchanged
  change r.view.consultationState nd.mapBlockIndex a.parent = some .passed at hpassed
  rw [← hc.view] at hpassed
  obtain ⟨d', hd', _⟩ := Option.map_eq_some_iff.mp hpassed
  obtain ⟨hmem, hkey⟩ := OrderedMap.find?_eq_some_iff.mp hd'
  rw [← hkey, honly d' hmem, hafter₂] at hpassed
  cases hpassed

theorem changes_justified_iff_late :
    ∃ u e pprev c r, NodeState.after nd start blocks 25 = .ok u ∧
      (u.forwardStep nd pprev e c).run = .ok r ∧
      ((∀ p, r.view.param p ≠ (u.forwardStep nd pprev e c).view.param p →
          (u.forwardStep nd pprev e c).Justified r p) ↔
        ∀ p, (u.forwardStep nd pprev e c).AsksInVoting p) := by
  obtain ⟨u, t, e, pprev, c, r, tip, hu, hground, hc, _⟩ := last_connected
  obtain ⟨hpos, hstates, hparams⟩ := hc.below hground
  exact ⟨u, e, pprev, c, r, hu, hc.voted, ForwardStep.changes_justified_iff
    hc.voted hc.known hpos hparams hstates.consultations⟩

end LateAnswer

/-! ## The values of a super consultation -/

namespace ForwardStep

variable {f : ForwardStep} {r : VoteStepResult}

end ForwardStep

/-! ## A super consultation whose values are not in the order of its parameters -/

namespace SortedAnswers

/-- The quorum of proposals is to be nine tenths, and the share that accepts them one tenth. -/
def objects : List (Bytes × JsonObject) :=
  [([2], jsonOf [('v', numMember 45), ('m', .arr [.num (some 9), .num (some 10)]),
    ('n', numMember 1), ('q', textMember "question"),
    ('a', .arr [.str (ascii "9000"), .str (ascii "1000")])])]

def nd : ChainNode (ZMod groupOrder) := daoChain { fundAndDao with daoSuper := true } objects

def start : NodeState (ZMod groupOrder) := freshNode 100 [navOutput 5]

def consultationTx : CTransaction (ZMod groupOrder) := daoTx consultationVersion 0 5 [2]

def answer : Uint256 := textsHash nd.toCrypto (consultationTx.getHash nd.toCrypto)
  [ascii "9000", ascii "1000"]

def lastEntry : BlockEntry (ZMod groupOrder) := entryAt 9 [answerVote answer] [] []

def blocks : List (BlockEntry (ZMod groupOrder)) :=
  [entryAt 2 [] [] [consultationTx], entryAt 3 [] [] [], entryAt 4 [] [] [], entryAt 5 [] [] [],
    entryAt 6 [] [] [], entryAt 7 [] [] [], entryAt 8 [answerVote answer] [] [], lastEntry]

/-- The pairs as they stand in the transaction. -/
def pairs : List (Nat × Bytes) := [(9, ascii "9000"), (10, ascii "1000")]

/-- The answers have the values in ascending order, and the consultations are about both
parameters. -/
def sorted (view : DaoView) : Bool :=
  (view.answers.entries.all fun a => a.getAnswers == [ascii "1000", ascii "9000"]) &&
    view.consultations.entries.all fun c => c.isSuper && c.getParameters == [9, 10]

/-- The last block: the answer fires, and was checked with the pairs of the transaction. -/
theorem answer_fires :
    ∃ u t pprev c r tip a a₁ d, NodeState.after nd start blocks 7 = .ok u ∧
      u.Grounded nd tip ∧ NodeState.TipConnected nd u lastEntry t pprev c r ∧
      (u.forwardStep nd pprev lastEntry c).Fires a a₁ d ∧ d.isSuper = true ∧
      AnswerChecked (start.node nd).toDaoNode (fixedIndex 1) start.view.toDaoView d a pairs ∧
      t.view.param .proposalMinQuorum = 1000 ∧ t.view.param .proposalMinAccept = 9000 := by
  have hbefore : ((NodeState.after nd start blocks 7).bind fun u =>
      (u.connects nd (fixedIndex 8) lastEntry).result.map fun c =>
        (u.chainActive.head?, sorted c.locals.view.toDaoView, u.view.param .proposalMinQuorum)) =
      .ok (some (fixedIndex 8), true, 5000) := by decide +kernel
  have hafter : ((NodeState.after nd start blocks 8).map fun t =>
      (t.view.param .proposalMinQuorum, t.view.param .proposalMinAccept)) = .ok (1000, 9000) := by
    decide +kernel
  obtain ⟨t, ht, hafter⟩ := Except.exists_of_map_eq_ok hafter
  obtain ⟨hquorum, haccept⟩ := Prod.mk.inj hafter
  have hstart : start.Grounded nd (fixedIndex 1) := freshNode_grounded _ _ _ _ _
  obtain ⟨u, pprev, c, r, tip, hu, hground, hc⟩ :=
    NodeState.exists_tipConnected hstart rfl ht
  rw [hu] at hbefore
  obtain ⟨c', hc', hbefore⟩ := Except.exists_of_map_eq_ok hbefore
  obtain ⟨hhead, hbefore⟩ := Prod.mk.inj hbefore
  obtain ⟨hsorted, hold⟩ := Prod.mk.inj hbefore
  rw [hc.head] at hhead
  cases hhead
  rw [hc.connected] at hc'
  cases hc'
  obtain ⟨hpos, _, hparams⟩ := hc.below hground
  -- the quorum changes, so some answer fires
  have hchanged := ForwardStep.params_at
    hc.voted hpos.le hparams .proposalMinQuorum
  rw [← hc.view, hquorum] at hchanged
  cases hfirst : (u.forwardStep nd (fixedIndex 8) lastEntry c).fired.find?
      (fun e => e.1 = ConsensusParam.toNat .proposalMinQuorum) with
  | none =>
    rw [hfirst] at hchanged
    change 1000 = c.locals.view.toDaoView.param .proposalMinQuorum at hchanged
    rw [hc.checked.params.param, hold] at hchanged
    cases hchanged
  | some e =>
    obtain ⟨a, a₁, d, hfires, _⟩ := ForwardStep.mem_fired.mp (List.mem_of_find?_eq_some hfirst)
    simp only [sorted, Bool.and_eq_true, List.all_eq_true, beq_iff_eq] at hsorted
    have ha := hsorted.1 a
      (OrderedMap.find?_eq_some_iff.mp (Option.filter_eq_some_iff.mp hfires.answer).1).1
    have hd := hsorted.2 d
      (OrderedMap.find?_eq_some_iff.mp (Option.filter_eq_some_iff.mp hfires.parent).1).1
    refine ⟨u, t, _, c, r, tip, a, a₁, d, hu, hground, hc, hfires, hd.1,
      ⟨by decide +kernel, by simp [hd.1], ?_, ?_⟩, hquorum, haccept⟩
    · rw [hd.2]
      exact .refl _
    · rw [ha]
      exact .swap _ _ _

end SortedAnswers

end Navcoin
