import Navcoin.Dao.NextStates

/-!
# Which parameters a step changes

The loop over the answers collects pairs of a parameter and a value; the first pair for a
parameter is kept.  At the end of the step they are written at the height of the block.

* `answerFires`, `firedPairs`: the answers that have enough votes, and what they ask for;
* `stepAnswers_ok`: the loop over the answers;
* `param_changeParameters`: the parameters at the end.
-/

namespace Navcoin

variable {it : CConsultationAnswer} {s' : VoteStepLocals}

/-! ## The value of a parameter -/

/-- An entry above all others is the value. -/
theorem CConsensusParameter.get_of_highest {list : CConsensusParameter} {e : Int × Nat}
    (hmem : e ∈ list.entries) (hpos : 0 ≤ e.1)
    (hother : ∀ it ∈ list.entries, it ≠ e → it.1 < e.1) : list.get = some e.2 := by
  have hloop : ∀ (l : List (Int × Nat)) (best : Option (Int × Nat)),
      (∀ it ∈ l, it ≠ e → it.1 < e.1) →
      best = some e ∨ (best.map Prod.fst).getD 0 ≤ e.1 ∧ e ∈ l →
      l.foldl (fun (best : Option (Int × Nat)) it =>
        if it.1 < (best.map Prod.fst).getD 0 then best else some it) best = some e := by
    intro l
    induction l with
    | nil =>
      intro best _ hbest
      rcases hbest with rfl | ⟨_, hmem⟩
      · rfl
      · cases hmem
    | cons it l ih =>
      intro best hlt hbest
      refine ih _ (fun j hj => hlt j (List.mem_cons_of_mem _ hj)) ?_
      by_cases hit : it = e
      · subst hit
        left
        apply if_neg
        rcases hbest with rfl | ⟨hle, _⟩
        · exact lt_irrefl _
        · exact not_lt.mpr hle
      · have hless := hlt it List.mem_cons_self hit
        rcases hbest with rfl | ⟨hle, hmem⟩
        · left
          exact if_pos hless
        · right
          refine ⟨?_, (List.mem_cons.mp hmem).resolve_left (Ne.symm hit)⟩
          dsimp only
          split
          · exact hle
          · exact hless.le
  unfold get
  rw [hloop list.entries none hother (.inr ⟨hpos, hmem⟩)]
  rfl

/-- The parameters of a view were set at or below a height. -/
def DaoView.ParamsBelow (height : Int) (view : DaoView) : Prop :=
  ∀ p, ∀ e ∈ (view.parameters p).entries, e.1 ≤ height

theorem CConsensusParameter.get_set {list : CConsensusParameter} {height : Int} (hpos : 0 ≤ height)
    (h : ∀ e ∈ list.entries, e.1 ≤ height) (val : Nat) : (list.set height val).get = some val := by
  apply get_of_highest (e := (height, val))
  · exact (OrderedMap.find?_eq_some_iff.mp (OrderedMap.find?_assign_self (height, val) list)).1
  · exact hpos
  · intro it hit hne
    rcases OrderedMap.mem_assign.mp hit with heq | ⟨hmem, hkey⟩
    · exact absurd heq hne
    · exact lt_of_le_of_ne (h it hmem) hkey

section Forward

variable {x : VoteStepContext}

/-! ## The changes at the end of the step -/

theorem changeParameter_frame (view : DaoView) (e : Nat × Nat) :
    changeParameter x view e =
      { view with parameters := (changeParameter x view e).parameters } := by
  unfold changeParameter
  split <;> rfl

theorem parameters_changeParameter (view : DaoView) (e : Nat × Nat) (p : ConsensusParam) :
    (changeParameter x view e).parameters p =
      if p.toNat = e.1 then (view.parameters p).set x.pindexNew.nHeight e.2
      else view.parameters p := by
  have hnumber : p.toNat = e.1 ↔ ConsensusParam.ofNat? e.1 = some p :=
    ⟨fun h => h ▸ ConsensusParam.ofNat?_toNat p, ConsensusParam.toNat_of_ofNat?⟩
  unfold changeParameter
  cases hp : ConsensusParam.ofNat? e.1 with
  | none => simp [hnumber, hp]
  | some q =>
    show Function.update view.parameters q _ p = _
    by_cases heq : q = p
    · simp [hnumber, hp, heq]
    · simp [hnumber, hp, heq, Function.update_of_ne (Ne.symm heq)]

/-- The loop that writes the changes. -/
def changeParameters (x : VoteStepContext) (m : OrderedMap (Prod.fst : Nat × Nat → Nat))
    (view : DaoView) : DaoView :=
  m.entries.foldl (changeParameter x) view

theorem changeParameters_frame (m : OrderedMap (Prod.fst : Nat × Nat → Nat)) (view : DaoView) :
    changeParameters x m view =
      { view with parameters := (changeParameters x m view).parameters } := by
  apply List.foldlRecOn
    (motive := fun t : DaoView => t = { view with parameters := t.parameters })
  · rfl
  · intro t ht e _
    exact (changeParameter_frame t e).trans (by rw [ht])

theorem parameters_changeParameters (m : OrderedMap (Prod.fst : Nat × Nat → Nat)) (view : DaoView)
    (p : ConsensusParam) :
    (changeParameters x m view).parameters p =
      match m.find? p.toNat with
      | some e => (view.parameters p).set x.pindexNew.nHeight e.2
      | none => view.parameters p := by
  -- parameters are seen by their number
  have hothers : ∀ (t : DaoView) (e : Nat × Nat) (k : Nat), k ≠ e.1 →
      (ConsensusParam.ofNat? k).map (changeParameter x t e).parameters =
        (ConsensusParam.ofNat? k).map t.parameters := by
    intro t e k hk
    cases hq : ConsensusParam.ofNat? k with
    | none => rfl
    | some q =>
      rw [Option.map_some, Option.map_some, parameters_changeParameter,
        if_neg (by rwa [ConsensusParam.toNat_of_ofNat? hq])]
  have hsee : ∀ t : DaoView,
      (ConsensusParam.ofNat? p.toNat).map t.parameters = some (t.parameters p) := by
    intro t
    rw [ConsensusParam.ofNat?_toNat]
    rfl
  apply Option.some.inj
  rw [← hsee]
  cases hm : m.find? p.toNat with
  | none =>
    have hrun := KeyedLoop.foldl_of_not_mem
      (v := fun (t : DaoView) k => (ConsensusParam.ofNat? k).map t.parameters) hothers
      m.entries view (OrderedMap.find?_eq_none_iff.mp hm)
    exact hrun.trans (hsee view)
  | some e =>
    obtain ⟨hmem, hkey⟩ := OrderedMap.find?_eq_some_iff.mp hm
    obtain ⟨pre, post, _, hbefore, hafter⟩ := KeyedLoop.foldl_at
      (v := fun (t : DaoView) k => (ConsensusParam.ofNat? k).map t.parameters) hothers
      m.nodup_keys view hmem
    rw [← hkey] at hsee ⊢
    rw [hsee, hsee] at hbefore
    refine hafter.trans ?_
    rw [hsee, parameters_changeParameter, if_pos hkey.symm, Option.some.inj hbefore]

/-- **The parameters at the end of the step.** -/
theorem param_changeParameters {view : DaoView} (hpos : 0 ≤ x.pindexNew.nHeight)
    (hbelow : view.ParamsBelow x.pindexNew.nHeight) (m : OrderedMap (Prod.fst : Nat × Nat → Nat))
    (p : ConsensusParam) :
    (changeParameters x m view).param p = ((m.find? p.toNat).map Prod.snd).getD (view.param p) := by
  have hparams := parameters_changeParameters (x := x) m view p
  have hconsensus : (changeParameters x m view).consensusParams = view.consensusParams := by
    rw [changeParameters_frame]
  unfold DaoView.param
  rw [hparams, hconsensus]
  cases m.find? p.toNat with
  | none => rfl
  | some e =>
    rw [CConsensusParameter.get_set hpos (hbelow p)]
    rfl

/-! ## The pairs of the answers -/

/-- The value that a pair gives to its parameter. -/
def changeValue (e : Nat × Bytes) : Nat := toUint64 ((stoll e.2).getD 0)

theorem find?_insertChange {m m' : OrderedMap (Prod.fst : Nat × Nat → Nat)} {e : Nat × Bytes}
    (h : insertChange m e = .ok m') (n : Nat) :
    m'.find? n = (m.find? n).or (if e.1 = n then some (e.1, changeValue e) else none) := by
  unfold insertChange at h
  cases hval : stoll e.2 with
  | none =>
    rw [hval] at h
    cases h
  | some val =>
    rw [hval] at h
    have hm' := (Except.ok.inj h).symm
    have hvalue : changeValue e = toUint64 val := by rw [changeValue, hval, Option.getD_some]
    cases hfind : m.find? e.1 with
    | some old =>
      have hcontains : m.contains e.1 = true := by rw [OrderedMap.contains, hfind]; rfl
      rw [hm', if_pos hcontains]
      split
      · next heq => rw [← heq, hfind]; rfl
      · rw [Option.or_none]
    | none =>
      have hcontains : ¬ m.contains e.1 = true := by rw [OrderedMap.contains, hfind]; simp
      rw [hm', if_neg hcontains, OrderedMap.find?_assign, hvalue]
      by_cases heq : e.1 = n
      · rw [if_pos heq.symm, if_pos heq, ← heq, hfind]
        rfl
      · rw [if_neg (Ne.symm heq), if_neg heq, Option.or_none]

/-- The first pair for a parameter is kept. -/
theorem find?_insertChanges {l : List (Nat × Bytes)}
    {m m' : OrderedMap (Prod.fst : Nat × Nat → Nat)} (h : l.foldlM insertChange m = .ok m')
    (n : Nat) :
    m'.find? n = (m.find? n).or
      ((l.find? fun e => e.1 = n).map fun e => (e.1, changeValue e)) := by
  induction l generalizing m with
  | nil =>
    cases h
    simp
  | cons e l ih =>
    rw [List.foldlM_cons, Except.bind_eq_ok_iff] at h
    obtain ⟨t, ht, hrun⟩ := h
    rw [ih hrun, find?_insertChange ht]
    by_cases heq : e.1 = n <;> simp [heq]

/-- The answer has the votes to change the parameters of its consultation. -/
def answerFires (x : VoteStepContext) (s : VoteStepLocals) (it : CConsultationAnswer) : Bool :=
  (x.blockOf it.txblockhash).isSome && x.endsCycle &&
    it.isConsensusAccepted x.toDaoRules s.view && it.getLastState x.mapBlockIndex != .passed &&
    (s.consultations.copy.find? it.parent).any fun parent =>
      parent.isAboutConsensusParameter && it.getAnswers.length == parent.getParameters.length

/-- The values of an answer with the parameters they stand for. -/
def answerPairs (s : VoteStepLocals) (it : CConsultationAnswer) : List (Nat × Bytes) :=
  match s.consultations.copy.find? it.parent with
  | none => []
  | some parent => parent.getParameters.zip it.getAnswers

/-- What the answers that fire ask for, in the order of their hashes. -/
def firedPairs (x : VoteStepContext) (s : VoteStepLocals) : List (Nat × Bytes) :=
  (s.answers.copy.entries.filter (answerFires x s)).flatMap (answerPairs s)

/-! ## Answers -/

/-- The state that a round gives to an answer, if any. -/
def answerDecision (x : VoteStepContext) (s : VoteStepLocals) (it : CConsultationAnswer) :
    Option DaoFlag :=
  if answerFires x s it then some .passed
  else if (x.blockOf it.txblockhash).isSome && x.endsCycle && it.isSupported s.view &&
      it.getLastState x.mapBlockIndex == .nil then some .accepted
  else none

/-- An answer with the state that was decided. -/
def CConsultationAnswer.decided (x : VoteStepContext) (decision : Option DaoFlag)
    (a : CConsultationAnswer) : CConsultationAnswer :=
  match decision with
  | none => a
  | some state => a.setState x.pindexNew state

theorem CConsultationAnswer.hash_decided (decision : Option DaoFlag) (a : CConsultationAnswer) :
    (a.decided x decision).hash = a.hash := by
  cases decision <;> rfl

/-- A state that differs in its answers and the changes they ask for. -/
def VoteStepLocals.SameButAnswers (s t : VoteStepLocals) : Prop :=
  t = { s with answers := t.answers, mapConsensusToChange := t.mapConsensusToChange }

theorem VoteStepLocals.SameButAnswers.trans {s t u : VoteStepLocals} (h : s.SameButAnswers t)
    (h' : t.SameButAnswers u) : s.SameButAnswers u := Eq.trans h' (by rw [h])

/-- What a round does. -/
structure AnswerStepped (x : VoteStepContext) (s : VoteStepLocals) (it : CConsultationAnswer)
    (s' : VoteStepLocals) : Prop where
  stored : s'.answers.stored =
    s.answers.stored.modify it.hash (.decided x (answerDecision x s it))
  changes : (if answerFires x s it then answerPairs s it else []).foldlM insertChange
    s.mapConsensusToChange = .ok s'.mapConsensusToChange
  frame : s.SameButAnswers s'
  tracks : ∀ m₀ : MirroredMap CConsultationAnswer.hash, (∃ a, m₀.copy.find? it.hash = some a) →
    m₀.Tracks Eq s.answers → m₀.Tracks Eq s'.answers

theorem AnswerStepped.of_stepped {s : VoteStepLocals}
    (h : MirroredMap.Stepped Eq it.hash (.decided x (answerDecision x s it)) s.answers s'.answers)
    (hchanges : (if answerFires x s it then answerPairs s it else []).foldlM insertChange
      s.mapConsensusToChange = .ok s'.mapConsensusToChange)
    (hframe : s.SameButAnswers s') : AnswerStepped x s it s' :=
  ⟨h.stored, hchanges, hframe, h.tracks⟩

theorem CConsultationAnswer.setState_decided (decision : Option DaoFlag) (state : DaoFlag)
    (a : CConsultationAnswer) :
    (a.decided x decision).setState x.pindexNew state = a.setState x.pindexNew state := by
  cases decision with
  | none => rfl
  | some f =>
    simp only [decided, setState, StateMap.setState, AssocMap.assign_assign]

/-- An answer that does not fire is at most accepted. -/
theorem answerStepped_of_not_fires {s : VoteStepLocals} (hfires : answerFires x s it = false)
    (hround : ((x.blockOf it.txblockhash).isSome && x.endsCycle) = true) : AnswerStepped x s it
      (if it.isSupported s.view && it.getLastState x.mapBlockIndex == .nil then
        s.touchConsultationAnswer it.hash fun a => a.setState x.pindexNew .accepted
      else s) := by
  have hdecision : answerDecision x s it =
      if it.isSupported s.view && it.getLastState x.mapBlockIndex == .nil then some .accepted
      else none := by
    simp only [answerDecision, hfires, Bool.false_eq_true, if_false, hround, Bool.true_and]
  split
  · next hc =>
    rw [if_pos hc] at hdecision
    refine .of_stepped ?_ (by rw [hfires]; rfl) rfl
    rw [hdecision]
    exact MirroredMap.stepped_touch (fun _ => rfl) fun _ => rfl
  · next hc =>
    rw [if_neg hc] at hdecision
    refine .of_stepped ?_ (by rw [hfires]; rfl) rfl
    rw [hdecision]
    exact .refl

/-- An answer that has enough votes. -/
theorem passAnswer_spec {s : VoteStepLocals}
    (hround : ((x.blockOf it.txblockhash).isSome && x.endsCycle) = true)
    (haccepted : (it.isConsensusAccepted x.toDaoRules s.view &&
      it.getLastState x.mapBlockIndex != .passed) = true)
    (h : passAnswer x (if it.isSupported s.view && it.getLastState x.mapBlockIndex == .nil then
        s.touchConsultationAnswer it.hash fun a => a.setState x.pindexNew .accepted
      else s) it = .ok s') : AnswerStepped x s it s' := by
  have hfires : answerFires x s it = (s.consultations.copy.find? it.parent).any fun parent =>
      parent.isAboutConsensusParameter && it.getAnswers.length == parent.getParameters.length := by
    simp only [answerFires, hround, Bool.true_and, haccepted]
  have hsupport : ∃ d, ∃ t, t = (if it.isSupported s.view &&
        it.getLastState x.mapBlockIndex == .nil then
        s.touchConsultationAnswer it.hash fun a => a.setState x.pindexNew .accepted
      else s) ∧ MirroredMap.Stepped Eq it.hash (.decided x d) s.answers t.answers ∧
      s.SameButAnswers t ∧ t.mapConsensusToChange = s.mapConsensusToChange := by
    by_cases hc : (it.isSupported s.view && it.getLastState x.mapBlockIndex == .nil) = true
    · rw [if_pos hc]
      exact ⟨some .accepted, _, rfl, MirroredMap.stepped_touch (fun _ => rfl) fun _ => rfl, rfl,
        rfl⟩
    · rw [if_neg hc]
      exact ⟨none, _, rfl, .refl, rfl, rfl⟩
  obtain ⟨d, t, ht, hstepped, hframe, hchanges⟩ := hsupport
  have hcopy : t.consultations.copy.find? it.parent = s.consultations.copy.find? it.parent := by
    rw [hframe]
  unfold passAnswer at h
  rw [← ht] at h
  cases hparent : s.consultations.copy.find? it.parent with
  | none =>
    simp only [hcopy, hparent, Except.ok.injEq] at h
    rw [← h, ht]
    exact answerStepped_of_not_fires (by rw [hfires, hparent]; rfl) hround
  | some parent =>
    simp only [hcopy, hparent] at h
    split at h
    · next hc =>
      have hfires' : answerFires x s it = true := by rw [hfires, hparent]; exact hc
      rw [Except.bind_eq_ok_iff] at h
      obtain ⟨changes, hrun, h⟩ := h
      rw [← Except.ok.inj h]
      refine .of_stepped ?_ ?_ (hframe.trans rfl)
      · rw [answerDecision, if_pos hfires']
        have hpassed :
            (fun a : CConsultationAnswer => (a.decided x d).setState x.pindexNew .passed) =
            .decided x (some .passed) := funext (CConsultationAnswer.setState_decided d .passed)
        rw [← hpassed]
        exact hstepped.trans (MirroredMap.stepped_touch
          (f := fun a => a.setState x.pindexNew .passed) (fun _ => rfl) fun _ => rfl)
      · rw [if_pos hfires', answerPairs, hparent]
        rw [hchanges] at hrun
        exact hrun
    · next hc =>
      rw [← Except.ok.inj h, ht]
      refine answerStepped_of_not_fires ?_ hround
      rw [hfires, hparent]
      simpa using hc

/-- One round. -/
theorem stepConsultationAnswer_spec (hx : x.pindexDelete = none) {s : VoteStepLocals}
    (h : stepConsultationAnswer x s it = .ok s') : AnswerStepped x s it s' := by
  have hidle : ((x.blockOf it.txblockhash).isSome && x.endsCycle) = false →
      AnswerStepped x s it s := by
    intro hround
    have hfires : answerFires x s it = false := by
      simp only [answerFires, hround, Bool.false_and]
    have hdecision : answerDecision x s it = none := by
      simp only [answerDecision, hfires, hround, Bool.false_and, Bool.false_eq_true, if_false]
    refine .of_stepped ?_ (by rw [hfires]; rfl) rfl
    rw [hdecision]
    exact .refl
  unfold stepConsultationAnswer at h
  cases hblock : x.blockOf it.txblockhash with
  | none =>
    simp only [hblock, Except.ok.injEq] at h
    rw [← h]
    exact hidle (by simp [hblock])
  | some pblockindex =>
    simp only [hblock, hx] at h
    cases hends : x.endsCycle with
    | false =>
      simp only [hends, Bool.false_eq_true, if_false, Except.ok.injEq] at h
      rw [← h]
      exact hidle (by simp [hends])
    | true =>
      have hround : ((x.blockOf it.txblockhash).isSome && x.endsCycle) = true := by
        simp [hblock, hends]
      simp only [hends, if_true] at h
      split at h
      · next haccepted =>
        exact passAnswer_spec hround haccepted h
      · next haccepted =>
        have hfires : answerFires x s it = false := by
          simp only [answerFires, hround, Bool.true_and]
          rw [Bool.not_eq_true] at haccepted
          rw [haccepted, Bool.false_and]
        rw [← Except.ok.inj h]
        exact answerStepped_of_not_fires hfires hround

section SameButAnswers

variable {s t : VoteStepLocals} (h : s.SameButAnswers t)

include h

theorem answerFires_congr : answerFires x t = answerFires x s := by
  have hscale : s.view.SameScale t.view :=
    VoteStepLocals.sameScale (congrArg VoteStepLocals.rest h : _)
  have hcopy : t.consultations = s.consultations := by rw [h]
  unfold answerFires CConsultationAnswer.isConsensusAccepted
  rw [hscale.param, hscale.nExcludeVotes, hcopy]

theorem answerPairs_congr : answerPairs t = answerPairs s := by
  have hcopy : t.consultations = s.consultations := by rw [h]
  unfold answerPairs
  rw [hcopy]

theorem answerDecision_congr : answerDecision x t = answerDecision x s := by
  have hscale : s.view.SameScale t.view :=
    VoteStepLocals.sameScale (congrArg VoteStepLocals.rest h : _)
  unfold answerDecision CConsultationAnswer.isSupported
  rw [answerFires_congr h, hscale.param]

end SameButAnswers

/-- What the loop over some of the answers changes. -/
theorem foldlM_stepConsultationAnswer (hx : x.pindexDelete = none) (l : List CConsultationAnswer)
    {s : VoteStepLocals} (hrun : l.foldlM (stepConsultationAnswer x) s = .ok s') :
    s.SameButAnswers s' ∧
      ((l.filter (answerFires x s)).flatMap (answerPairs s)).foldlM insertChange
        s.mapConsensusToChange = .ok s'.mapConsensusToChange ∧
      ∀ m₀ : MirroredMap CConsultationAnswer.hash,
        (∀ a ∈ l, ∃ b, m₀.copy.find? a.hash = some b) →
        m₀.Tracks Eq s.answers → m₀.Tracks Eq s'.answers := by
  induction l generalizing s with
  | nil =>
    cases hrun
    exact ⟨rfl, rfl, fun _ _ h => h⟩
  | cons it l ih =>
    rw [List.foldlM_cons, Except.bind_eq_ok_iff] at hrun
    obtain ⟨t, hstep, hrun⟩ := hrun
    obtain ⟨_, hchanges, hframe, htracks⟩ := stepConsultationAnswer_spec hx hstep
    obtain ⟨hframe', hchanges', htracks'⟩ := ih hrun
    rw [answerFires_congr hframe, answerPairs_congr hframe] at hchanges'
    refine ⟨hframe.trans hframe', ?_, fun m₀ hk h => ?_⟩
    · have hsplit : ((it :: l).filter (answerFires x s)).flatMap (answerPairs s) =
          (if answerFires x s it then answerPairs s it else []) ++
            (l.filter (answerFires x s)).flatMap (answerPairs s) := by
        rw [List.filter_cons]
        split <;> simp
      rw [hsplit, List.foldlM_append, hchanges]
      exact hchanges'
    · exact htracks' m₀ (fun a ha => hk a (List.mem_cons_of_mem _ ha))
        (htracks m₀ (hk it List.mem_cons_self) h)

/-- **The loop over the answers.** -/
theorem stepAnswers_ok (hx : x.pindexDelete = none) {s : VoteStepLocals}
    (hs : s.answers.Agrees Eq)
    (hrun : s.answers.copy.entries.foldlM (stepConsultationAnswer x) s = .ok s') :
    (firedPairs x s).foldlM insertChange s.mapConsensusToChange = .ok s'.mapConsensusToChange ∧
      (∀ k, s.answers.copy.find? k = none →
        s'.answers.stored.find? k = s.answers.stored.find? k) ∧
      ∀ k a, s.answers.copy.find? k = some a →
        s'.answers.stored.find? k = some (a.decided x (answerDecision x s a)) := by
  have hothers : ∀ (s : VoteStepLocals) (it : CConsultationAnswer) (s' : VoteStepLocals)
      (k : Uint256), stepConsultationAnswer x s it = .ok s' → k ≠ it.hash →
      s'.answers.stored.find? k = s.answers.stored.find? k := by
    intro s it s' k hstep hk
    rw [(stepConsultationAnswer_spec hx hstep).stored,
      OrderedMap.find?_modify (CConsultationAnswer.hash_decided _), if_neg hk]
  refine ⟨(foldlM_stepConsultationAnswer hx _ hrun).2.1, ?_, ?_⟩
  · intro k hk
    exact KeyedLoop.foldlM_of_not_mem
      hothers _ hrun
      (OrderedMap.find?_eq_none_iff.mp hk)
  · intro k a ha
    obtain ⟨hmem, rfl⟩ := OrderedMap.find?_eq_some_iff.mp ha
    obtain ⟨pre, _, t, t', _, hpre, hstep, _, hbefore, hafter⟩ := KeyedLoop.foldlM_at
      hothers
      s.answers.copy.nodup_keys hrun hmem
    obtain ⟨_, hstored, rfl⟩ := hs _ _ ha
    refine hafter.trans ?_
    rw [(stepConsultationAnswer_spec hx hstep).stored,
      OrderedMap.find?_modify (CConsultationAnswer.hash_decided _), if_pos rfl,
      hbefore.trans hstored,
      answerDecision_congr (foldlM_stepConsultationAnswer hx pre hpre).1]
    rfl

end Forward

end Navcoin
