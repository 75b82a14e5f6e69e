import Navcoin.Validation.ActiveChain

/-!
# The programs of a chain

A connected block changes tokens and names by the programs of its outputs and by nothing else.

* `Executes`: a list of executions leads from one view to another;
* `connectBlock_executes`: the executions of a block do so;
* `Executes.invariant`: what every execution keeps is kept by the block;
* `NodeState.invariant_after`: and by the chain;
* `NodeState.ExecutedAt.invariant`: the same from one execution on.
-/

namespace Navcoin

variable {G : Type}

/-! ## What only programs change -/

/-- The views agree on tokens and names. -/
structure CStateView.SameAssets (view view' : CStateView G) : Prop where
  tokens : view'.tokens = view.tokens
  nameRecords : view'.nameRecords = view.nameRecords
  nameData : view'.nameData = view.nameData

/-- The views agree on tokens, names and parameters. -/
structure CStateView.SamePrograms (view view' : CStateView G) : Prop where
  assets : view.SameAssets view'
  params : view.SameParams view'.toDaoView

variable {v₃ v₂ v₁ : CStateView G}

namespace CStateView

theorem SameAssets.refl (view : CStateView G) : view.SameAssets view := ⟨rfl, rfl, rfl⟩

theorem SameAssets.trans (h : v₁.SameAssets v₂) (h' : v₂.SameAssets v₃) : v₁.SameAssets v₃ :=
  ⟨h'.tokens.trans h.tokens, h'.nameRecords.trans h.nameRecords, h'.nameData.trans h.nameData⟩

theorem SamePrograms.refl (view : CStateView G) : view.SamePrograms view := ⟨.refl _, .refl _⟩

theorem SamePrograms.trans (h : v₁.SamePrograms v₂) (h' : v₂.SamePrograms v₃) :
    v₁.SamePrograms v₃ :=
  ⟨h.assets.trans h'.assets, h.params.trans h'.params⟩

/-- The DAO objects of a view may change as long as the parameters stay. -/
theorem SamePrograms.withDao (view : CStateView G) {dao : DaoView} (h : view.SameParams dao) :
    view.SamePrograms { view with toDaoView := dao } := ⟨⟨rfl, rfl, rfl⟩, h⟩

theorem SamePrograms.updateCoins [Zero G] {c : Crypto G} {view view' : CStateView G}
    {tx : CTransaction G} {nHeight : Int} (h : view.updateCoins c tx nHeight = some view') :
    view.SamePrograms view' := by
  rw [updateCoins_frame h]
  exact ⟨⟨rfl, rfl, rfl⟩, .refl _⟩

end CStateView

/-! ## Executions -/

/-- A program that was executed, with the views around it. -/
structure Execution (G : Type) where
  tx : CTransaction G
  output : CTxOut G × Nat
  before : CStateView G
  after : CStateView G

variable {p : Execution G}

section Block

variable [G1Group G] [DecidableEq G]

/-- The call of `executeProgram`. -/
def Execution.Ran (b : Bls G) (nHeight : Int) (fDotNav : Bool) (p : Execution G) : Prop :=
  (executeProgram b nHeight fDotNav p.tx p.before p.output).result = .ok p.after

/-- The executions of the outputs of a transaction. -/
def outputExecutions (nd : ChainNode G) (x : BlockContext G) (tx : CTransaction G) :
    List (CTxOut G × Nat) → CStateView G → List (Execution G)
  | [], _ => []
  | e :: l, view =>
    match (executeProgram nd.toBls x.pindex.nHeight (x.deployed nd).dotNav tx view e).result with
    | .error _ => []
    | .ok view' => ⟨tx, e, view, view'⟩ :: outputExecutions nd x tx l view'

/-- The executions of the transactions of a block. -/
def transactionExecutions (nd : ChainNode G) (x : BlockContext G) :
    List (CTransaction G × Nat) → ConnectLocals G → List (Execution G)
  | [], _ => []
  | e :: l, s =>
    match (castVotes nd x s.view s.votes e).result with
    | .error _ => []
    | .ok v => outputExecutions nd x e.1 e.1.vout.zipIdx (s.withVotes v).view ++
      match (connectTransaction nd x s e).result with
      | .error _ => []
      | .ok s' => transactionExecutions nd x l s'

/-- The executions of a block. -/
def blockExecutions (nd : ChainNode G) (x : BlockContext G) (view : CStateView G) :
    List (Execution G) :=
  if x.block.hash = nd.hashGenesisBlock then []
  else transactionExecutions nd x x.block.vtx.zipIdx { view := view }

/-- The executions lead from the first view to the last. -/
inductive Executes (b : Bls G) (nHeight : Int) (fDotNav : Bool) :
    CStateView G → List (Execution G) → CStateView G → Prop
  | done {view view' : CStateView G} (h : view.SamePrograms view') :
      Executes b nHeight fDotNav view [] view'
  | step {view view' : CStateView G} {p : Execution G} {l : List (Execution G)}
      (h : view.SamePrograms p.before) (hrun : p.Ran b nHeight fDotNav)
      (hrest : Executes b nHeight fDotNav p.after l view') :
      Executes b nHeight fDotNav view (p :: l) view'

variable {nd : ChainNode G} {x : BlockContext G} {b : Bls G} {nHeight : Int} {fDotNav : Bool}
variable {l : List (Execution G)}

namespace Executes

variable {v v' : CStateView G}

theorem of_same (h : v₁.SamePrograms v₂) (hl : Executes b nHeight fDotNav v₂ l v₃) :
    Executes b nHeight fDotNav v₁ l v₃ := by
  cases hl with
  | done h' => exact .done (h.trans h')
  | step h' hrun hrest => exact .step (h.trans h') hrun hrest

theorem append {l' : List (Execution G)} (h : Executes b nHeight fDotNav v₁ l v₂)
    (h' : Executes b nHeight fDotNav v₂ l' v₃) : Executes b nHeight fDotNav v₁ (l ++ l') v₃ := by
  induction h with
  | done hsame => exact h'.of_same hsame
  | step hsame hrun _ ih => exact .step hsame hrun (ih h')

/-- **What every execution keeps**, all of them keep. -/
theorem invariant {P : CStateView G → Prop} (h : Executes b nHeight fDotNav v l v') (hv : P v)
    (hsame : ∀ {u u' : CStateView G}, u.SamePrograms u' → P u → P u')
    (hstep : ∀ p ∈ l, p.Ran b nHeight fDotNav → P p.before → P p.after) :
    P v' ∧ ∀ p ∈ l, p.Ran b nHeight fDotNav ∧ P p.before := by
  induction h with
  | done h => exact ⟨hsame h hv, fun p hp => by cases hp⟩
  | @step _ _ p l h hrun _ ih =>
    have hbefore := hsame h hv
    obtain ⟨hlast, hall⟩ := ih (hstep p List.mem_cons_self hrun hbefore)
      fun q hq => hstep q (List.mem_cons_of_mem p hq)
    refine ⟨hlast, fun q hq => ?_⟩
    rcases List.mem_cons.mp hq with rfl | hq
    · exact ⟨hrun, hbefore⟩
    · exact hall q hq

/-- The executions after one of them. -/
theorem after_mem (h : Executes b nHeight fDotNav v l v') (hp : p ∈ l) :
    ∃ rest, (∀ q ∈ rest, q ∈ l) ∧ Executes b nHeight fDotNav p.after rest v' := by
  induction h with
  | done _ => cases hp
  | @step _ _ p' l _ _ hrest ih =>
    rcases List.mem_cons.mp hp with rfl | hp
    · exact ⟨l, fun q hq => List.mem_cons_of_mem p hq, hrest⟩
    · obtain ⟨rest, hsub, hexec⟩ := ih hp
      exact ⟨rest, fun q hq => List.mem_cons_of_mem p' (hsub q hq), hexec⟩

/-- No program changes a parameter. -/
theorem params (h : Executes b nHeight fDotNav v l v') : v.SameParams v'.toDaoView ∧
      ∀ p ∈ l, p.Ran b nHeight fDotNav ∧ v.SameParams p.before.toDaoView := by
  refine h.invariant (P := fun u => v.SameParams u.toDaoView) (.refl _) ?_ ?_
  · intro u u' hsame hu
    exact hu.trans hsame.params
  · intro p _ hrun hu
    rw [(executeProgram_frame hrun).dao]
    exact hu

end Executes

/-! ## The executions of a block -/

theorem executes_outputExecutions {tx : CTransaction G} {l : List (CTxOut G × Nat)}
    {s s' : OutputLocals G} (h : (l.foldlM (connectOutput nd x tx) s).result = .ok s') :
    Executes nd.toBls x.pindex.nHeight (x.deployed nd).dotNav s.view
      (outputExecutions nd x tx l s.view) s'.view := by
  induction l generalizing s with
  | nil =>
    simp only [List.foldlM_nil, Traced.result_pure, Except.ok.injEq] at h
    subst h
    exact .done (.refl _)
  | cons e l ih =>
    simp only [List.foldlM_cons, Traced.bind_eq_ok_iff] at h
    obtain ⟨t, hstep, hrest⟩ := h
    have hrun := (connectOutput_view hstep).1
    rw [outputExecutions, hrun]
    exact .step (.refl _) hrun (ih hrest)

/-- One transaction: its votes and its other parts leave the programs alone. -/
theorem executes_connectTransaction {s s' : ConnectLocals G} {e : CTransaction G × Nat}
    (h : (connectTransaction nd x s e).result = .ok s') :
    ∃ v, (castVotes nd x s.view s.votes e).result = .ok v ∧
      Executes nd.toBls x.pindex.nHeight (x.deployed nd).dotNav s.view
        (outputExecutions nd x e.1 e.1.vout.zipIdx (s.withVotes v).view) s'.view := by
  simp only [connectTransaction, Traced.bind_eq_ok_iff] at h
  obtain ⟨v, hvotes, happly⟩ := h
  obtain ⟨t, out, hview, _, hout, hdao, hcoins, _⟩ := applyTransaction_parts happly
  have hvoted : s.view.SamePrograms (s.withVotes v).view := by
    refine .withDao _ ?_
    rw [(castVotes_ok hvotes).1]
    exact ⟨rfl, rfl⟩
  have houtputs := executes_outputExecutions hout
  simp only [hview] at houtputs
  rw [← hview, ← (foldlM_connectOutput_frame hout).dao] at hdao
  have hlast : out.view.SamePrograms s'.view :=
    (CStateView.SamePrograms.withDao _ (connectDao_ok hdao).params).trans (.updateCoins hcoins)
  refine ⟨v, hvotes, .of_same hvoted ?_⟩
  simpa using houtputs.append (.done hlast)

theorem executes_transactionExecutions {l : List (CTransaction G × Nat)}
    {s s' : ConnectLocals G} (h : (l.foldlM (connectTransaction nd x) s).result = .ok s') :
    Executes nd.toBls x.pindex.nHeight (x.deployed nd).dotNav s.view
      (transactionExecutions nd x l s) s'.view := by
  induction l generalizing s with
  | nil =>
    simp only [List.foldlM_nil, Traced.result_pure, Except.ok.injEq] at h
    subst h
    exact .done (.refl _)
  | cons e l ih =>
    simp only [List.foldlM_cons, Traced.bind_eq_ok_iff] at h
    obtain ⟨t, hstep, hrest⟩ := h
    obtain ⟨v, hvotes, hexec⟩ := executes_connectTransaction hstep
    rw [transactionExecutions, hvotes, hstep]
    exact hexec.append (ih hrest)

/-- **The executions of a block** lead from the view of the tip to the connected one. -/
theorem connectBlock_executes {block : CBlock G} {pindex pprev : CBlockIndex} {prev : Supply}
    {view : CStateView G} {fScriptChecks fJustCheck : Bool} {r : Connected G}
    (h : (connectBlock nd block pindex pprev prev view fScriptChecks fJustCheck).result = .ok r) :
    let x : BlockContext G := .of block pindex pprev view fScriptChecks fJustCheck
    Executes nd.toBls pindex.nHeight (x.deployed nd).dotNav view (blockExecutions nd x view)
      r.locals.view := by
  intro x
  by_cases hgenesis : block.hash = nd.hashGenesisBlock
  · obtain ⟨rfl, _⟩ := connectBlock_genesis hgenesis h
    rw [show blockExecutions nd x view = [] from if_pos hgenesis]
    exact .done (.refl _)
  · obtain ⟨_, _, s, p, hparts⟩ := connectBlock_ok hgenesis h
    obtain ⟨_, _, q, _, hpay, rfl, _⟩ := connectCoinbase_ok hparts.coinbase
    have hlast : s.view.SamePrograms r.locals.view := by
      rw [(connectStake_ok hparts.stake).1]
      refine .withDao _ ?_
      rw [payOutputs_frame hpay]
      exact ⟨rfl, rfl⟩
    have hexec := (executes_transactionExecutions hparts.transactions).append (.done hlast)
    rw [List.append_nil] at hexec
    rw [show blockExecutions nd x view = _ from if_neg hgenesis]
    exact hexec

end Block

/-! ## The executions of a chain -/

variable {m : Nat}

namespace NodeState

section Chain

variable [G1Group G] [DecidableEq G] {nd : ChainNode G} {s s' t : NodeState G}
  {e : BlockEntry G} {l : List (BlockEntry G)} {n : Nat}
variable {u : NodeState G}

/-- The context of the next block. -/
def context (s : NodeState G) (pprev : CBlockIndex) (e : BlockEntry G) : BlockContext G :=
  .of e.block e.pindex pprev s.view e.fScriptChecks false

/-- The executions of the next block. -/
def executions (nd : ChainNode G) (s : NodeState G) (e : BlockEntry G) : List (Execution G) :=
  match s.chainActive with
  | [] => []
  | pprev :: _ => blockExecutions (s.node nd) (s.context pprev e) s.view

/-- Names are live in the next block. -/
def dotNavLive (nd : ChainNode G) (s : NodeState G) (e : BlockEntry G) : Bool :=
  match s.chainActive with
  | [] => false
  | pprev :: _ => ((s.context pprev e).deployed (s.node nd)).dotNav

/-- **A connected tip** has the assets its executions lead to. -/
theorem executes_of_connectTip (h : s.connectTip nd e = .ok s') :
    ∃ v, Executes nd.toBls e.pindex.nHeight (s.dotNavLive nd e) s.view (s.executions nd e) v ∧
      v.SameAssets s'.view := by
  obtain ⟨pprev, c, r, hc⟩ := connectTip_ok h
  obtain ⟨ancestors, hchain⟩ : ∃ ancestors, s.chainActive = pprev :: ancestors :=
    List.head?_eq_some_iff.mp hc.head
  refine ⟨c.locals.view, ?_, ?_⟩
  · have hexec := connectBlock_executes hc.connected
    simp only [executions, dotNavLive, hchain]
    exact hexec
  · rw [hc.state]
    exact ⟨rfl, rfl, rfl⟩

/-- Block `n` of the chain is connected, on top of `u`. -/
structure ConnectedAt (nd : ChainNode G) (s : NodeState G) (l : List (BlockEntry G)) (n : Nat)
    (e : BlockEntry G) (u : NodeState G) : Prop where
  entry : l[n]? = some e
  reached : after nd s l n = .ok u
  connected : ∃ t, u.connectTip nd e = .ok t

/-- And it executes a program. -/
structure ExecutedAt (nd : ChainNode G) (s : NodeState G) (l : List (BlockEntry G)) (n : Nat)
    (e : BlockEntry G) (u : NodeState G) (p : Execution G) : Prop
    extends ConnectedAt nd s l n e u where
  mem : p ∈ u.executions nd e

/-- The programs see the parameters of the tip. -/
theorem ExecutedAt.params (h : ExecutedAt nd s l n e u p) :
    u.view.SameParams p.before.toDaoView := by
  obtain ⟨t, ht⟩ := h.connected
  obtain ⟨v, hexec, -⟩ := executes_of_connectTip ht
  exact (hexec.params.2 p h.mem).2

/-- **What the executions of a chain keep**, and what holds before each of them. -/
theorem invariant_after {P : Nat → CStateView G → Prop} (hs : P 0 s.view)
    (hnext : ∀ n v, P n v → P (n + 1) v)
    (hsame : ∀ {n v v'}, v.SameAssets v' → P n v → P n v')
    (hstep : ∀ {n e u p}, ExecutedAt nd s l n e u p →
      p.Ran nd.toBls e.pindex.nHeight (u.dotNavLive nd e) → P (n + 1) p.before →
      P (n + 1) p.after) :
    (∀ n t, after nd s l n = .ok t → P n t.view) ∧
      ∀ {n e u p}, ExecutedAt nd s l n e u p →
        p.Ran nd.toBls e.pindex.nHeight (u.dotNavLive nd e) ∧ P (n + 1) p.before := by
  have hblock : ∀ {n e u t}, l[n]? = some e → after nd s l n = .ok u →
      u.connectTip nd e = .ok t → P n u.view → P (n + 1) t.view ∧
        ∀ p ∈ u.executions nd e, p.Ran nd.toBls e.pindex.nHeight (u.dotNavLive nd e) ∧
          P (n + 1) p.before := by
    intro n e u t he hu htip hP
    obtain ⟨v, hexec, hassets⟩ := executes_of_connectTip htip
    obtain ⟨hlast, hall⟩ := hexec.invariant (hnext n _ hP)
      (fun h hu => hsame h.assets hu) fun p hp hrun hbefore =>
        hstep ⟨⟨he, hu, ⟨t, htip⟩⟩, hp⟩ hrun hbefore
    exact ⟨hsame hassets hlast, hall⟩
  have hviews : ∀ n t, after nd s l n = .ok t → P n t.view := by
    intro n t h
    refine Run.after_induction (P := fun n (t : NodeState G) => P n t.view) hs ?_
      (fun n u => hnext n u.view) h
    intro n e u t he hu hP htip
    exact (hblock he hu htip hP).1
  refine ⟨hviews, fun {n e u p} h => ?_⟩
  obtain ⟨t, htip⟩ := h.connected
  exact (hblock h.entry h.reached htip (hviews n u h.reached)).2 p h.mem

/-! ### Heights -/

/-- The height of the tip. -/
def tipHeight (s : NodeState G) : Int :=
  match s.chainActive with
  | [] => -1
  | tip :: _ => tip.nHeight

theorem tipHeight_of_connectTip (h : s.connectTip nd e = .ok s') :
    e.pindex.nHeight = s.tipHeight + 1 ∧ s'.tipHeight = e.pindex.nHeight := by
  obtain ⟨pprev, c, r, hc⟩ := connectTip_ok h
  obtain ⟨ancestors, hchain⟩ : ∃ ancestors, s.chainActive = pprev :: ancestors :=
    List.head?_eq_some_iff.mp hc.head
  rw [hc.nHeight, hc.state]
  exact ⟨by rw [tipHeight, hchain], hc.nHeight⟩

theorem tipHeight_le_after (hle : m ≤ n) (hu : after nd s l m = .ok u)
    (ht : after nd s l n = .ok t) : u.tipHeight ≤ t.tipHeight := by
  refine Run.after_rel (R := fun s t : NodeState G => s.tipHeight ≤ t.tipHeight)
    (fun _ => le_refl _) (fun _ _ _ => le_trans) ?_ hle hu ht
  intro _ _ u t _ _ htip
  obtain ⟨hentry, hheight⟩ := tipHeight_of_connectTip htip
  omega

/-- A block below the tip. -/
theorem ConnectedAt.height_le (h : ConnectedAt nd s l m e u) (hlt : m < n)
    (ht : after nd s l n = .ok t) : e.pindex.nHeight ≤ t.tipHeight := by
  obtain ⟨u', htip⟩ := h.connected
  rw [← (tipHeight_of_connectTip htip).2]
  exact tipHeight_le_after hlt ((Run.after_succ_eq_ok_iff h.entry).mpr ⟨u, h.reached, htip⟩) ht

/-- A block on top of the chain. -/
theorem ConnectedAt.height_eq (h : ConnectedAt nd s l n e u) :
    e.pindex.nHeight = u.tipHeight + 1 := by
  obtain ⟨u', htip⟩ := h.connected
  exact (tipHeight_of_connectTip htip).1

/-- Heights go up along the chain. -/
theorem ConnectedAt.height_mono {e' : BlockEntry G} {u' : NodeState G}
    (h : ConnectedAt nd s l m e' u') (hle : m ≤ n) (hat : ConnectedAt nd s l n e u) :
    e'.pindex.nHeight ≤ e.pindex.nHeight := by
  rcases Nat.lt_or_ge m n with hlt | hge
  · have hbelow := h.height_le hlt hat.reached
    have htop := hat.height_eq
    omega
  · obtain rfl : m = n := by omega
    have heq := h.entry
    rw [hat.entry] at heq
    cases heq
    exact le_refl _

/-! ### From an execution on -/

/-- **What holds after an execution** and is kept by those that follow holds at every later tip. -/
theorem ExecutedAt.invariant {Q : CStateView G → Prop}
    (hat : ExecutedAt nd s l n e u p) (hp : Q p.after)
    (hsame : ∀ {v v'}, v.SameAssets v' → Q v → Q v')
    (hstep : ∀ {m e u q}, n ≤ m → ExecutedAt nd s l m e u q →
      q.Ran nd.toBls e.pindex.nHeight (u.dotNavLive nd e) → Q q.before → Q q.after)
    (hlt : n < m) (ht : after nd s l m = .ok t) : Q t.view := by
  induction m, hlt using Nat.le_induction generalizing t with
  | base =>
    obtain ⟨u', hu', htip⟩ := (Run.after_succ_eq_ok_iff hat.entry).mp ht
    have heq := hat.reached
    rw [show after nd s l n = .ok u' from hu'] at heq
    cases heq
    obtain ⟨v, hexec, hassets⟩ := executes_of_connectTip htip
    obtain ⟨rest, hrest, hexec⟩ := hexec.after_mem hat.mem
    refine hsame hassets (hexec.invariant hp (fun h hu => hsame h.assets hu) ?_).1
    intro q hq hrun hbefore
    exact hstep (le_refl n) ⟨hat.toConnectedAt, hrest q hq⟩ hrun hbefore
  | succ m hle ih =>
    obtain ⟨u', hu', rfl | ⟨e', he', htip⟩⟩ := Run.exists_of_after_succ ht
    · exact ih hu'
    · obtain ⟨v, hexec, hassets⟩ := executes_of_connectTip htip
      refine hsame hassets (hexec.invariant (ih hu') (fun h hu => hsame h.assets hu) ?_).1
      intro q hq hrun hbefore
      exact hstep (by omega) ⟨⟨he', hu', t, htip⟩, hq⟩ hrun hbefore

end Chain

end NodeState

end Navcoin
