import Mathlib.Data.List.Basic

/-!
# Computations that may fail and leave a trace

A validation routine returns nothing but a verdict, while what one wants to say
about it is often which external calls it made on the way.  `Traced ω ε α` is a
computation that emits events of type `ω` and then either fails with an `ε` or
returns an `α`; the events emitted before a failure are kept.

* `bind_eq_ok_iff` and `mem_trace_bind` take a sequence of steps apart;
* `rejectIf` is the usual guard "if the condition holds, fail with `e`", for
  `Except` and for `Traced` alike;
* `foldlM_ok_invariant` is the loop rule, for both;
* `allM_eq_error_iff` says where a loop of tests fails;
* `foldlM_ok_at` and `mem_trace_foldlM` look at one round of a loop.
-/

/-! ## Guards in `Except` -/

namespace Except

variable {ε α β : Type}

theorem bind_eq_ok_iff (x : Except ε α) (f : α → Except ε β) (b : β) :
    (x >>= f) = .ok b ↔ ∃ a, x = .ok a ∧ f a = .ok b := by
  cases x with
  | error e => simp [bind, Except.bind]
  | ok a => simp [bind, Except.bind]

@[simp] theorem pure_eq_ok_iff (a b : α) : (pure a : Except ε α) = .ok b ↔ a = b := by
  simp [pure, Except.pure]

theorem exists_of_isOk {x : Except ε α} (h : x.isOk = true) : ∃ a, x = .ok a := by
  cases x with
  | error e => cases h
  | ok a => exact ⟨a, rfl⟩

theorem exists_of_map_eq_ok {x : Except ε α} {f : α → β} {b : β} (h : x.map f = .ok b) :
    ∃ a, x = .ok a ∧ f a = b := by
  cases x with
  | error e => cases h
  | ok a => exact ⟨a, rfl, Except.ok.inj h⟩

section Computed

variable {x : Except ε α} {P Q : α → Prop}

theorem exists_and_of_isOk (h : x.isOk = true) (hQ : ∀ a, x = .ok a → Q a) :
    ∃ a, x = .ok a ∧ Q a := by
  obtain ⟨a, ha⟩ := exists_of_isOk h
  exact ⟨a, ha, hQ a ha⟩

variable [DecidablePred P] (h : (x.map fun a => decide (P a)) = .ok true)
include h

/-- What was computed of the outcome. -/
theorem exists_of_decide : ∃ a, x = .ok a ∧ P a := by
  obtain ⟨a, ha, hP⟩ := exists_of_map_eq_ok h
  exact ⟨a, ha, of_decide_eq_true hP⟩

theorem exists_and_of_decide (hQ : ∀ a, x = .ok a → P a → Q a) : ∃ a, x = .ok a ∧ P a ∧ Q a := by
  obtain ⟨a, ha, hP⟩ := exists_of_decide h
  exact ⟨a, ha, hP, hQ a ha hP⟩

end Computed

/-- Fail with `e` when `c` holds. -/
def rejectIf (c : Prop) [Decidable c] (e : ε) : Except ε Unit :=
  if c then .error e else .ok ()

@[simp] theorem rejectIf_eq_ok_iff (c : Prop) [Decidable c] (e : ε) (u : Unit) :
    rejectIf c e = .ok u ↔ ¬ c := by
  unfold rejectIf
  split <;> simp_all

/-- A loop of checks passes when each of them does. -/
theorem forM_eq_ok_iff (f : α → Except ε Unit) (l : List α) :
    l.forM f = .ok () ↔ ∀ a ∈ l, f a = .ok () := by
  induction l with
  | nil => simp [List.forM, pure, Except.pure]
  | cons a l ih =>
    change (f a >>= fun _ => l.forM f) = _ ↔ _
    rw [bind_eq_ok_iff, List.forall_mem_cons, ← ih]
    constructor
    · rintro ⟨_, ha, hl⟩
      exact ⟨ha, hl⟩
    · rintro ⟨ha, hl⟩
      exact ⟨(), ha, hl⟩

/-- A loop that only fails or moves on keeps every property its body keeps.  The
property may speak of the elements already consumed. -/
theorem foldlM_ok_invariant {σ : Type} (P : List α → σ → Prop)
    (f : σ → α → Except ε σ)
    (step : ∀ done s a s', P done s → f s a = .ok s' → P (done ++ [a]) s') :
    ∀ (l done : List α) (s s' : σ), P done s → l.foldlM f s = .ok s' →
      P (done ++ l) s' := by
  intro l
  induction l with
  | nil =>
    intro done s s' hs hrun
    cases hrun
    simpa using hs
  | cons a l ih =>
    intro done s s' hs hrun
    rw [List.foldlM_cons, bind_eq_ok_iff] at hrun
    obtain ⟨t, hstep, hrest⟩ := hrun
    simpa using ih (done ++ [a]) t s' (step done s a t hs hstep) hrest

/-- When the success of a body depends neither on the state nor on what related elements
differ in, a loop over related elements succeeds as well. -/
theorem foldlM_ok_of_forall₂ {σ : Type} {R : α → β → Prop} {f : σ → α → Except ε σ}
    {g : σ → β → Except ε σ}
    (step : ∀ a b s s' t, R a b → f s a = .ok s' → ∃ t', g t b = .ok t')
    {l : List α} {l' : List β} (h : List.Forall₂ R l l') :
    ∀ s s' t, l.foldlM f s = .ok s' → ∃ t', l'.foldlM g t = .ok t' := by
  induction h with
  | nil =>
    intro _ _ t _
    exact ⟨t, rfl⟩
  | cons hab _ ih =>
    intro s s' t hrun
    rw [List.foldlM_cons, bind_eq_ok_iff] at hrun
    obtain ⟨s1, hstep, hrest⟩ := hrun
    obtain ⟨t1, hstep'⟩ := step _ _ s s1 t hab hstep
    obtain ⟨t', hrest'⟩ := ih s1 s' t1 hrest
    exact ⟨t', by rw [List.foldlM_cons, bind_eq_ok_iff]; exact ⟨t1, hstep', hrest'⟩⟩

theorem foldlM_congr {σ : Type} {f g : σ → α → Except ε σ} {l : List α}
    (h : ∀ a ∈ l, ∀ s, f s a = g s a) (s : σ) : l.foldlM f s = l.foldlM g s := by
  induction l generalizing s with
  | nil => rfl
  | cons a l ih =>
    obtain ⟨ha, hrest⟩ := List.forall_mem_cons.mp h
    rw [List.foldlM_cons, ha]
    exact bind_congr fun t => ih hrest t

/-- A change of the state that a body does not see can be made after the loop. -/
theorem foldlM_map {σ : Type} {f : σ → α → Except ε σ} {g : σ → σ}
    (step : ∀ s a, f (g s) a = (f s a).map g) (l : List α) (s : σ) :
    l.foldlM f (g s) = (l.foldlM f s).map g := by
  induction l generalizing s with
  | nil => rfl
  | cons a l ih =>
    rw [List.foldlM_cons, List.foldlM_cons, step]
    cases f s a with
    | error e => rfl
    | ok t => exact ih t

/-- A loop of tests that stops at the first one not passed fails where a test it reaches fails. -/
theorem allM_eq_error_iff (f : α → Except ε Bool) (l : List α) (e : ε) :
    l.allM f = .error e ↔
      ∃ pre a post, l = pre ++ a :: post ∧ (∀ b ∈ pre, f b = .ok true) ∧ f a = .error e := by
  induction l with
  | nil => simp [List.allM, pure, Except.pure]
  | cons a l ih =>
    -- the first element is either the one that fails or one that passes
    have hcons : (∃ pre b post, a :: l = pre ++ b :: post ∧ (∀ c ∈ pre, f c = .ok true) ∧
        f b = .error e) ↔ f a = .error e ∨ f a = .ok true ∧
          ∃ pre b post, l = pre ++ b :: post ∧ (∀ c ∈ pre, f c = .ok true) ∧ f b = .error e := by
      constructor
      · rintro ⟨pre, b, post, hsplit, hpre, hb⟩
        cases pre with
        | nil =>
          rw [List.nil_append, List.cons.injEq] at hsplit
          exact .inl (hsplit.1 ▸ hb)
        | cons c pre =>
          rw [List.cons_append, List.cons.injEq] at hsplit
          obtain ⟨hc, hpre⟩ := List.forall_mem_cons.mp hpre
          exact .inr ⟨hsplit.1 ▸ hc, pre, b, post, hsplit.2, hpre, hb⟩
      · rintro (ha | ⟨ha, pre, b, post, rfl, hpre, hb⟩)
        · exact ⟨[], a, l, rfl, by simp, ha⟩
        · exact ⟨a :: pre, b, post, rfl, List.forall_mem_cons.mpr ⟨ha, hpre⟩, hb⟩
    rw [hcons, ← ih, List.allM]
    rcases f a with e' | ⟨_ | _⟩ <;> simp [bind, Except.bind, pure, Except.pure]

end Except

/-! ## Traced computations -/

/-- A computation with the events it emitted and its outcome. -/
structure Traced (ω ε α : Type) where
  trace : List ω
  result : Except ε α

namespace Traced

variable {ω ε α β σ : Type}

instance : Monad (Traced ω ε) where
  pure a := ⟨[], .ok a⟩
  bind x f :=
    match x.result with
    | .error e => ⟨x.trace, .error e⟩
    | .ok a => ⟨x.trace ++ (f a).trace, (f a).result⟩

instance : LawfulMonad (Traced ω ε) :=
  LawfulMonad.mk' _
    (by
      intro _ x
      rcases x with ⟨tr, _ | a⟩
      · rfl
      · exact congrArg (Traced.mk · _) (List.append_nil tr))
    (fun _ _ => rfl)
    (by
      intro _ _ _ x f g
      rcases x with ⟨tr, _ | a⟩
      · rfl
      · rcases hf : f a with ⟨tr', _ | b⟩
        · simp [bind, hf]
        · simp [bind, hf])

/-- Emit one event. -/
def emit (w : ω) : Traced ω ε Unit := ⟨[w], .ok ()⟩

/-- Emit a list of events. -/
def emitAll (l : List ω) : Traced ω ε Unit := ⟨l, .ok ()⟩

/-- Stop with a failure. -/
def fail (e : ε) : Traced ω ε α := ⟨[], .error e⟩

/-- A computation that emits nothing. -/
def ofExcept (x : Except ε α) : Traced ω ε α := ⟨[], x⟩

/-- Fail with `e` when `c` holds. -/
def rejectIf (c : Prop) [Decidable c] (e : ε) : Traced ω ε Unit :=
  ofExcept (Except.rejectIf c e)

/-- Run `x` when `c` holds, otherwise do nothing. -/
def onlyIf (c : Prop) [Decidable c] (x : Traced ω ε Unit) : Traced ω ε Unit :=
  if c then x else pure ()

theorem onlyIf_eq_ok_iff (c : Prop) [Decidable c] (x : Traced ω ε Unit) (u : Unit) :
    (onlyIf c x).result = .ok u ↔ (c → x.result = .ok u) := by
  unfold onlyIf
  split
  · simp_all
  · simp_all [pure]

theorem mem_trace_onlyIf (c : Prop) [Decidable c] (x : Traced ω ε Unit) (w : ω) :
    w ∈ (onlyIf c x).trace ↔ c ∧ w ∈ x.trace := by
  unfold onlyIf
  split
  · simp_all
  · simp_all [pure]

@[simp] theorem trace_pure (a : α) : (pure a : Traced ω ε α).trace = [] := rfl
@[simp] theorem result_pure (a : α) : (pure a : Traced ω ε α).result = .ok a := rfl
@[simp] theorem trace_emit (w : ω) : (emit w : Traced ω ε Unit).trace = [w] := rfl
@[simp] theorem result_emit (w : ω) : (emit w : Traced ω ε Unit).result = .ok () := rfl
@[simp] theorem trace_emitAll (l : List ω) : (emitAll l : Traced ω ε Unit).trace = l := rfl
@[simp] theorem result_emitAll (l : List ω) : (emitAll l : Traced ω ε Unit).result = .ok () := rfl
@[simp] theorem trace_fail (e : ε) : (fail e : Traced ω ε α).trace = [] := rfl
@[simp] theorem result_fail (e : ε) : (fail e : Traced ω ε α).result = .error e := rfl
@[simp] theorem trace_ofExcept (x : Except ε α) : (ofExcept x : Traced ω ε α).trace = [] := rfl
@[simp] theorem result_ofExcept (x : Except ε α) : (ofExcept x : Traced ω ε α).result = x := rfl
@[simp] theorem trace_rejectIf (c : Prop) [Decidable c] (e : ε) :
    (rejectIf c e : Traced ω ε Unit).trace = [] := rfl
@[simp] theorem result_rejectIf (c : Prop) [Decidable c] (e : ε) :
    (rejectIf c e : Traced ω ε Unit).result = Except.rejectIf c e := rfl

theorem result_bind (x : Traced ω ε α) (f : α → Traced ω ε β) :
    (x >>= f).result = x.result >>= fun a => (f a).result := by
  cases h : x.result <;> simp [bind, Except.bind, h]

/-- A sequence succeeds when both parts do. -/
theorem bind_eq_ok_iff (x : Traced ω ε α) (f : α → Traced ω ε β) (b : β) :
    (x >>= f).result = .ok b ↔ ∃ a, x.result = .ok a ∧ (f a).result = .ok b := by
  rw [result_bind, Except.bind_eq_ok_iff]

theorem trace_bind_of_ok {x : Traced ω ε α} {a : α} (h : x.result = .ok a)
    (f : α → Traced ω ε β) : (x >>= f).trace = x.trace ++ (f a).trace := by
  simp [bind, h]

theorem trace_bind_of_error {x : Traced ω ε α} {e : ε} (h : x.result = .error e)
    (f : α → Traced ω ε β) : (x >>= f).trace = x.trace := by
  simp [bind, h]

/-- An event of a sequence was emitted by its first part or, when that part
returned, by the second. -/
theorem mem_trace_bind (x : Traced ω ε α) (f : α → Traced ω ε β) (w : ω) :
    w ∈ (x >>= f).trace ↔
      w ∈ x.trace ∨ ∃ a, x.result = .ok a ∧ w ∈ (f a).trace := by
  cases h : x.result with
  | error e => simp [trace_bind_of_error h]
  | ok a => simp [trace_bind_of_ok h]

/-- Loop rule for outcomes and events together: the property may speak of the elements
consumed. -/
theorem foldlM_trace_invariant (P : List α → σ → List ω → Prop) (f : σ → α → Traced ω ε σ)
    (step : ∀ done s tr a s', P done s tr → (f s a).result = .ok s' →
      P (done ++ [a]) s' (tr ++ (f s a).trace)) :
    ∀ (l done : List α) (s : σ) (tr : List ω) (s' : σ), P done s tr →
      (l.foldlM f s).result = .ok s' → P (done ++ l) s' (tr ++ (l.foldlM f s).trace) := by
  intro l
  induction l with
  | nil =>
    intro done s tr s' hs hrun
    cases hrun
    simpa using hs
  | cons a l ih =>
    intro done s tr s' hs hrun
    have hrun' := hrun
    rw [List.foldlM_cons, bind_eq_ok_iff] at hrun'
    obtain ⟨t, hstep, hrest⟩ := hrun'
    have htail := ih (done ++ [a]) t (tr ++ (f s a).trace) s' (step done s tr a t hs hstep) hrest
    rw [List.foldlM_cons, trace_bind_of_ok hstep]
    simpa using htail

/-- Loop rule for outcomes. -/
theorem foldlM_ok_invariant (P : List α → σ → Prop) (f : σ → α → Traced ω ε σ)
    (step : ∀ done s a s', P done s → (f s a).result = .ok s' → P (done ++ [a]) s')
    (l done : List α) (s s' : σ) (hs : P done s) (hrun : (l.foldlM f s).result = .ok s') :
    P (done ++ l) s' :=
  foldlM_trace_invariant (fun done s _ => P done s) f (fun done s _ a s' => step done s a s')
    l done s [] s' hs hrun

/-- A loop that passes has passed at every element, from the state that the elements before it
led to; the events there are among those of the loop. -/
theorem foldlM_ok_at (f : σ → α → Traced ω ε σ) :
    ∀ (l : List α) (s s' : σ), (l.foldlM f s).result = .ok s' → ∀ i a, l[i]? = some a →
      ∃ t t', ((l.take i).foldlM f s).result = .ok t ∧ (f t a).result = .ok t' ∧
        ∀ w ∈ (f t a).trace, w ∈ (l.foldlM f s).trace := by
  intro l
  induction l with
  | nil =>
    intro s s' _ i a hi
    simp at hi
  | cons b l ih =>
    intro s s' hrun i a hi
    rw [List.foldlM_cons, bind_eq_ok_iff] at hrun
    obtain ⟨t, hstep, hrest⟩ := hrun
    rw [List.foldlM_cons, trace_bind_of_ok hstep]
    cases i with
    | zero =>
      obtain rfl : b = a := by simpa using hi
      exact ⟨s, t, rfl, hstep, fun w hw => List.mem_append_left _ hw⟩
    | succ i =>
      obtain ⟨u, u', hu, hu', hmem⟩ := ih t s' hrest i a (by simpa using hi)
      refine ⟨u, u', ?_, hu', fun w hw => List.mem_append_right _ (hmem w hw)⟩
      rw [List.take_succ_cons, List.foldlM_cons, bind_eq_ok_iff]
      exact ⟨t, hstep, hu⟩

/-- Every event of a loop that passes was emitted at one of its elements. -/
theorem mem_trace_foldlM (f : σ → α → Traced ω ε σ) :
    ∀ (l : List α) (s s' : σ), (l.foldlM f s).result = .ok s' → ∀ w ∈ (l.foldlM f s).trace,
      ∃ i a t, l[i]? = some a ∧ ((l.take i).foldlM f s).result = .ok t ∧ w ∈ (f t a).trace := by
  intro l
  induction l with
  | nil =>
    intro s s' _ w hw
    cases hw
  | cons b l ih =>
    intro s s' hrun w hw
    rw [List.foldlM_cons, bind_eq_ok_iff] at hrun
    obtain ⟨t, hstep, hrest⟩ := hrun
    rw [List.foldlM_cons, trace_bind_of_ok hstep] at hw
    rcases List.mem_append.mp hw with hhead | htail
    · exact ⟨0, b, s, rfl, rfl, hhead⟩
    · obtain ⟨i, a, u, hi, hu, hmem⟩ := ih t s' hrest w htail
      refine ⟨i + 1, a, u, by simpa using hi, ?_, hmem⟩
      rw [List.take_succ_cons, List.foldlM_cons, bind_eq_ok_iff]
      exact ⟨t, hstep, hu⟩

end Traced
