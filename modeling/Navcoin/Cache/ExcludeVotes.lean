import Mathlib.Data.List.Basic

/-!
# `CStateViewCache`: the count of excluded votes

Every cache has an `nCacheExcludeVotes`, which is -1 as long as nothing was set or read.  `Flush`
hands it to the view below whatever it is; only the database ignores a -1.

* `ExcludeMarks`: what the calls are meant to do, with the values each cache was given;
* `Represents.step`: one call;
* `excludeVotes_kept`: every sequence of calls, as long as no cache that has nothing is flushed onto
  one that was given a value and no value is set below a cache that has read an older one; and what
  becomes of the value below a cache that is flushed with nothing in it.
-/

namespace Navcoin

/-- Calls on the cache at a depth, the one on top at depth 0. -/
inductive ExcludeCall where
  | getExcludeVotes (depth : Nat)
  | setExcludeVotes (depth : Nat) (count : Int)
  | flush (depth : Nat)

/-! ## On the caches -/

/-- The `nCacheExcludeVotes` of the caches, that on top first, and the row of the database. -/
structure ExcludeStack where
  layers : List Int
  row : Option Int
  deriving DecidableEq, Repr

namespace ExcludeStack

/-- What `GetExcludeVotes` returns. -/
def valueAt (row : Option Int) : List Int → Int
  | [] => row.getD (-1)
  | n :: ls => if n = -1 then valueAt row ls else n

/-- What `GetExcludeVotes` leaves in the caches. -/
def fill (row : Option Int) : List Int → List Int
  | [] => []
  | n :: ls => if n = -1 then valueAt row ls :: fill row ls else n :: ls

def fillAt (row : Option Int) : Nat → List Int → List Int
  | 0, ls => fill row ls
  | _ + 1, [] => []
  | depth + 1, n :: ls => n :: fillAt row depth ls

def setAt (count : Int) : Nat → List Int → List Int
  | _, [] => []
  | 0, _ :: ls => count :: ls
  | depth + 1, n :: ls => n :: setAt count depth ls

/-- `Flush` with the `BatchWrite` of the view below. -/
def flushAt (row : Option Int) : Nat → List Int → List Int × Option Int
  | _, [] => ([], row)
  | 0, [n] => ([-1], if n = -1 then row else some n)
  | 0, n :: _ :: ls => (-1 :: n :: ls, row)
  | depth + 1, n :: ls => (n :: (flushAt row depth ls).1, (flushAt row depth ls).2)

/-- New caches over a database. -/
def onBase (row : Option Int) (n : Nat) : ExcludeStack := ⟨List.replicate n (-1), row⟩

/-- What `GetExcludeVotes` returns at a depth; below the last cache it is the database's. -/
def getExcludeVotes (s : ExcludeStack) (depth : Nat) : Int := valueAt s.row (s.layers.drop depth)

def step (s : ExcludeStack) : ExcludeCall → ExcludeStack
  | .getExcludeVotes depth => { s with layers := fillAt s.row depth s.layers }
  | .setExcludeVotes depth count => { s with layers := setAt count depth s.layers }
  | .flush depth => ⟨(flushAt s.row depth s.layers).1, (flushAt s.row depth s.layers).2⟩

def run (s : ExcludeStack) (calls : List ExcludeCall) : ExcludeStack := calls.foldl step s

end ExcludeStack

/-! ## What the calls are meant to do -/

/-- The value that each cache was given, by `SetExcludeVotes` or by a flush of the one above, and
has not handed down. -/
structure ExcludeMarks where
  layers : List (Option Int)
  row : Option Int

variable {depth : Nat}

namespace ExcludeMarks

def valueAt (row : Option Int) : List (Option Int) → Int
  | [] => row.getD (-1)
  | o :: os => o.getD (valueAt row os)

def setAt (count : Int) : Nat → List (Option Int) → List (Option Int)
  | _, [] => []
  | 0, _ :: os => some count :: os
  | depth + 1, o :: os => o :: setAt count depth os

/-- A cache that was given nothing hands nothing down. -/
def flushAt (row : Option Int) : Nat → List (Option Int) → List (Option Int) × Option Int
  | _, [] => ([], row)
  | 0, none :: os => (none :: os, row)
  | 0, [some v] => ([none], some v)
  | 0, some v :: _ :: os => (none :: some v :: os, row)
  | depth + 1, o :: os => (o :: (flushAt row depth os).1, (flushAt row depth os).2)

def onBase (row : Option Int) (n : Nat) : ExcludeMarks := ⟨List.replicate n none, row⟩

def getExcludeVotes (m : ExcludeMarks) (depth : Nat) : Int := valueAt m.row (m.layers.drop depth)

def step (m : ExcludeMarks) : ExcludeCall → ExcludeMarks
  | .getExcludeVotes _ => m
  | .setExcludeVotes depth count => { m with layers := setAt count depth m.layers }
  | .flush depth => ⟨(flushAt m.row depth m.layers).1, (flushAt m.row depth m.layers).2⟩

def run (m : ExcludeMarks) (calls : List ExcludeCall) : ExcludeMarks := calls.foldl step m

theorem valueAt_flushAt (row : Option Int) (depth : Nat) (os : List (Option Int)) :
    valueAt (flushAt row depth os).2 (flushAt row depth os).1 = valueAt row os := by
  induction depth generalizing os with
  | zero =>
    match os with
    | [] => rfl
    | none :: os => rfl
    | [some v] => rfl
    | some v :: _ :: os => rfl
  | succ depth ih =>
    match os with
    | [] => rfl
    | o :: os =>
      simp only [flushAt, valueAt]
      rw [ih os]

/-- A value that is set below one that was given is not seen. -/
theorem valueAt_setAt {count : Int} {os : List (Option Int)} (row : Option Int)
    (h : (os.take depth).any Option.isSome = true) :
    valueAt row (setAt count depth os) = valueAt row os := by
  induction depth generalizing os with
  | zero => cases h
  | succ depth ih =>
    match os with
    | [] => rfl
    | some v :: os => rfl
    | none :: os =>
      exact ih h

end ExcludeMarks

/-! ## When a call does what it is meant to do -/

/-- The caches hold the values they were given, and otherwise nothing or the value below them. -/
def Represents (row : Option Int) : List (Option Int) → List Int → Prop
  | [], [] => True
  | o :: os, n :: ls =>
    (∀ v, o = some v → n = v ∧ v ≠ -1) ∧
      (o = none → n = -1 ∨ n = ExcludeMarks.valueAt row os) ∧ Represents row os ls
  | _, _ => False

/-- No cache above the depth holds a value it has read from the one at that depth. -/
def Unread : Nat → List (Option Int) → List Int → Prop
  | depth + 1, o :: os, n :: ls =>
    (o = none → n = -1 ∨ (os.take depth).any Option.isSome = true) ∧ Unread depth os ls
  | _, _, _ => True

/-- The cache at the depth holds a value, or the one below it was given none. -/
def Handed : Nat → List (Option Int) → List Int → Prop
  | 0, none :: some _ :: _, n :: _ => n ≠ -1
  | depth + 1, _ :: os, _ :: ls => Handed depth os ls
  | _, _, _ => True

/-- What a call needs. -/
def ExcludeCall.allowed (m : ExcludeMarks) (s : ExcludeStack) : ExcludeCall → Prop
  | .getExcludeVotes _ => True
  | .setExcludeVotes depth count => count ≠ -1 ∧ Unread depth m.layers s.layers
  | .flush depth => Handed depth m.layers s.layers

/-- Every call of a sequence has what it needs. -/
def ExcludeAllowed (m : ExcludeMarks) (s : ExcludeStack) : List ExcludeCall → Prop
  | [] => True
  | call :: calls => call.allowed m s ∧ ExcludeAllowed (m.step call) (s.step call) calls

namespace Represents

open ExcludeStack (fill fillAt)

variable {row : Option Int} {os : List (Option Int)} {ls : List Int}

theorem value (h : Represents row os ls) :
    ExcludeStack.valueAt row ls = ExcludeMarks.valueAt row os := by
  induction os generalizing ls with
  | nil =>
    cases ls with
    | nil => rfl
    | cons n ls => cases h
  | cons o os ih =>
    cases ls with
    | nil => cases h
    | cons n ls =>
      obtain ⟨hsome, hnone, hrest⟩ := h
      have hbelow := ih hrest
      cases o with
      | some v =>
        obtain ⟨rfl, hv⟩ := hsome v rfl
        exact if_neg hv
      | none =>
        simp only [ExcludeStack.valueAt, ExcludeMarks.valueAt, Option.getD_none, hbelow]
        split
        · rfl
        · next hn => exact (hnone rfl).resolve_left hn

theorem drop (h : Represents row os ls) (depth : Nat) :
    Represents row (os.drop depth) (ls.drop depth) := by
  induction depth generalizing os ls with
  | zero => exact h
  | succ depth ih =>
    match os, ls, h with
    | [], [], _ => exact trivial
    | o :: os, n :: ls, h => exact ih h.2.2

theorem fill (h : Represents row os ls) : Represents row os (fill row ls) := by
  induction os generalizing ls with
  | nil =>
    cases ls with
    | nil => exact trivial
    | cons n ls => cases h
  | cons o os ih =>
    cases ls with
    | nil => cases h
    | cons n ls =>
      have hbelow := value h.2.2
      unfold ExcludeStack.fill
      split
      · next hn =>
        refine ⟨fun v hv => ?_, fun _ => .inr hbelow, ih h.2.2⟩
        -- a cache that was given a value does not hold -1
        obtain ⟨hv', hne⟩ := h.1 v hv
        exact absurd (hv'.symm.trans hn) hne
      · exact h

theorem fillAt (h : Represents row os ls) (depth : Nat) :
    Represents row os (fillAt row depth ls) := by
  induction depth generalizing os ls with
  | zero => exact fill h
  | succ depth ih =>
    match os, ls, h with
    | [], [], _ => exact trivial
    | o :: os, n :: ls, h => exact ⟨h.1, h.2.1, ih h.2.2⟩

theorem setAt {count : Int} (h : Represents row os ls) (hcount : count ≠ -1)
    (hunread : Unread depth os ls) :
    Represents row (ExcludeMarks.setAt count depth os) (ExcludeStack.setAt count depth ls) := by
  induction depth generalizing os ls with
  | zero =>
    match os, ls, h with
    | [], [], _ => exact trivial
    | o :: os, n :: ls, h =>
      refine ⟨fun v hv => ?_, fun hnone => (by cases hnone), h.2.2⟩
      cases hv
      exact ⟨rfl, hcount⟩
  | succ depth ih =>
    match os, ls, h with
    | [], [], _ => exact trivial
    | o :: os, n :: ls, h =>
      refine ⟨h.1, fun hnone => ?_, ih h.2.2 hunread.2⟩
      rcases hunread.1 hnone with hn | hgiven
      · exact .inl hn
      · rw [ExcludeMarks.valueAt_setAt row hgiven]
        exact h.2.1 hnone

/-- The cache on top is flushed onto another. -/
theorem flush_cache {o p : Option Int} {n m : Int}
    (h : Represents row (o :: p :: os) (n :: m :: ls))
    (hhanded : Handed 0 (o :: p :: os) (n :: m :: ls)) :
    Represents (ExcludeMarks.flushAt row 0 (o :: p :: os)).2
      (ExcludeMarks.flushAt row 0 (o :: p :: os)).1 (-1 :: n :: ls) := by
  obtain ⟨hsome, hnone, hsome', hnone', hrest⟩ := h
  cases o with
  | some v =>
    refine ⟨fun w hw => (by cases hw), fun _ => .inl rfl, ?_, fun h => (by cases h), hrest⟩
    intro w hw
    cases hw
    exact hsome v rfl
  | none =>
    refine ⟨fun w hw => (by cases hw), fun _ => .inl rfl, ?_, ?_, hrest⟩
    · rintro v rfl
      have hn : n = v := (hnone rfl).resolve_left hhanded
      exact ⟨hn, (hsome' v rfl).2⟩
    · rintro rfl
      exact hnone rfl

theorem flushAt (h : Represents row os ls) (hhanded : Handed depth os ls) :
    Represents (ExcludeMarks.flushAt row depth os).2 (ExcludeMarks.flushAt row depth os).1
        (ExcludeStack.flushAt row depth ls).1 ∧
      (ExcludeStack.flushAt row depth ls).2 = (ExcludeMarks.flushAt row depth os).2 := by
  induction depth generalizing os ls with
  | zero =>
    match os, ls, h with
    | [], [], _ => exact ⟨trivial, rfl⟩
    | [some v], [n], h =>
      obtain ⟨rfl, hv⟩ := h.1 v rfl
      exact ⟨⟨fun w hw => (by cases hw), fun _ => .inl rfl, trivial⟩, if_neg hv⟩
    | [none], [n], h =>
      refine ⟨⟨fun w hw => (by cases hw), fun _ => .inl rfl, trivial⟩, ?_⟩
      simp only [ExcludeStack.flushAt, ExcludeMarks.flushAt]
      split
      · rfl
      · next hn =>
        -- what it has read is what the database has
        have hvalue : n = row.getD (-1) := (h.2.1 rfl).resolve_left hn
        cases row with
        | none => exact absurd hvalue hn
        | some r => rw [hvalue, Option.getD_some]
    | o :: p :: os, n :: m :: ls, h =>
      refine ⟨flush_cache h hhanded, ?_⟩
      cases o <;> rfl
  | succ depth ih =>
    match os, ls, h with
    | [], [], _ => exact ⟨trivial, rfl⟩
    | o :: os, n :: ls, h =>
      obtain ⟨hrest, hrow⟩ := ih h.2.2 hhanded
      rw [ExcludeMarks.flushAt, ExcludeStack.flushAt]
      refine ⟨⟨h.1, fun hnone => ?_, hrest⟩, hrow⟩
      rw [ExcludeMarks.valueAt_flushAt]
      exact h.2.1 hnone

end Represents

/-- The stack and what it is meant to hold. -/
structure ExcludeStack.Holds (s : ExcludeStack) (m : ExcludeMarks) : Prop where
  row : s.row = m.row
  layers : Represents m.row m.layers s.layers

theorem ExcludeStack.Holds.step {s : ExcludeStack} {m : ExcludeMarks} (h : s.Holds m)
    {call : ExcludeCall} (hallow : call.allowed m s) : (s.step call).Holds (m.step call) := by
  obtain ⟨hrow, hlayers⟩ := h
  cases call with
  | getExcludeVotes depth =>
    refine ⟨hrow, ?_⟩
    simp only [ExcludeStack.step, hrow]
    exact hlayers.fillAt depth
  | setExcludeVotes depth count => exact ⟨hrow, hlayers.setAt hallow.1 hallow.2⟩
  | flush depth =>
    obtain ⟨hrest, hrow'⟩ := hlayers.flushAt hallow
    simp only [ExcludeStack.step, hrow]
    exact ⟨hrow', hrest⟩

theorem ExcludeStack.Holds.run {s : ExcludeStack} {m : ExcludeMarks} (h : s.Holds m)
    {calls : List ExcludeCall} (hallow : ExcludeAllowed m s calls) :
    (s.run calls).Holds (m.run calls) := by
  induction calls generalizing s m with
  | nil => exact h
  | cons call calls ih => exact ih (h.step hallow.1) hallow.2

theorem ExcludeStack.holds_over (row : Option Int) (n : Nat) :
    (ExcludeStack.onBase row n).Holds (ExcludeMarks.onBase row n) := by
  refine ⟨rfl, ?_⟩
  induction n with
  | zero => exact trivial
  | succ n ih => exact ⟨fun v hv => (by cases hv), fun _ => .inl rfl, ih⟩

/-- The value below a cache that is flushed with nothing in it. -/
theorem ExcludeStack.flush_unset_iff (s : ExcludeStack) (depth : Nat)
    (h : s.layers[depth]? = some (-1)) :
    (s.step (.flush depth)).getExcludeVotes (depth + 1) = s.getExcludeVotes (depth + 1) ↔
      ∀ n, s.layers[depth + 1]? = some n → n = -1 ∨ s.getExcludeVotes (depth + 2) = n := by
  obtain ⟨ls, row⟩ := s
  simp only [step, getExcludeVotes] at h ⊢
  induction depth generalizing ls with
  | zero =>
    match ls, h with
    | [n], h =>
      cases h
      simp [flushAt]
    | n :: m :: ls, h =>
      cases h
      by_cases hm : m = -1
      · simp [flushAt, valueAt, hm]
      · simp [flushAt, valueAt, hm]
  | succ depth ih =>
    match ls, h with
    | n :: ls, h =>
      rw [flushAt]
      exact ih ls h

/-- **The count of excluded votes.**  After any calls that had what they need, `GetExcludeVotes` at
any depth returns the value that the cache was given, else that of the view below.  A cache that is
flushed with nothing in it leaves the value below as it was exactly when the cache below has nothing
either, or what is under that cache is the same. -/
theorem excludeVotes_kept (row : Option Int) (n : Nat) (calls : List ExcludeCall)
    (s : ExcludeStack) (depth : Nat) :
    (ExcludeAllowed (.onBase row n) (.onBase row n) calls →
        ((ExcludeStack.onBase row n).run calls).getExcludeVotes depth =
          ((ExcludeMarks.onBase row n).run calls).getExcludeVotes depth) ∧
      (s.layers[depth]? = some (-1) →
        ((s.step (.flush depth)).getExcludeVotes (depth + 1) = s.getExcludeVotes (depth + 1) ↔
          ∀ n, s.layers[depth + 1]? = some n → n = -1 ∨ s.getExcludeVotes (depth + 2) = n)) := by
  refine ⟨?_, s.flush_unset_iff depth⟩
  intro hallow
  obtain ⟨hrow, hlayers⟩ := (ExcludeStack.holds_over row n).run hallow
  unfold ExcludeStack.getExcludeVotes ExcludeMarks.getExcludeVotes
  rw [hrow]
  exact (hlayers.drop depth).value

/-- A value is set in the cache below, read through the one on top, and both are flushed. -/
theorem excludeVotes_kept_read :
    ((ExcludeStack.onBase none 2).run
        [.setExcludeVotes 1 5, .getExcludeVotes 0, .flush 0, .flush 1]).getExcludeVotes 2 = 5 := by
  have hallow : ExcludeAllowed (.onBase none 2) (.onBase none 2)
      [.setExcludeVotes 1 5, .getExcludeVotes 0, .flush 0, .flush 1] :=
    ⟨⟨by decide, fun _ => .inl rfl, trivial⟩, trivial, (by decide : (5 : Int) ≠ -1), trivial,
      trivial⟩
  exact ((excludeVotes_kept none 2 _ (.onBase none 2) 2).1 hallow).trans rfl

/-- The same without the read: the cache below loses the value. -/
theorem unset_flush_loses_value :
    ((ExcludeStack.onBase none 2).run [.setExcludeVotes 1 5, .flush 0]).getExcludeVotes 1 = -1 ∧
      ((ExcludeMarks.onBase none 2).run [.setExcludeVotes 1 5, .flush 0]).getExcludeVotes 1 =
        5 := by
  decide

end Navcoin
