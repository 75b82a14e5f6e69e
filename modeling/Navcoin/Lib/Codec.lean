import Mathlib.Data.List.Basic
import Mathlib.Data.List.Forall2
import Mathlib.Data.Nat.Digits.Defs

/-!
# Byte readers and round trips

A reader consumes a list of bytes from the front and either fails or returns a
value with the bytes that are left.  `RoundTrip r bs a` says that `r` reads the
value `a` from the bytes `bs`, whatever follows them, and consumes exactly `bs`.
It composes along `bind`, so a record format is handled field by field.

* `RoundTrip.bind`, `RoundTrip.pure` and `RoundTrip.repeat` are the composition rules;
* `Refused r bs` says that `r` fails on `bs`, and propagates along `bind`;
* `Yields r P` says that every value `r` returns satisfies `P`;
* `Exact r bs Q P` says that a value with `Q` is read from `bs` only when `P` holds, and then
  exactly `bs` is consumed;
* `toLE` / `ofLE` and `toBE` / `ofBE` are the fixed-width integers.
-/

abbrev Bytes := List UInt8

/-- A reader with failures in `ε`. -/
abbrev Reader (ε α : Type) := StateT Bytes (Except ε) α

namespace Reader

variable {ε α β : Type}

/-- Read `n` bytes, or fail with `e` when fewer are left. -/
def take (e : ε) (n : Nat) : Reader ε Bytes := fun bs =>
  if bs.length < n then .error e else .ok (bs.take n, bs.drop n)

/-- Drop `n` bytes, or fail with `e` when fewer are left. -/
def ignore (e : ε) (n : Nat) : Reader ε Unit := fun bs =>
  if bs.length < n then .error e else .ok ((), bs.drop n)

/-- Run `r` a given number of times and collect the values. -/
def «repeat» (r : Reader ε α) : Nat → Reader ε (List α)
  | 0 => pure []
  | n + 1 => do
    let a ← r
    let as ← Reader.repeat r n
    pure (a :: as)

end Reader

namespace Reader

variable {ε α β : Type}

/-- A sequence of readers returns when both do. -/
theorem bind_eq_ok_iff {r : Reader ε α} {f : α → Reader ε β} {bs : Bytes} {out : β × Bytes} :
    (r >>= f).run bs = .ok out ↔ ∃ a bs', r.run bs = .ok (a, bs') ∧ (f a).run bs' = .ok out := by
  rw [StateT.run_bind]
  cases h : r.run bs with
  | error e => simp [bind, Except.bind]
  | ok p => simp [bind, Except.bind, Prod.ext_iff]

theorem pure_eq_ok_iff {a : α} {bs : Bytes} {out : α × Bytes} :
    (Pure.pure a : Reader ε α).run bs = .ok out ↔ out = (a, bs) := by
  constructor
  · intro h
    cases h
    rfl
  · rintro rfl
    rfl

end Reader

/-- The reader `r` reads `a` from `bs` and leaves what follows untouched. -/
def RoundTrip {ε α : Type} (r : Reader ε α) (bs : Bytes) (a : α) : Prop :=
  ∀ rest, r.run (bs ++ rest) = .ok (a, rest)

namespace RoundTrip

variable {ε α β : Type}

theorem pure (a : α) : RoundTrip (Pure.pure a : Reader ε α) [] a := by
  intro rest
  rfl

variable {bs : Bytes} {r : Reader ε α} {a : α}

theorem bind {f : α → Reader ε β} {cs : Bytes} {b : β} (hr : RoundTrip r bs a)
    (hf : RoundTrip (f a) cs b) : RoundTrip (r >>= f) (bs ++ cs) b := by
  intro rest
  have hfirst := hr (cs ++ rest)
  rw [List.append_assoc, StateT.run_bind, hfirst]
  exact hf rest

/-- A continuation that reads nothing more. -/
theorem bind_nil {f : α → Reader ε β} {b : β} (hr : RoundTrip r bs a)
    (hf : RoundTrip (f a) [] b) : RoundTrip (r >>= f) bs b := by
  have h := hr.bind hf
  rwa [List.append_nil] at h

theorem map (g : α → β) (hr : RoundTrip r bs a) : RoundTrip (g <$> r) bs (g a) := by
  intro rest
  rw [StateT.run_map, hr rest]
  rfl

/-- The last step of a record: read one more field, then build the value. -/
theorem bind_pure (g : α → β) (hr : RoundTrip r bs a) :
    RoundTrip (r >>= fun x => Pure.pure (g x)) bs (g a) :=
  hr.bind_nil (f := fun x => Pure.pure (g x)) (RoundTrip.pure (g a))

theorem take (e : ε) (bs : Bytes) : RoundTrip (Reader.take e bs.length) bs bs := by
  intro rest
  simp [Reader.take, StateT.run]

theorem «repeat» {enc : α → Bytes} (as : List α) (h : ∀ a ∈ as, RoundTrip r (enc a) a) :
    RoundTrip (Reader.repeat r as.length) (as.flatMap enc) as := by
  induction as with
  | nil => exact RoundTrip.pure []
  | cons a as ih =>
    have hhead : RoundTrip r (enc a) a := h a (by simp)
    have htail := ih fun b hb => h b (List.mem_cons_of_mem a hb)
    rw [List.flatMap_cons]
    exact hhead.bind (htail.bind_pure (a :: ·))

/-- A list whose values may come back as others. -/
theorem repeat_rel {enc : α → Bytes} {R : α → α → Prop} (as : List α)
    (h : ∀ a ∈ as, ∃ b, RoundTrip r (enc a) b ∧ R a b) :
    ∃ bs, RoundTrip (Reader.repeat r as.length) (as.flatMap enc) bs ∧ List.Forall₂ R as bs := by
  induction as with
  | nil => exact ⟨[], RoundTrip.pure [], .nil⟩
  | cons a as ih =>
    obtain ⟨b, hhead, hR⟩ := h a (by simp)
    obtain ⟨bs, htail, hRs⟩ := ih fun b hb => h b (List.mem_cons_of_mem a hb)
    refine ⟨b :: bs, ?_, .cons hR hRs⟩
    exact hhead.bind (htail.bind_pure (b :: ·))

/-- A reader cannot read two values from the same bytes. -/
theorem unique {b : α} (ha : RoundTrip r bs a) (hb : RoundTrip r bs b) : a = b := by
  have h := (ha []).symm.trans (hb [])
  simpa using h

end RoundTrip

/-- The reader `r` fails on `bs`, whatever follows. -/
def Refused {ε α : Type} (r : Reader ε α) (bs : Bytes) : Prop :=
  ∀ rest, ∃ e, r.run (bs ++ rest) = .error e

namespace Refused

variable {ε α β : Type}

theorem throw (e : ε) (bs : Bytes) : Refused (MonadExcept.throw e : Reader ε α) bs := by
  intro rest
  exact ⟨e, rfl⟩

variable {r : Reader ε α} {bs : Bytes}

theorem append (h : Refused r bs) (cs : Bytes) :
    Refused r (bs ++ cs) := by
  intro rest
  rw [List.append_assoc]
  exact h (cs ++ rest)

theorem bind (h : Refused r bs) (f : α → Reader ε β) :
    Refused (r >>= f) bs := by
  intro rest
  obtain ⟨e, he⟩ := h rest
  exact ⟨e, by rw [StateT.run_bind, he]; rfl⟩

theorem map (h : Refused r bs) (g : α → β) :
    Refused (g <$> r) bs := by
  intro rest
  obtain ⟨e, he⟩ := h rest
  exact ⟨e, by rw [StateT.run_map, he]; rfl⟩

end Refused

/-- A record is refused when one of its fields is, after the fields before it. -/
theorem RoundTrip.bind_refused {ε α β : Type} {r : Reader ε α} {f : α → Reader ε β}
    {bs cs : Bytes} {a : α} (hr : RoundTrip r bs a) (hf : Refused (f a) cs) :
    Refused (r >>= f) (bs ++ cs) := by
  intro rest
  have hfirst := hr (cs ++ rest)
  rw [List.append_assoc, StateT.run_bind, hfirst]
  exact hf rest

/-- Every value that the reader `r` returns satisfies `P`. -/
def Yields {ε α : Type} (r : Reader ε α) (P : α → Prop) : Prop :=
  ∀ bs a rest, r.run bs = .ok (a, rest) → P a

namespace Yields

variable {ε α β : Type} {P : α → Prop} {Q : β → Prop}

theorem any (r : Reader ε α) : Yields r fun _ => True := fun _ _ _ _ => trivial

theorem pure {a : α} (h : P a) : Yields (Pure.pure a : Reader ε α) P := by
  intro bs a' rest hrun
  cases hrun
  exact h

theorem throw (e : ε) : Yields (MonadExcept.throw e : Reader ε α) P := by
  intro bs a rest hrun
  cases hrun

theorem bind {r : Reader ε α} {f : α → Reader ε β} (hr : Yields r P)
    (hf : ∀ a, P a → Yields (f a) Q) : Yields (r >>= f) Q := by
  intro bs b rest hrun
  obtain ⟨a, bs', hfirst, hsecond⟩ := Reader.bind_eq_ok_iff.mp hrun
  exact hf a (hr bs a bs' hfirst) bs' b rest hsecond

/-- The first reader says nothing about the value of the sequence. -/
theorem bind_any {r : Reader ε α} {f : α → Reader ε β} (hf : ∀ a, Yields (f a) Q) :
    Yields (r >>= f) Q :=
  (any r).bind fun a _ => hf a

theorem length_repeat (r : Reader ε α) (n : Nat) :
    Yields (Reader.repeat r n) fun as => as.length = n := by
  induction n with
  | zero => exact pure rfl
  | succ n ih =>
    refine bind_any fun a => ih.bind fun as hlen => pure ?_
    simp [hlen]

end Yields

/-- Whenever `r` reads a value with `Q` from bytes that start with `bs`, it consumes `bs`, and
`P` holds. -/
def Exact {ε α : Type} (r : Reader ε α) (bs : Bytes) (Q : α → Prop) (P : Prop) : Prop :=
  ∀ rest a rest', r.run (bs ++ rest) = .ok (a, rest') → Q a → rest' = rest ∧ P

namespace Exact

variable {ε α β : Type} {r : Reader ε α} {bs : Bytes} {Q : α → Prop} {P : Prop}

theorem of_roundTrip {a : α} (h : RoundTrip r bs a) (hP : Q a → P) : Exact r bs Q P := by
  intro rest b rest' hrun hQ
  rw [h rest] at hrun
  cases hrun
  exact ⟨rfl, hP hQ⟩

theorem of_refused (h : Refused r bs) : Exact r bs Q P := by
  intro rest b rest' hrun _
  obtain ⟨e, he⟩ := h rest
  rw [he] at hrun
  cases hrun

/-- The fields before are read back. -/
theorem roundTrip_bind {f : α → Reader ε β} {cs : Bytes} {a : α} {Q : β → Prop}
    (hr : RoundTrip r bs a) (hf : Exact (f a) cs Q P) : Exact (r >>= f) (bs ++ cs) Q P := by
  intro rest b rest' hrun hQ
  rw [List.append_assoc] at hrun
  obtain ⟨a', bs', hfirst, hsecond⟩ := Reader.bind_eq_ok_iff.mp hrun
  rw [hr (cs ++ rest)] at hfirst
  cases hfirst
  exact hf rest b rest' hsecond hQ

theorem bind_pure {g : α → β} {Q : β → Prop} (hr : Exact r bs (fun a => Q (g a)) P) :
    Exact (r >>= fun a => Pure.pure (g a)) bs Q P := by
  intro rest b rest' hrun hQ
  obtain ⟨a, bs', hfirst, hsecond⟩ := Reader.bind_eq_ok_iff.mp hrun
  cases hsecond
  exact hr rest a rest' hfirst hQ

/-- A list of values, each of which is related to what was written. -/
theorem «repeat» {enc : α → Bytes} {R : α → α → Prop} {P : α → Prop} (as : List α)
    (h : ∀ a ∈ as, Exact r (enc a) (R a) (P a)) :
    Exact (Reader.repeat r as.length) (as.flatMap enc) (List.Forall₂ R as) (∀ a ∈ as, P a) := by
  induction as with
  | nil =>
    intro rest b rest' hrun _
    cases hrun
    exact ⟨rfl, by simp⟩
  | cons a as ih =>
    intro rest b rest' hrun hR
    rw [List.flatMap_cons, List.append_assoc] at hrun
    obtain ⟨a', bs', hfirst, hrun⟩ := Reader.bind_eq_ok_iff.mp hrun
    obtain ⟨as', bs'', hsecond, hlast⟩ := Reader.bind_eq_ok_iff.mp hrun
    cases hlast
    obtain ⟨hhead, htail⟩ := List.forall₂_cons.mp hR
    obtain ⟨rfl, hP⟩ := h a (by simp) _ a' bs' hfirst hhead
    obtain ⟨rfl, hPs⟩ := ih (fun b hb => h b (List.mem_cons_of_mem a hb)) _ as' _ hsecond htail
    exact ⟨rfl, List.forall_mem_cons.mpr ⟨hP, hPs⟩⟩

end Exact

/-! ## Fixed-width integers -/

/-- The `k` low bytes of `n`, least significant first. -/
def toLE : Nat → Nat → Bytes
  | 0, _ => []
  | k + 1, n => UInt8.ofNat n :: toLE k (n / 256)

/-- The number whose bytes are given, least significant first. -/
def ofLE : Bytes → Nat
  | [] => 0
  | b :: bs => b.toNat + 256 * ofLE bs

@[simp] theorem length_toLE (k n : Nat) : (toLE k n).length = k := by
  induction k generalizing n with
  | zero => rfl
  | succ k ih => simp [toLE, ih]

theorem ofLE_toLE (k n : Nat) : ofLE (toLE k n) = n % 256 ^ k := by
  induction k generalizing n with
  | zero => simp [toLE, ofLE, Nat.mod_one]
  | succ k ih =>
    have hbyte : (UInt8.ofNat n).toNat = n % 256 := UInt8.toNat_ofNat'
    rw [toLE, ofLE, ih, hbyte, pow_succ', Nat.mod_mul]

theorem ofLE_toLE_of_lt {k n : Nat} (h : n < 256 ^ k) : ofLE (toLE k n) = n := by
  rw [ofLE_toLE, Nat.mod_eq_of_lt h]

/-- The `k` low bytes of `n`, most significant first. -/
def toBE (k n : Nat) : Bytes := (toLE k n).reverse

/-- The number whose bytes are given, most significant first. -/
def ofBE (bs : Bytes) : Nat := ofLE bs.reverse

@[simp] theorem length_toBE (k n : Nat) : (toBE k n).length = k := by
  simp [toBE]

theorem ofBE_toBE_of_lt {k n : Nat} (h : n < 256 ^ k) : ofBE (toBE k n) = n := by
  simp [ofBE, toBE, ofLE_toLE_of_lt h]

namespace Reader

variable {ε : Type}

/-- Read a little-endian integer of `k` bytes. -/
def le (e : ε) (k : Nat) : Reader ε Nat := ofLE <$> take e k

end Reader

theorem RoundTrip.le {ε : Type} (e : ε) (k n : Nat) :
    RoundTrip (Reader.le e k) (toLE k n) (n % 256 ^ k) := by
  have htake : RoundTrip (Reader.take e k) (toLE k n) (toLE k n) := by
    simpa using RoundTrip.take e (toLE k n)
  have hmap := htake.map ofLE
  rwa [ofLE_toLE] at hmap
