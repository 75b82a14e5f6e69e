import Mathlib.Data.UInt
import Navcoin.Cache.Objects

/-!
# `CStateViewCache`: the bulk queries

`GetAllProposals` and its siblings merge what a cache holds with what the view below returns, and
the database goes through its rows.  The one for name records reads a row as a height alone, and
erases the records that are zero instead of those that are null.

* `ObjectStack.getAllProposals`, …: what a query returns under a key;
* `bulkQuery_cons`: what a stack of caches returns;
* `nameQuery_iff`: when the query for name records returns what a lookup finds;
* `bulkQueries_agree_iff`: when all of them do.
-/

namespace Navcoin

open ObjectCache

variable {G : Type}

/-! ## The queries -/

section Query

variable {α : Type}

/-- A cache inserts its own object, then the one from below unless that is null, and erases. -/
def mergeQuery (isNull erased : α → Bool) (own below : Option α) : Option α :=
  (own.or (below.filter fun v => !isNull v)).filter fun v => !erased v

/-- What the caches return under one key, the first of them on top. -/
def bulkQuery (isNull erased : α → Bool) (row : Option α) : List (Option α) → Option α
  | [] => row
  | own :: rest => mergeQuery isNull erased own (bulkQuery isNull erased row rest)

/-- What the first of the caches to hold something has, else the row. -/
def firstHeld (row : Option α) (held : List (Option α)) : Option α := (held.findSome? id).or row

/-- **A stack of caches.**  The object of the cache on top is not tested for being null. -/
theorem bulkQuery_cons (isNull erased : α → Bool) (row own : Option α) (rest : List (Option α)) :
    bulkQuery isNull erased row (own :: rest) =
      (firstHeld row (own :: rest)).filter fun v =>
        (own.isSome || !isNull v) && !erased v := by
  induction rest generalizing own with
  | nil =>
    cases own with
    | some v => rfl
    | none => exact Option.filter_filter
  | cons below rest ih =>
    cases own with
    | some v => rfl
    | none =>
      rw [bulkQuery, ih, mergeQuery, Option.none_or, Option.filter_filter,
        Option.filter_filter]
      congr 1
      funext v
      cases below.isSome <;> cases isNull v <;> cases erased v <;> rfl

/-- A query that erases the null objects. -/
theorem bulkQuery_isNull (isNull : α → Bool) (row own : Option α) (rest : List (Option α)) :
    bulkQuery isNull isNull row (own :: rest) =
      (firstHeld row (own :: rest)).filter fun v => !isNull v := by
  rw [bulkQuery_cons]
  congr 1
  funext v
  cases own.isSome <;> cases isNull v <;> rfl

end Query

/-- A row of the database, version first, of which eight bytes are read. -/
def NameRecordValue.scanned (r : NameRecordValue) : NameRecordValue :=
  { height := UInt64.ofNat (r.nVersion.toNat + 2 ^ 32 * r.height.toNat), nVersion := 0 }

/-- `it->second == 0` -/
def NameRecordValue.isZero (r : NameRecordValue) : Bool := r == { height := 0, nVersion := 0 }

namespace ObjectStack

/-- What the caches hold under a key, that on top first. -/
def heldUnder (s : ObjectStack G) (key : ObjectKey) : List (Option (key.Value G)) :=
  s.layers.map fun l => l key

def getAllProposals (s : ObjectStack G) (pid : Uint256) : Option CProposal :=
  bulkQuery CProposal.isNull CProposal.isNull (s.base (.proposal pid)) (s.heldUnder (.proposal pid))

def getAllPaymentRequests (s : ObjectStack G) (prid : Uint256) : Option CPaymentRequest :=
  bulkQuery CPaymentRequest.isNull CPaymentRequest.isNull (s.base (.paymentRequest prid))
    (s.heldUnder (.paymentRequest prid))

def getAllConsultations (s : ObjectStack G) (cid : Uint256) : Option CConsultation :=
  bulkQuery CConsultation.isNull CConsultation.isNull (s.base (.consultation cid))
    (s.heldUnder (.consultation cid))

def getAllConsultationAnswers (s : ObjectStack G) (cid : Uint256) : Option CConsultationAnswer :=
  bulkQuery CConsultationAnswer.isNull CConsultationAnswer.isNull (s.base (.answer cid))
    (s.heldUnder (.answer cid))

def getAllTokens [Zero G] [DecidableEq G] (s : ObjectStack G) (id : Uint256) :
    Option (TokenInfo G) :=
  bulkQuery TokenInfo.isNull TokenInfo.isNull (s.base (.token id)) (s.heldUnder (.token id))

def getAllNameRecords (s : ObjectStack G) (id : Uint256) : Option NameRecordValue :=
  bulkQuery NameRecordValue.isNull NameRecordValue.isZero
    ((s.base (.nameRecord id)).map NameRecordValue.scanned) (s.heldUnder (.nameRecord id))

variable [Zero G] [DecidableEq G] (c : Crypto G)

/-- What `GetProposal` and its siblings return. -/
def lookup (s : ObjectStack G) (key : ObjectKey) : Option (key.Value G) :=
  load (rules c) s.base s.layers key

/-- Every query returns what the single lookups find. -/
structure BulkQueriesAgree (s : ObjectStack G) : Prop where
  proposals : ∀ pid, s.getAllProposals pid = lookup c s (.proposal pid)
  paymentRequests : ∀ prid, s.getAllPaymentRequests prid = lookup c s (.paymentRequest prid)
  consultations : ∀ cid, s.getAllConsultations cid = lookup c s (.consultation cid)
  answers : ∀ cid, s.getAllConsultationAnswers cid = lookup c s (.answer cid)
  tokens : ∀ id, s.getAllTokens id = lookup c s (.token id)
  nameRecords : ∀ id, s.getAllNameRecords id = lookup c s (.nameRecord id)

/-- A record that the query for name records gets right: the cache on top has not removed it, it is
not zero, and a cache holds it if the database does. -/
structure PlainName (own : Option NameRecordValue) (rest : List (Option NameRecordValue))
    (row : Option NameRecordValue) : Prop where
  kept : ∀ r, own = some r → r.isNull = false
  nonzero : (own :: rest).findSome? id ≠ some { height := 0, nVersion := 0 }
  cached : (own :: rest).findSome? id = none → row = none

end ObjectStack

/-! ## The lookups -/

section Lookups

variable {κ : Type} {V D : κ → Type} (r : (k : κ) → Rules (V k) (D k)) (base : (k : κ) → D k)

theorem look_eq_firstHeld (ls : List (Layer V)) (k : κ) :
    look r base ls k = firstHeld ((r k).get (base k)) (ls.map fun l => l k) := by
  induction ls with
  | nil => rfl
  | cons l ls ih =>
    cases hl : l k with
    | some v => simp [look, hl, firstHeld]
    | none =>
      rw [show look r base (l :: ls) k = look r base ls k by simp only [look, hl], ih,
        List.map_cons, hl]
      rfl

/-- A query that erases the null objects finds what the lookups find. -/
theorem bulkQuery_eq_load (k : κ) (isNull : V k → Bool) {row : Option (V k)}
    (hheld : (r k).held = fun v => !isNull v) (hrow : row = (r k).get (base k)) (l : Layer V)
    (ls : List (Layer V)) :
    bulkQuery isNull isNull row ((l :: ls).map fun l => l k) = load r base (l :: ls) k := by
  rw [List.map_cons, bulkQuery_isNull, load, look_eq_firstHeld, hheld, hrow, List.map_cons]

end Lookups

/-! ## Name records -/

variable {r : NameRecordValue}

/-- A record is never read from its row as it is. -/
theorem NameRecordValue.scanned_ne (hzero : r.scanned.isZero = false) :
    r.scanned ≠ r := by
  intro heq
  have hversion : r.nVersion = 0 := (congrArg NameRecordValue.nVersion heq).symm
  have hheight : r.scanned.height.toNat = r.height.toNat :=
    congrArg (fun r => r.height.toNat) heq
  simp only [scanned, hversion, UInt32.toNat_zero, Nat.zero_add, UInt64.toNat_ofNat'] at hheight
  have hnat : r.height.toNat = 0 := by omega
  have h0 : r.height = 0 := UInt64.toNat_inj.mp hnat
  have hr : r = { height := 0, nVersion := 0 } := by
    cases r
    cases h0
    cases hversion
    rfl
  rw [heq, hr] at hzero
  cases hzero

theorem NameRecordValue.isNull_scanned (r : NameRecordValue) : r.scanned.isNull = false := by
  simp [isNull, scanned]

theorem NameRecordValue.isZero_iff (r : NameRecordValue) :
    r.isZero = true ↔ r = { height := 0, nVersion := 0 } := beq_iff_eq

theorem NameRecordValue.isZero_of_isNull (h : r.isNull = true) :
    r.isZero = false := by
  simp only [isNull, Bool.and_eq_true, beq_iff_eq] at h
  cases r
  obtain ⟨rfl, rfl⟩ := h
  rfl

theorem NameRecordValue.scanned_of_isNull (h : r.isNull = true) :
    r.scanned.isZero = false := by
  simp only [isNull, Bool.and_eq_true, beq_iff_eq] at h
  cases r
  obtain ⟨rfl, rfl⟩ := h
  rfl

/-- A row that no cache holds is not returned as it is. -/
theorem scannedRow_ne (r : NameRecordValue) :
    ((some r.scanned).filter fun v => !v.isNull && !v.isZero) ≠
      (some r).filter fun v => !v.isNull := by
  intro h
  rw [Option.filter_some, Option.filter_some, r.isNull_scanned] at h
  cases hnull : r.isNull with
  | true =>
    rw [hnull, NameRecordValue.scanned_of_isNull hnull] at h
    cases h
  | false =>
    cases hzero : r.scanned.isZero with
    | true =>
      rw [hnull, hzero] at h
      cases h
    | false =>
      rw [hnull, hzero] at h
      exact NameRecordValue.scanned_ne hzero (Option.some.inj h)

/-- A record of the cache on top is returned even if it was removed, but not if it is zero. -/
theorem ownRecord_iff (r : NameRecordValue) :
    ((some r).filter fun v => !v.isZero) = ((some r).filter fun v => !v.isNull) ↔
      r.isNull = false ∧ r.isZero = false := by
  rw [Option.filter_some, Option.filter_some]
  cases hnull : r.isNull with
  | true => simp [NameRecordValue.isZero_of_isNull hnull]
  | false => cases hzero : r.isZero <;> simp

/-- One of a cache below is returned unless it was removed or is zero. -/
theorem belowRecord_iff (r : NameRecordValue) :
    ((some r).filter fun v => !v.isNull && !v.isZero) = ((some r).filter fun v => !v.isNull) ↔
      r.isZero = false := by
  rw [Option.filter_some, Option.filter_some]
  cases hnull : r.isNull with
  | true => simp [NameRecordValue.isZero_of_isNull hnull]
  | false => cases hzero : r.isZero <;> simp

/-- **The query for name records** returns what a lookup finds exactly when the record is plain. -/
theorem nameQuery_iff (own row : Option NameRecordValue) (rest : List (Option NameRecordValue)) :
    bulkQuery NameRecordValue.isNull NameRecordValue.isZero (row.map NameRecordValue.scanned)
        (own :: rest) = ((firstHeld row (own :: rest)).filter fun v => !v.isNull) ↔
      ObjectStack.PlainName own rest row := by
  rw [bulkQuery_cons]
  cases own with
  | some r =>
    refine (ownRecord_iff r).trans ⟨fun ⟨hnull, hzero⟩ => ⟨?_, ?_, fun h => (by cases h)⟩, ?_⟩
    · rintro _ ⟨⟩
      exact hnull
    · intro h
      rw [(r.isZero_iff).mpr (Option.some.inj h)] at hzero
      cases hzero
    · rintro ⟨hkept, hnonzero, -⟩
      refine ⟨hkept r rfl, Bool.eq_false_iff.mpr fun hzero => hnonzero ?_⟩
      rw [(r.isZero_iff).mp hzero]
      rfl
  | none =>
    have hfirst : (none :: rest).findSome? id = rest.findSome? id := rfl
    unfold firstHeld
    rw [hfirst]
    cases hheld : rest.findSome? id with
    | some r =>
      refine (belowRecord_iff r).trans ⟨fun hzero => ⟨fun _ h => (by cases h), ?_, ?_⟩, ?_⟩
      · rw [hfirst, hheld]
        intro h
        rw [(r.isZero_iff).mpr (Option.some.inj h)] at hzero
        cases hzero
      · rw [hfirst, hheld]
        intro h
        cases h
      · rintro ⟨-, hnonzero, -⟩
        refine Bool.eq_false_iff.mpr fun hzero => hnonzero ?_
        rw [hfirst, hheld, (r.isZero_iff).mp hzero]
    | none =>
      cases row with
      | none =>
        refine ⟨fun _ => ⟨fun _ h => (by cases h), ?_, fun _ => rfl⟩, fun _ => rfl⟩
        rw [hfirst, hheld]
        intro h
        cases h
      | some r =>
        refine ⟨fun h => absurd h (scannedRow_ne r), fun h => ?_⟩
        have hrow := h.cached (hfirst.trans hheld)
        cases hrow

/-! ## All of them -/

/-- **When the bulk queries return what the single lookups find.**  For proposals, payment requests,
consultations, answers and tokens they always do; whatever calls led to the caches, all of them do
exactly when every name record is plain. -/
theorem bulkQueries_agree_iff [Zero G] [DecidableEq G] (c : Crypto G)
    (l : Layer (ObjectKey.Value G)) (ls : List (Layer (ObjectKey.Value G)))
    (base : (key : ObjectKey) → key.Row G) :
    ObjectStack.BulkQueriesAgree c ⟨l :: ls, base⟩ ↔
      ∀ id, ObjectStack.PlainName (l (.nameRecord id)) (ls.map fun l => l (.nameRecord id))
        (base (.nameRecord id)) := by
  have hname : ∀ id, ObjectStack.getAllNameRecords ⟨l :: ls, base⟩ id =
      ObjectStack.lookup c ⟨l :: ls, base⟩ (.nameRecord id) ↔
        ObjectStack.PlainName (l (.nameRecord id)) (ls.map fun l => l (.nameRecord id))
          (base (.nameRecord id)) := by
    intro id
    rw [← nameQuery_iff, ObjectStack.lookup, load, look_eq_firstHeld]
    rfl
  constructor
  · intro h id
    exact (hname id).mp (h.nameRecords id)
  · intro h
    refine ⟨?_, ?_, ?_, ?_, ?_, fun id => (hname id).mpr (h id)⟩
    · exact fun pid => bulkQuery_eq_load (rules c) base (.proposal pid)
        CProposal.isNull rfl rfl l ls
    · exact fun prid => bulkQuery_eq_load (rules c) base (.paymentRequest prid)
        CPaymentRequest.isNull rfl rfl l ls
    · exact fun cid => bulkQuery_eq_load (rules c) base (.consultation cid)
        CConsultation.isNull rfl rfl l ls
    · exact fun cid => bulkQuery_eq_load (rules c) base (.answer cid)
        CConsultationAnswer.isNull rfl rfl l ls
    · exact fun id => bulkQuery_eq_load (rules c) base (.token id) TokenInfo.isNull rfl rfl l ls

namespace FlushedName

abbrev crypto : Crypto (ZMod groupOrder) := (fixedBls true).toCrypto

abbrev stackAfter (calls : List (ObjectCall (ZMod groupOrder))) : ObjectStack (ZMod groupOrder) :=
  ObjectStack.run crypto (Stack.onBase noRows 1) calls

/-- A name that was registered and not flushed to the database. -/
theorem bulkQueries_agree_cached :
    ObjectStack.BulkQueriesAgree crypto (stackAfter [.addNameRecord 6 ⟨100, 0⟩, .flush 0]) := by
  let below : Layer (ObjectKey.Value (ZMod groupOrder)) :=
    merge (fun _ => none) (Function.update (fun _ => none) (.nameRecord 6) (some ⟨100, 0⟩))
  refine (bulkQueries_agree_iff crypto (fun _ => none) [below] noRows).mpr fun id => ?_
  by_cases hid : id = 6
  · subst hid
    exact ⟨fun r hr => (by cases hr), by decide, fun h => absurd h (by decide)⟩
  · have hbelow : below (.nameRecord id) = none := by
      simp only [below, merge]
      rw [Function.update_of_ne (by simpa using hid)]
    rw [List.map_singleton, hbelow]
    exact ⟨fun r hr => (by cases hr), fun h => (by cases h), fun _ => rfl⟩

/-- A name whose record is in the database, and one whose record was removed from the cache. -/
theorem nameRecords_differ :
    (stackAfter [.addNameRecord 6 ⟨100, 0⟩, .flush 0, .flush 1]).getAllNameRecords 6 =
        some ⟨100 * 2 ^ 32, 0⟩ ∧
      ObjectStack.lookup crypto
        (stackAfter [.addNameRecord 6 ⟨100, 0⟩, .flush 0, .flush 1]) (.nameRecord 6) =
          some ⟨100, 0⟩ ∧
      (stackAfter [.addNameRecord 6 ⟨100, 0⟩, .removeNameRecord 6]).getAllNameRecords 6 =
        some .null ∧
      ObjectStack.lookup crypto
        (stackAfter [.addNameRecord 6 ⟨100, 0⟩, .removeNameRecord 6]) (.nameRecord 6) = none := by
  decide +kernel

end FlushedName

end Navcoin
