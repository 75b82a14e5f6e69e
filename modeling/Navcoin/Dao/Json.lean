import Navcoin.Blsct.Verification
import Navcoin.Dotnav.Names

/-!
# The JSON values of DAO transactions

A DAO transaction carries a JSON object with members of one letter; the coinbase carries an array
of strings.  Reading a value as something it is not is an exception.

* `getInt64_eq_iff`, `getStr_eq_ok_iff`, `getArray_eq_ok_iff`, `getInt_eq_ok_iff`: what can be read.
-/

namespace Navcoin

/-- An element of an array. -/
inductive JsonValue where
  | str (s : Bytes)
  /-- a number; `none` if it does not fit `int64_t` -/
  | num (n : Option Int)
  | other
  deriving DecidableEq, Repr

/-- A member of an object; one that is missing is `value .other`. -/
inductive JsonMember where
  | value (v : JsonValue)
  | arr (l : List JsonValue)
  deriving DecidableEq, Repr

/-- `find_value` of an object. -/
abbrev JsonObject := Char → JsonMember

namespace JsonMember

def isNum : JsonMember → Bool
  | value (.num _) => true
  | _ => false

def isStr : JsonMember → Bool
  | value (.str _) => true
  | _ => false

def isArray : JsonMember → Bool
  | arr _ => true
  | _ => false

def getInt64 : JsonMember → Except Failure Int
  | value (.num (some n)) => .ok n
  | _ => .error .exception

/-- `get_int` -/
def getInt (m : JsonMember) : Except Failure Int := do
  let n ← m.getInt64
  Except.rejectIf (n < -2 ^ 31 ∨ 2 ^ 31 ≤ n) .exception
  pure n

def getStr : JsonMember → Except Failure Bytes
  | value (.str s) => .ok s
  | _ => .error .exception

def getArray : JsonMember → Except Failure (List JsonValue)
  | arr l => .ok l
  | _ => .error .exception

variable {j : JsonMember}

theorem getInt64_eq_iff (n : Int) : j.getInt64 = .ok n ↔ j = .value (.num (some n)) := by
  rcases j with ⟨_ | ⟨_ | k⟩ | _⟩ | l <;> simp [getInt64]

theorem getStr_eq_ok_iff (s : Bytes) : j.getStr = .ok s ↔ j = .value (.str s) := by
  rcases j with ⟨_ | _ | _⟩ | l <;> simp [getStr]

theorem exists_getStr (h : j.isStr = true) : ∃ s, j.getStr = .ok s := by
  rcases j with ⟨s | _ | _⟩ | l
  all_goals simp_all [isStr, getStr]

theorem exists_optional_getStr (j : JsonMember) (default : Bytes) :
    ∃ s, (if j.isStr then j.getStr else .ok default) = .ok s := by
  split
  · next h => exact exists_getStr h
  · exact ⟨default, rfl⟩

theorem getArray_eq_ok_iff (l : List JsonValue) : j.getArray = .ok l ↔ j = .arr l := by
  rcases j with v | k <;> simp [getArray]

/-- `get_int` reads what `get_int64` reads, if it is an `int`. -/
theorem getInt_eq_ok_iff (n : Int) :
    j.getInt = .ok n ↔ j.getInt64 = .ok n ∧ -2 ^ 31 ≤ n ∧ n < 2 ^ 31 := by
  simp only [getInt, Except.bind_eq_ok_iff, Except.rejectIf_eq_ok_iff, exists_and_left,
    exists_const, Except.pure_eq_ok_iff]
  constructor
  · rintro ⟨k, hk, hfits, rfl⟩
    exact ⟨hk, by omega⟩
  · rintro ⟨hn, hfits⟩
    exact ⟨n, hn, by omega, rfl⟩

end JsonMember

namespace JsonValue

def isStr (v : JsonValue) : Bool := (JsonMember.value v).isStr

/-- The strings among the elements. -/
def strings (l : List JsonValue) : List Bytes :=
  l.filterMap fun
    | str s => some s
    | _ => none

/-- The elements, if all are strings. -/
def allStrings (l : List JsonValue) : Option (List Bytes) :=
  if l.all isStr then some (strings l) else none

end JsonValue

/-- `uint256S`: blanks, `0x`, then hexadecimal digits, of which the last sixty-four count. -/
def uint256S (str : Bytes) : Uint256 :=
  let s := str.dropWhile isspace
  let digits := match s with
    | 0x30 :: 0x78 :: rest => rest
    | 0x30 :: 0x58 :: rest => rest
    | _ => s
  BitVec.ofNat 256 ((digits.takeWhile fun c => (hexDigit c).isSome).foldl
    (fun n c => 16 * n + ((hexDigit c).getD 0).toNat) 0)

end Navcoin
