import Navcoin.Coins

/-!
# Names

`dotnav/names.cpp` and the string helpers it uses.  A name is a list of dated entries; what it
says at a height is obtained by `consolidate`.

* `consolidate_eq_nil_of_expired`: an expired name says nothing.
-/

namespace Navcoin

/-! ## Strings -/

/-- The text of an error message. -/
def text (str : Bytes) : String := String.ofList (str.map fun c => Char.ofNat c.toNat)

def isspace (c : UInt8) : Bool := c == 0x20 || (0x09 ≤ c && c ≤ 0x0d)

def isDigit (c : UInt8) : Bool := 0x30 ≤ c && c ≤ 0x39

/-- `HexDigit` -/
def hexDigit (c : UInt8) : Option UInt8 :=
  if isDigit c then some (c - 0x30)
  else if 0x61 ≤ c && c ≤ 0x66 then some (c - 0x61 + 10)
  else if 0x41 ≤ c && c ≤ 0x46 then some (c - 0x41 + 10)
  else none

def hexChar (d : UInt8) : UInt8 := if d < 10 then 0x30 + d else 0x61 + (d - 10)

def hexStr (vch : Bytes) : Bytes :=
  vch.flatMap fun c : UInt8 => [hexChar (c >>> 4), hexChar (c &&& 15)]

/-- `ParseHex`: pairs of digits, with spaces before a pair, up to anything else. -/
def parseHex : Bytes → Bytes
  | [] => []
  | [_] => []
  | c :: d :: rest =>
    if isspace c then parseHex (d :: rest)
    else match hexDigit c, hexDigit d with
      | some h, some l => (h <<< 4 ||| l) :: parseHex rest
      | _, _ => []

/-- `std::to_string` of a number that is not negative. -/
def decimal (n : Nat) : Bytes := (Nat.toDigits 10 n).map fun c => UInt8.ofNat c.toNat

def digitsValue (digits : Bytes) : Nat := digits.foldl (fun n c => 10 * n + (c.toNat - 0x30)) 0

/-- The digits at the start as a number in the range of `long long`. -/
def stollDigits (negative : Bool) (str : Bytes) : Option Int :=
  let digits := str.takeWhile isDigit
  let value : Int := if negative then -digitsValue digits else digitsValue digits
  if digits.isEmpty then none
  else if -2 ^ 63 ≤ value && value < 2 ^ 63 then some value else none

/-- `std::stoll`; `none` is an exception. -/
def stoll (str : Bytes) : Option Int :=
  match str.dropWhile isspace with
  | 0x2d :: rest => stollDigits true rest
  | 0x2b :: rest => stollDigits false rest
  | rest => stollDigits false rest

namespace DotNav

/-- `_key` -/
def keyEntry : Bytes := [0x5f, 0x6b, 0x65, 0x79]

/-- `_expiry` -/
def expiryEntry : Bytes := [0x5f, 0x65, 0x78, 0x70, 0x69, 0x72, 0x79]

/-- `.nav` -/
def suffix : Bytes := [0x2e, 0x6e, 0x61, 0x76]

def toLowerChar (c : UInt8) : UInt8 := if 0x41 ≤ c && c ≤ 0x5a then c + 0x20 else c

def toLower (str : Bytes) : Bytes := str.map toLowerChar

/-- `abcdefghijklmnopqrstuvwxyz01234566789` -/
def isAlnum (c : UInt8) : Bool := (0x61 ≤ c && c ≤ 0x7a) || isDigit c

def isAlnumOrDash (c : UInt8) : Bool := isAlnum c || c == 0x2d

def isValid (name : Bytes) : Bool :=
  let name := toLower name
  ((name.drop 1).take (name.length - 5)).all isAlnumOrDash && (name.take 1).all isAlnum &&
    name.length < 64 && 5 ≤ name.length && name.drop (name.length - 4) == suffix

def isValidKey (name : Bytes) : Bool :=
  let name := toLower name
  name.all isAlnumOrDash && (name.take 1).all isAlnum && name.length < 64 && 1 ≤ name.length

variable {G : Type}

def getHashIdName (c : Crypto G) (name : Bytes) (key : G) : Uint256 :=
  c.hash (writeVector (toLower name ++ hexStr (c.serialize key)))

def getHashName (c : Crypto G) (name : Bytes) : Uint256 := c.hash (writeVector (toLower name))

/-! ## The entries of a name -/

/-- `nExpiry`: the last entry counts, whatever its height. -/
def expiry (data : NameDataValues) : Option Nat :=
  data.foldlM (fun nExpiry it =>
    if it.2.key = expiryEntry then (stoll it.2.value).map toUint64 else some nExpiry) (2 ^ 64 - 1)

/-- The entries of the domain itself and those whose key starts with an underscore. -/
def concerns (subdomain : Bytes) (d : NameDataValue) : Bool :=
  d.subdomain == subdomain || d.key.take 1 == [0x5f]

/-- One entry; an empty value removes the key. -/
def applyEntry (ret : List (Bytes × Bytes)) (d : NameDataValue) : List (Bytes × Bytes) :=
  if d.value ≠ [] then AssocMap.assign d.key d.value ret else AssocMap.erase d.key ret

/-- `Consolidate`; `none` is an exception. -/
def consolidate (data : NameDataValues) (height : Int) (subdomain : Bytes) :
    Option (List (Bytes × Bytes)) :=
  (expiry data).map fun nExpiry => data.foldl (fun ret it =>
    if nExpiry > toUint64 height && it.1.toNat ≤ toUint64 height && concerns subdomain it.2 then
      applyEntry ret it.2 else ret) []

def calculateSize (map : List (Bytes × Bytes)) : Nat :=
  (map.map fun it => it.1.length + it.2.length).sum

/-! ## Expiry -/

theorem consolidate_eq_nil_of_expired {data : NameDataValues} {height : Int} {subdomain : Bytes}
    {nExpiry : Nat} (h : expiry data = some nExpiry) (hle : nExpiry ≤ toUint64 height) :
    consolidate data height subdomain = some [] := by
  have hnot : ¬ nExpiry > toUint64 height := by omega
  have hloop : ∀ l : NameDataValues, l.foldl (fun ret it =>
      if nExpiry > toUint64 height && it.1.toNat ≤ toUint64 height && concerns subdomain it.2 then
        applyEntry ret it.2 else ret) [] = [] := by
    intro l
    induction l with
    | nil => rfl
    | cons it l ih => simp [hnot]
  rw [consolidate, h, Option.map_some, hloop]

end DotNav

end Navcoin
