import Mathlib.Data.Nat.Bitwise
import Navcoin.Primitives.Basic

/-!
# The stream formats of `serialize.h`

`CDataStream` reads fail with an exception text when the data ends; the formats
below are the compact size, the variable-length integer and the byte vector, with
the round trip of each.

* `readCompactSize_writeCompactSize`: sizes up to `MAX_SIZE` come back;
* `readCompactSize_refused`: larger ones are written but never read back;
* `readVarInt_writeVarInt`: every unsigned integer of the type's width comes back.
-/

namespace Navcoin

variable {n : Nat}

abbrev StreamReader := Reader String

def endOfData : String := "CDataStream::read(): end of data"

def maxSize : Nat := 0x02000000

def serReadData (bytes : Nat) : StreamReader Nat := Reader.le endOfData bytes

theorem serReadData_toLE {k : Nat} (h : n < 256 ^ k) : RoundTrip (serReadData k) (toLE k n) n := by
  have hread := RoundTrip.le endOfData k n
  rwa [Nat.mod_eq_of_lt h] at hread

/-! ## Compact size -/

def writeCompactSize (nSize : Nat) : Bytes :=
  if nSize < 253 then toLE 1 nSize
  else if nSize ≤ 0xffff then toLE 1 253 ++ toLE 2 nSize
  else if nSize ≤ 0xffffffff then toLE 1 254 ++ toLE 4 nSize
  else toLE 1 255 ++ toLE 8 nSize

/-- The wide forms of a compact size: the value must not fit a shorter form. -/
def readWideSize (bytes least : Nat) : StreamReader Nat := do
  let nSizeRet ← serReadData bytes
  if nSizeRet < least then throw "non-canonical ReadCompactSize()"
  else if nSizeRet > maxSize then throw "ReadCompactSize(): size too large"
  else pure nSizeRet

def readCompactSize : StreamReader Nat := do
  let chSize ← serReadData 1
  if chSize < 253 then pure chSize
  else if chSize = 253 then readWideSize 2 253
  else if chSize = 254 then readWideSize 4 0x10000
  else readWideSize 8 0x100000000

private theorem readWideSize_toLE {k least : Nat} (hfit : n < 256 ^ k) (hleast : least ≤ n)
    (hmax : n ≤ maxSize) : RoundTrip (readWideSize k least) (toLE k n) n := by
  refine (serReadData_toLE hfit).bind_nil ?_
  rw [if_neg (by omega), if_neg (by omega)]
  exact RoundTrip.pure n

theorem readCompactSize_writeCompactSize (hmax : n ≤ maxSize) :
    RoundTrip readCompactSize (writeCompactSize n) n := by
  have hbound : n ≤ 0x02000000 := hmax
  unfold writeCompactSize
  split
  · next hsmall =>
    refine (serReadData_toLE (n := n) (by omega)).bind_nil ?_
    rw [if_pos hsmall]
    exact RoundTrip.pure n
  · split
    · exact (serReadData_toLE (k := 1) (by decide)).bind
        (readWideSize_toLE (by omega) (by omega) hmax)
    · rw [if_pos (by omega)]
      exact (serReadData_toLE (k := 1) (by decide)).bind
        (readWideSize_toLE (by omega) (by omega) hmax)

private theorem readWideSize_refused {k least : Nat}
    (h : n % 256 ^ k < least ∨ maxSize < n % 256 ^ k) :
    Refused (readWideSize k least) (toLE k n) := by
  have hread : RoundTrip (serReadData k) (toLE k n) (n % 256 ^ k) := RoundTrip.le endOfData k n
  have hrest : Refused (if n % 256 ^ k < least then throw "non-canonical ReadCompactSize()"
      else if n % 256 ^ k > maxSize then throw "ReadCompactSize(): size too large"
      else pure (n % 256 ^ k) : StreamReader Nat) [] := by
    split
    · exact Refused.throw _ _
    · rw [if_pos (by omega)]
      exact Refused.throw _ _
  have h := hread.bind_refused (f := fun m => if m < least then
    throw "non-canonical ReadCompactSize()" else if m > maxSize then
    throw "ReadCompactSize(): size too large" else pure m) hrest
  rwa [List.append_nil] at h

/-- A size above `MAX_SIZE` is written without complaint and refused on reading. -/
theorem readCompactSize_refused (hbig : maxSize < n) :
    Refused readCompactSize (writeCompactSize n) := by
  have hmax : maxSize = 0x02000000 := rfl
  unfold writeCompactSize
  rw [if_neg (by omega), if_neg (by omega)]
  split
  · exact (serReadData_toLE (k := 1) (by decide)).bind_refused
      (readWideSize_refused (by omega))
  · exact (serReadData_toLE (k := 1) (by decide)).bind_refused
      (readWideSize_refused (by omega))

/-- A size that is read is never above the limit. -/
theorem readCompactSize_yields : Yields readCompactSize (· ≤ maxSize) := by
  have hwide : ∀ bytes least, Yields (readWideSize bytes least) (· ≤ maxSize) := by
    intro bytes least
    refine Yields.bind_any fun n => ?_
    split
    · exact Yields.throw _
    · split
      · exact Yields.throw _
      · exact Yields.pure (by omega)
  have hshort : 253 ≤ maxSize := by decide
  refine Yields.bind_any fun n => ?_
  split
  · exact Yields.pure (by omega)
  · split
    · exact hwide _ _
    · split <;> exact hwide _ _

/-! ## Variable-length integers -/

/-- The bytes left in `tmp` from position `len` on, written last to first.  The
first argument is the room left in `tmp`; `more` says that `len` is not zero. -/
def varIntDigits : Nat → Nat → Bool → Bytes
  | 0, _, _ => []
  | room + 1, n, more =>
    let digit := UInt8.ofNat ((n &&& 0x7F) ||| (if more then 0x80 else 0x00))
    if n ≤ 0x7F then [digit] else varIntDigits room ((n >>> 7) - 1) true ++ [digit]

/-- `WriteVarInt` for an integer type of `sizeof` bytes. -/
def writeVarInt (sizeof : Nat) (n : Nat) : Bytes := varIntDigits ((sizeof * 8 + 6) / 7) n false

/-- The loop of `ReadVarInt` for an integer type of `sizeof` bytes. -/
def readVarIntLoop (sizeof : Nat) : Nat → Bytes → Except String (Nat × Bytes)
  | _, [] => .error endOfData
  | n, chData :: rest =>
    let n' := ((n <<< 7) ||| (chData.toNat &&& 0x7F)) % 2 ^ (8 * sizeof)
    if chData.toNat &&& 0x80 ≠ 0 then readVarIntLoop sizeof ((n' + 1) % 2 ^ (8 * sizeof)) rest
    else .ok (n', rest)

def readVarInt (sizeof : Nat) : StreamReader Nat := readVarIntLoop sizeof 0

private theorem and_0x7F (n : Nat) : n &&& 0x7F = n % 128 :=
  Nat.and_two_pow_sub_one_eq_mod n 7

private theorem toNat_digit_more {d : Nat} (hd : d < 128) :
    (UInt8.ofNat (d ||| 0x80)).toNat = 128 + d := by
  have hor : d ||| 0x80 = 128 + d := by
    rw [Nat.or_comm]
    exact (Nat.two_pow_add_eq_or_of_lt (i := 7) hd 1).symm
  rw [hor]
  exact UInt8.toNat_ofNat_of_lt' (by show 128 + d < 256; omega)

private theorem toNat_digit_last {d : Nat} (hd : d < 128) :
    (UInt8.ofNat (d ||| 0x00)).toNat = d := by
  rw [Nat.or_zero]
  exact UInt8.toNat_ofNat_of_lt' (by show d < 256; omega)

private theorem and_0x80 : ∀ d < 128, d &&& 0x80 = 0 ∧ (128 + d) &&& 0x80 ≠ 0 := by
  decide

/-- The value of the digits read so far, shifted, with the next digit in place. -/
private theorem shift_or_digit (n d : Nat) (hd : d < 128) : (n <<< 7) ||| d = n * 128 + d := by
  rw [← Nat.shiftLeft_add_eq_or_of_lt (i := 7) hd, Nat.shiftLeft_eq]

private theorem readVarIntLoop_more (sizeof n d : Nat) (hd : d < 128) (rest : Bytes) :
    readVarIntLoop sizeof n (UInt8.ofNat (d ||| 0x80) :: rest) =
      readVarIntLoop sizeof (((n * 128 + d) % 2 ^ (8 * sizeof) + 1) % 2 ^ (8 * sizeof)) rest := by
  have hlow : (128 + d) &&& 0x7F = d := by rw [and_0x7F]; omega
  rw [readVarIntLoop, toNat_digit_more hd, if_pos (and_0x80 d hd).2, hlow, shift_or_digit n d hd]

private theorem readVarIntLoop_last (sizeof n d : Nat) (hd : d < 128) (rest : Bytes) :
    readVarIntLoop sizeof n (UInt8.ofNat (d ||| 0x00) :: rest) =
      .ok ((n * 128 + d) % 2 ^ (8 * sizeof), rest) := by
  have hlow : d &&& 0x7F = d := by rw [and_0x7F]; omega
  rw [readVarIntLoop, toNat_digit_last hd, if_neg (by simp [(and_0x80 d hd).1]), hlow,
    shift_or_digit n d hd]

private theorem varIntDigits_small {room : Nat} (h : n ≤ 0x7F) (more : Bool) :
    varIntDigits (room + 1) n more =
      [UInt8.ofNat (n % 128 ||| (if more then 0x80 else 0x00))] := by
  rw [varIntDigits, if_pos h, and_0x7F]

private theorem varIntDigits_large {room : Nat} (h : ¬ n ≤ 0x7F) (more : Bool) :
    varIntDigits (room + 1) n more = varIntDigits room (n / 128 - 1) true ++
      [UInt8.ofNat (n % 128 ||| (if more then 0x80 else 0x00))] := by
  rw [varIntDigits, if_neg h, and_0x7F, Nat.shiftRight_eq_div_pow]

private theorem prefix_lt {k : Nat} (h : n < 128 ^ (k + 1)) : n / 128 - 1 < 128 ^ k := by
  have hdiv : n / 128 < 128 ^ k := Nat.div_lt_of_lt_mul (by rwa [← pow_succ'])
  omega

private theorem prefix_succ {m : Nat} (hlarge : ¬ n ≤ 0x7F) (hlt : n < m) :
    (n / 128 - 1 + 1) % m = n / 128 := by
  rw [Nat.sub_add_cancel (by omega)]
  exact Nat.mod_eq_of_lt (by omega)

/-- Reading digits that all announce another one leaves the loop at the successor
of their value: the one that `WriteVarInt` subtracts at each digit is added back. -/
private theorem readVarIntLoop_digits (sizeof : Nat) (room : Nat) :
    ∀ (n : Nat) (rest : Bytes), n < 128 ^ (room + 1) → n < 2 ^ (8 * sizeof) →
      readVarIntLoop sizeof 0 (varIntDigits (room + 1) n true ++ rest) =
        readVarIntLoop sizeof ((n + 1) % 2 ^ (8 * sizeof)) rest := by
  induction room with
  | zero =>
    intro n rest hroom hwidth
    rw [varIntDigits_small (by omega), if_pos rfl, List.singleton_append,
      readVarIntLoop_more sizeof 0 (n % 128) (by omega), Nat.zero_mul, Nat.zero_add,
      Nat.mod_eq_of_lt (by omega : n < 128), Nat.mod_eq_of_lt hwidth]
  | succ room ih =>
    intro n rest hroom hwidth
    by_cases hsmall : n ≤ 0x7F
    · rw [varIntDigits_small hsmall, if_pos rfl, List.singleton_append,
        readVarIntLoop_more sizeof 0 (n % 128) (by omega), Nat.zero_mul, Nat.zero_add,
        Nat.mod_eq_of_lt (by omega : n < 128), Nat.mod_eq_of_lt hwidth]
    · have hprefix : n / 128 - 1 < 128 ^ (room + 1) := prefix_lt hroom
      have hsucc : (n / 128 - 1 + 1) % 2 ^ (8 * sizeof) = n / 128 := prefix_succ hsmall hwidth
      have hvalue : n / 128 * 128 + n % 128 = n := by omega
      rw [varIntDigits_large hsmall, if_pos rfl, List.append_assoc, ih _ _ hprefix (by omega),
        hsucc, List.singleton_append, readVarIntLoop_more sizeof _ (n % 128) (by omega), hvalue,
        Nat.mod_eq_of_lt hwidth]

/-- The reader may be for a wider type than the writer. -/
theorem readVarInt_writeVarInt_of_le {sizeof wider : Nat} (hpos : 0 < sizeof)
    (hle : sizeof ≤ wider) (hfits : n < 2 ^ (8 * sizeof)) :
    RoundTrip (readVarInt wider) (writeVarInt sizeof n) n := by
  intro rest
  have hwidth : n < 2 ^ (8 * wider) :=
    hfits.trans_le (Nat.pow_le_pow_right (by decide) (by omega))
  -- the buffer `tmp` has room for every digit of an integer of this width
  obtain ⟨room, hroom⟩ : ∃ room, (sizeof * 8 + 6) / 7 = room + 2 :=
    ⟨(sizeof * 8 + 6) / 7 - 2, by omega⟩
  have hdigits : 2 ^ (8 * sizeof) ≤ 128 ^ (room + 2) := by
    rw [show (128 : Nat) = 2 ^ 7 from rfl, ← pow_mul]
    exact Nat.pow_le_pow_right (by decide) (by omega)
  show readVarIntLoop wider 0 (varIntDigits _ n false ++ rest) = .ok (n, rest)
  rw [hroom]
  by_cases hsmall : n ≤ 0x7F
  · rw [varIntDigits_small hsmall, if_neg Bool.false_ne_true, List.singleton_append,
      readVarIntLoop_last wider 0 (n % 128) (by omega), Nat.zero_add,
      Nat.mod_eq_of_lt (by omega : n < 128), Nat.mod_eq_of_lt hwidth]
  · have hprefix : n / 128 - 1 < 128 ^ (room + 1) := prefix_lt (hfits.trans_le hdigits)
    have hsucc : (n / 128 - 1 + 1) % 2 ^ (8 * wider) = n / 128 := prefix_succ hsmall hwidth
    have hvalue : n / 128 * 128 + n % 128 = n := by omega
    rw [varIntDigits_large hsmall, if_neg Bool.false_ne_true, List.append_assoc,
      readVarIntLoop_digits wider room _ _ hprefix (by omega), hsucc, List.singleton_append,
      readVarIntLoop_last wider _ (n % 128) (by omega), hvalue, Nat.mod_eq_of_lt hwidth]

theorem readVarInt_writeVarInt {sizeof : Nat} (hpos : 0 < sizeof) (hwidth : n < 2 ^ (8 * sizeof)) :
    RoundTrip (readVarInt sizeof) (writeVarInt sizeof n) n :=
  readVarInt_writeVarInt_of_le hpos (le_refl sizeof) hwidth

/-! ## Byte vectors and hashes -/

/-- `std::vector<unsigned char>` and `std::string`: the size, then the bytes. -/
def writeVector (v : Bytes) : Bytes := writeCompactSize v.length ++ v

def readVector : StreamReader Bytes := do
  let nSize ← readCompactSize
  Reader.take endOfData nSize

theorem readVector_writeVector {v : Bytes} (h : v.length ≤ maxSize) :
    RoundTrip readVector (writeVector v) v :=
  (readCompactSize_writeCompactSize h).bind (RoundTrip.take endOfData v)

theorem readVector_refused {v : Bytes} (h : maxSize < v.length) :
    Refused readVector (writeVector v) :=
  ((readCompactSize_refused h).append v).bind _

def writeUint256 (h : Uint256) : Bytes := toLE 32 h.toNat

def readUint256 : StreamReader Uint256 := BitVec.ofNat 256 <$> serReadData 32

theorem readUint256_writeUint256 (h : Uint256) :
    RoundTrip readUint256 (writeUint256 h) h := by
  have hread : RoundTrip (serReadData 32) (toLE 32 h.toNat) h.toNat := serReadData_toLE h.isLt
  have hmap := hread.map (BitVec.ofNat 256)
  rwa [BitVec.ofNat_toNat, BitVec.setWidth_eq] at hmap

def writeUint64 (n : UInt64) : Bytes := toLE 8 n.toNat

def readUint64 : StreamReader UInt64 := UInt64.ofNat <$> serReadData 8

theorem readUint64_writeUint64 (n : UInt64) :
    RoundTrip readUint64 (writeUint64 n) n := by
  have hread : RoundTrip (serReadData 8) (toLE 8 n.toNat) n.toNat := serReadData_toLE n.toNat_lt
  have hmap := hread.map UInt64.ofNat
  rwa [UInt64.ofNat_toNat] at hmap

/-- A `CAmount` in eight bytes, two's complement. -/
def writeAmount (n : Int) : Bytes := toLE 8 (toUint64 n)

namespace TokenId

def serialize (t : TokenId) : Bytes := writeUint256 t.token ++ writeUint64 t.subid

def unserialize : StreamReader TokenId := do
  let token ← readUint256
  let subid ← readUint64
  pure ⟨token, subid⟩

theorem unserialize_serialize (t : TokenId) : RoundTrip unserialize t.serialize t :=
  (readUint256_writeUint256 t.token).bind ((readUint64_writeUint64 t.subid).bind_pure _)

end TokenId

end Navcoin
