import Navcoin.Primitives.Serialize

/-!
# Compressed scripts

`CScriptCompressor` of `compressor.h`: three kinds of script have a short form, any other is
written with its length.

* `readScript_writeScript`: every script up to the maximal size is read back;
* `writeScript_eq`: what is written starts with a small integer.
-/

namespace Navcoin

variable {script : CScript}

/-- The operations on secp256k1 keys that the compressor uses. -/
structure PubKeys where
  /-- `CPubKey::IsFullyValid` -/
  isFullyValid : Bytes → Bool
  /-- `CPubKey::Decompress` -/
  decompress : Bytes → Option Bytes

variable (k : PubKeys)

/-- Decompression inverts compression on valid keys. -/
def PubKeys.Lawful : Prop :=
  ∀ x y : Bytes, x.length = 32 → y.length = 32 → k.isFullyValid (0x04 :: (x ++ y)) = true →
    k.decompress ((0x02 ||| (y.getLastD 0 &&& 0x01)) :: x) = some (0x04 :: (x ++ y))

def isToKeyID (script : CScript) : Option Bytes :=
  if script.length = 25 ∧ script.take 3 = [opDup, opHash160, 20] ∧
      script.drop 23 = [opEqualVerify, opCheckSig] then some ((script.drop 3).take 20)
  else none

def isToScriptID (script : CScript) : Option Bytes :=
  if script.length = 23 ∧ script.take 2 = [opHash160, 20] ∧ script.drop 22 = [opEqual] then
    some ((script.drop 2).take 20)
  else none

def isToPubKey (script : CScript) : Option Bytes :=
  if script.length = 35 ∧ script.take 1 = [33] ∧ script.drop 34 = [opCheckSig] ∧
      (script[1]? = some 0x02 ∨ script[1]? = some 0x03) then
    some ((script.drop 1).take 33)
  else if script.length = 67 ∧ script.take 1 = [65] ∧ script.drop 66 = [opCheckSig] ∧
      script[1]? = some 0x04 then
    let pubkey := (script.drop 1).take 65
    if k.isFullyValid pubkey then some pubkey else none
  else none

/-- The short form of a key. -/
def compressPubKey (pubkey : Bytes) : Option Bytes :=
  let first := pubkey.headD 0
  if first = 0x02 ∨ first = 0x03 then some (first :: (pubkey.drop 1).take 32)
  else if first = 0x04 then
    some ((0x04 ||| (pubkey.getLastD 0 &&& 0x01)) :: (pubkey.drop 1).take 32)
  else none

def compress (script : CScript) : Option Bytes :=
  match isToKeyID script with
  | some keyID => some (0x00 :: keyID)
  | none =>
    match isToScriptID script with
    | some scriptID => some (0x01 :: scriptID)
    | none => (isToPubKey k script).bind compressPubKey

def getSpecialSize (nSize : Nat) : Nat :=
  if nSize = 0 ∨ nSize = 1 then 20
  else if nSize = 2 ∨ nSize = 3 ∨ nSize = 4 ∨ nSize = 5 then 32
  else 0

/-- `Decompress`; `none` leaves the script as it is. -/
def decompress (nSize : Nat) (vch : Bytes) : Option CScript :=
  if nSize = 0 then some ([opDup, opHash160, 20] ++ vch.take 20 ++ [opEqualVerify, opCheckSig])
  else if nSize = 1 then some ([opHash160, 20] ++ vch.take 20 ++ [opEqual])
  else if nSize = 2 ∨ nSize = 3 then
    some ([33, UInt8.ofNat nSize] ++ vch.take 32 ++ [opCheckSig])
  else if nSize = 4 ∨ nSize = 5 then
    (k.decompress (UInt8.ofNat (nSize - 2) :: vch.take 32)).map fun pubkey =>
      [65] ++ pubkey ++ [opCheckSig]
  else none

def nSpecialScripts : Nat := 6

def writeScript (script : CScript) : Bytes :=
  match compress k script with
  | some compr => compr
  | none => writeVarInt 4 (script.length + nSpecialScripts) ++ script

/-- `Unserialize` into an empty script. -/
def readScript : StreamReader CScript := do
  let nSize ← readVarInt 4
  if nSize < nSpecialScripts then
    (fun vch => (decompress k nSize vch).getD []) <$>
      Reader.take endOfData (getSpecialSize nSize)
  else if nSize - nSpecialScripts > maxScriptSize then
    (fun _ => [opReturn]) <$> Reader.ignore endOfData (nSize - nSpecialScripts)
  else Reader.take endOfData (nSize - nSpecialScripts)

/-! ## The special scripts -/

private theorem eq_take_append_take_append_drop {α : Type} (l : List α) (a b : Nat) :
    l = l.take a ++ (l.drop a).take b ++ l.drop (a + b) := by
  rw [List.append_assoc, ← List.drop_drop, List.take_append_drop, List.take_append_drop]

theorem isToKeyID_some {keyID : Bytes} (h : isToKeyID script = some keyID) :
    keyID.length = 20 ∧
      script = [opDup, opHash160, 20] ++ keyID ++ [opEqualVerify, opCheckSig] := by
  unfold isToKeyID at h
  split at h
  · next hform =>
    obtain ⟨hlen, hfront, hback⟩ := hform
    obtain rfl := Option.some.inj h
    refine ⟨by simp; omega, ?_⟩
    rw [← hfront, ← hback]
    exact eq_take_append_take_append_drop script 3 20
  · cases h

theorem isToScriptID_some {scriptID : Bytes} (h : isToScriptID script = some scriptID) :
    scriptID.length = 20 ∧ script = [opHash160, 20] ++ scriptID ++ [opEqual] := by
  unfold isToScriptID at h
  split at h
  · next hform =>
    obtain ⟨hlen, hfront, hback⟩ := hform
    obtain rfl := Option.some.inj h
    refine ⟨by simp; omega, ?_⟩
    rw [← hfront, ← hback]
    exact eq_take_append_take_append_drop script 2 20
  · cases h

/-- A script that pushes a key of `n` bytes, and the first byte of the key. -/
private theorem pushed_key {n : Nat} {size first : UInt8} (hlen : script.length = n + 2)
    (hpos : 0 < n) (hfront : script.take 1 = [size]) (hback : script.drop (1 + n) = [opCheckSig])
    (hfirst : script[1]? = some first) :
    ∃ x, x.length = n - 1 ∧ (script.drop 1).take n = first :: x ∧
      script = [size] ++ (script.drop 1).take n ++ [opCheckSig] := by
  have hsplit := eq_take_append_take_append_drop script 1 n
  rw [hfront, hback] at hsplit
  have hkey : ((script.drop 1).take n)[0]? = some first := by
    rw [List.getElem?_take_of_lt hpos, List.getElem?_drop]
    exact hfirst
  cases hk : (script.drop 1).take n with
  | nil =>
    rw [hk] at hkey
    simp at hkey
  | cons a x =>
    rw [hk] at hkey
    obtain rfl : a = first := by simpa using hkey
    refine ⟨x, ?_, rfl, by rw [← hk]; exact hsplit⟩
    have hl := congrArg List.length hk
    simp only [List.length_take, List.length_drop, List.length_cons] at hl
    omega

/-- The key is compressed, or valid and not compressed. -/
theorem isToPubKey_some {k : PubKeys} {pubkey : Bytes} (h : isToPubKey k script = some pubkey) :
    (∃ first x, (first = 0x02 ∨ first = 0x03) ∧ x.length = 32 ∧ pubkey = first :: x ∧
        script = [33] ++ pubkey ++ [opCheckSig]) ∨
      ∃ x y, x.length = 32 ∧ y.length = 32 ∧ pubkey = 0x04 :: (x ++ y) ∧
        k.isFullyValid pubkey = true ∧ script = [65] ++ pubkey ++ [opCheckSig] := by
  unfold isToPubKey at h
  split at h
  · next hform =>
    obtain ⟨hlen, hfront, hback, hfirst⟩ := hform
    obtain rfl := Option.some.inj h
    left
    rcases hfirst with hfirst | hfirst
    · obtain ⟨x, hx, hkey, hscript⟩ := pushed_key hlen (by decide) hfront hback hfirst
      exact ⟨_, x, .inl rfl, hx, hkey, hscript⟩
    · obtain ⟨x, hx, hkey, hscript⟩ := pushed_key hlen (by decide) hfront hback hfirst
      exact ⟨_, x, .inr rfl, hx, hkey, hscript⟩
  · split at h
    · next hform =>
      obtain ⟨hlen, hfront, hback, hfirst⟩ := hform
      obtain ⟨x, hx, hkey, hscript⟩ := pushed_key hlen (by decide) hfront hback hfirst
      simp only [Option.ite_none_right_eq_some] at h
      obtain ⟨hvalid, h⟩ := h
      obtain rfl := Option.some.inj h
      right
      refine ⟨x.take 32, x.drop 32, by simp; omega, by simp; omega, ?_, hvalid, hscript⟩
      rw [hkey, List.take_append_drop]
    · cases h

private theorem and_one_eq (u : UInt8) : u &&& 0x01 = 0 ∨ u &&& 0x01 = 1 := by
  have hmod : (u &&& 0x01).toNat = u.toNat % 2 := by
    rw [UInt8.toNat_and]
    exact Nat.and_one_is_mod u.toNat
  rcases Nat.mod_two_eq_zero_or_one u.toNat with h | h
  · exact .inl (UInt8.toNat_inj.mp (hmod.trans h))
  · exact .inr (UInt8.toNat_inj.mp (hmod.trans h))

/-- **The short forms.**  A first byte below six, a body of the size that belongs to it, and
the script is recovered from both. -/
theorem compress_some {k : PubKeys} (hk : k.Lawful) {compr : Bytes}
    (h : compress k script = some compr) :
    ∃ (nSize : Nat) (vch : Bytes), nSize < nSpecialScripts ∧ compr = UInt8.ofNat nSize :: vch ∧
      vch.length = getSpecialSize nSize ∧ decompress k nSize vch = some script := by
  unfold compress at h
  cases hkey : isToKeyID script with
  | some keyID =>
    simp only [hkey, Option.some.injEq] at h
    obtain ⟨hlen, hscript⟩ := isToKeyID_some hkey
    refine ⟨0, keyID, by decide, h.symm, hlen, ?_⟩
    rw [decompress, if_pos rfl, List.take_of_length_le hlen.le, hscript]
  | none =>
  simp only [hkey] at h
  cases hscr : isToScriptID script with
  | some scriptID =>
    simp only [hscr, Option.some.injEq] at h
    obtain ⟨hlen, hscript⟩ := isToScriptID_some hscr
    refine ⟨1, scriptID, by decide, h.symm, hlen, ?_⟩
    rw [decompress, if_neg (by decide), if_pos rfl, List.take_of_length_le hlen.le, hscript]
  | none =>
  simp only [hscr, Option.bind_eq_some_iff] at h
  obtain ⟨pubkey, hpub, hcompr⟩ := h
  rcases isToPubKey_some hpub with ⟨first, x, hfirst, hx, rfl, hscript⟩ |
    ⟨x, y, hx, hy, rfl, hvalid, hscript⟩
  · have htake : (x.take 32) = x := List.take_of_length_le hx.le
    rcases hfirst with rfl | rfl
    · refine ⟨2, x, by decide, ?_, hx, ?_⟩
      · simpa [compressPubKey, htake] using hcompr.symm
      · simp [decompress, htake, hscript]
    · refine ⟨3, x, by decide, ?_, hx, ?_⟩
      · simpa [compressPubKey, htake] using hcompr.symm
      · simp [decompress, htake, hscript]
  · have htake : (x ++ y).take 32 = x := by
      rw [← hx]
      exact List.take_left
    have hlast : (0x04 :: (x ++ y) : Bytes).getLastD 0 = y.getLastD 0 := by
      cases y with
      | nil => simp at hy
      | cons b y => simp [List.getLastD_eq_getLast?, List.getLast?_cons, List.getLast?_append]
    have hkeys := hk x y hx hy hvalid
    have hx' : x.take 32 = x := List.take_of_length_le hx.le
    rw [compressPubKey] at hcompr
    simp only [List.headD_cons, List.drop_one, List.tail_cons, htake, hlast] at hcompr
    rcases and_one_eq (y.getLastD 0) with hparity | hparity
    · rw [hparity] at hcompr hkeys
      refine ⟨4, x, by decide, by simpa using hcompr.symm, hx, ?_⟩
      have hdec : k.decompress (UInt8.ofNat (4 - 2) :: x) = some (0x04 :: (x ++ y)) := hkeys
      simp only [decompress, hx', hdec]
      simp [hscript]
    · rw [hparity] at hcompr hkeys
      have hfive : (0x04 ||| 1 : UInt8) = 5 := by decide
      refine ⟨5, x, by decide, by simpa [hfive] using hcompr.symm, hx, ?_⟩
      have hdec : k.decompress (UInt8.ofNat (5 - 2) :: x) = some (0x04 :: (x ++ y)) := hkeys
      simp only [decompress, hx', hdec]
      simp [hscript]

/-! ## Reading back -/

/-- One byte below six is the variable-length integer of its value. -/
private theorem writeVarInt_special : ∀ n < 6, writeVarInt 4 n = [UInt8.ofNat n] := by
  decide

/-- **What is written starts with a small integer.** -/
theorem writeScript_eq {k : PubKeys} (hk : k.Lawful) (hsize : script.length ≤ maxScriptSize) :
    ∃ nSize cs, writeScript k script = writeVarInt 4 nSize ++ cs ∧
      nSize ≤ maxScriptSize + nSpecialScripts := by
  unfold writeScript
  cases hc : compress k script with
  | none => exact ⟨_, script, rfl, by omega⟩
  | some compr =>
    obtain ⟨nSize, vch, hlt, rfl, _, _⟩ := compress_some hk hc
    refine ⟨nSize, vch, ?_, hlt.le.trans (by decide)⟩
    rw [writeVarInt_special nSize hlt]
    rfl

/-- **Every script is read back.** -/
theorem readScript_writeScript {k : PubKeys} (hk : k.Lawful) (hsize : script.length ≤ maxScriptSize)
    :
    RoundTrip (readScript k) (writeScript k script) script := by
  unfold readScript writeScript
  cases hc : compress k script with
  | none =>
    have hfits : script.length + nSpecialScripts < 2 ^ (8 * 4) := by
      have hmax : maxScriptSize + nSpecialScripts < 2 ^ (8 * 4) := by decide
      omega
    refine (readVarInt_writeVarInt (by decide) hfits).bind ?_
    rw [if_neg (by omega), if_neg (by omega)]
    exact RoundTrip.take endOfData script
  | some compr =>
    obtain ⟨nSize, vch, hlt, rfl, hlen, hdec⟩ := compress_some hk hc
    have hbyte : UInt8.ofNat nSize :: vch = writeVarInt 4 nSize ++ vch := by
      rw [writeVarInt_special nSize hlt]
      rfl
    have hfits : nSize < 2 ^ (8 * 4) := hlt.trans (by decide)
    simp only [hbyte]
    refine (readVarInt_writeVarInt (by decide) hfits).bind ?_
    rw [if_pos hlt, ← hlen]
    have hmap := (RoundTrip.take endOfData vch).map fun v => (decompress k nSize v).getD []
    rwa [hdec, Option.getD_some] at hmap

/-- A script beyond the limit has no special form. -/
theorem compress_long (hsize : maxScriptSize < script.length) : compress k script = none := by
  have hmax : maxScriptSize = 10000 := rfl
  have hkey : isToKeyID script = none := if_neg fun h => by omega
  have hid : isToScriptID script = none := if_neg fun h => by omega
  have hpub : isToPubKey k script = none := by
    unfold isToPubKey
    rw [if_neg fun h => by omega, if_neg fun h => by omega]
  rw [compress, hkey, hid, hpub]
  rfl

/-- **A script beyond the limit** comes back as a short one that cannot be spent. -/
theorem readScript_writeScript_long (hsize : maxScriptSize < script.length)
    (hfits : script.length + nSpecialScripts < 2 ^ (8 * 4)) :
    RoundTrip (readScript k) (writeScript k script) [opReturn] := by
  unfold readScript writeScript
  rw [compress_long k hsize]
  refine (readVarInt_writeVarInt (by decide) hfits).bind ?_
  rw [if_neg (by omega), Nat.add_sub_cancel, if_pos hsize]
  have hignore : RoundTrip (Reader.ignore endOfData script.length) script () := by
    intro rest
    simp [Reader.ignore, StateT.run]
  exact hignore.map fun _ => [opReturn]

/-! ## Keys for concrete runs -/

/-- The second coordinate is a parity bit. -/
def parityKeys : PubKeys where
  isFullyValid pubkey := pubkey.drop 33 = List.replicate 31 0 ++ [0] ∨
    pubkey.drop 33 = List.replicate 31 0 ++ [1]
  decompress v := some (0x04 :: (v.drop 1 ++ (List.replicate 31 0 ++ [v.headD 0 - 2])))

theorem parityKeys_lawful : parityKeys.Lawful := by
  intro x y hx _ hvalid
  have hdrop : (0x04 :: (x ++ y) : Bytes).drop 33 = y := by
    rw [List.drop_succ_cons, ← hx]
    exact List.drop_left
  simp only [parityKeys, hdrop, decide_eq_true_eq] at hvalid
  rcases hvalid with rfl | rfl
  · simp [parityKeys]
  · have hbit : ((2 ||| 1) - 2 : UInt8) = 1 := by decide
    simp [parityKeys, hbit]

end Navcoin
