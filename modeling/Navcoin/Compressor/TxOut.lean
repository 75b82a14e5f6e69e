import Navcoin.Blsct.Verification
import Navcoin.Compressor.Amount
import Navcoin.Compressor.Script

/-!
# Compressed outputs

`CTxOutCompressor` of `compressor.h`, the format in which unspent outputs are stored.  The
first integer is a compressed amount or one of two markers.

* `roundTrip_owned`, `refused_owned`: the part with keys and proof is read back exactly when
  its vectors are within the size a stream admits;
* `exact_unserialize`: an output is read back equal only at its place in the stream;
* `stored_output_survives_iff`: which outputs are read back equal.
-/

namespace Navcoin

variable {G : Type} {bs : Bytes}

/-- A `uint64_t` stored in a `CAmount`. -/
def toAmount (n : Nat) : Int := (BitVec.ofNat 64 n).toInt

variable {n : Nat}

theorem toAmount_of_le (h : n ≤ 10 ^ 18) : toAmount n = n := by
  have hnat : (BitVec.ofNat 64 n).toNat = n := by
    exact Nat.mod_eq_of_lt (by omega)
  rw [toAmount, BitVec.toInt_eq_toNat_of_lt (by omega), hnat]

variable {script : CScript}

namespace CTxOutCompressor

variable {o : CTxOut G}

/-- An amount in range survives the compression and its integer. -/
theorem amount_back (h : 0 ≤ o.nValue ∧ o.nValue ≤ maxMoney) :
    toUint64 o.nValue ≤ 10 ^ 18 ∧
      toAmount (decompressAmount (compressAmount (toUint64 o.nValue))) = o.nValue := by
  have hmax : maxMoney = 10 ^ 18 := by decide
  have hnat : toUint64 o.nValue = o.nValue.toNat := toUint64_of_nonneg h.1 (by omega)
  have hle : toUint64 o.nValue ≤ 10 ^ 18 := by omega
  rw [decompressAmount_compressAmount hle, toAmount_of_le hle, hnat]
  omega

theorem compressAmount_eq_marker_iff (hvalue : 0 ≤ o.nValue ∧ o.nValue ≤ maxMoney) :
    compressAmount (toUint64 o.nValue) = markerToken ↔ o.nValue = 1888888888888889 := by
  have hmax : maxMoney = 10 ^ 18 := by decide
  have hamount : toUint64 o.nValue = o.nValue.toNat := toUint64_of_nonneg hvalue.1 (by omega)
  rw [compressAmount_eq_markerToken_iff (amount_back hvalue).1]
  omega

theorem roundTrip_amount : RoundTrip (readVarInt 8)
    (writeVarInt 8 (compressAmount (toUint64 o.nValue))) (compressAmount (toUint64 o.nValue)) :=
  readVarInt_writeVarInt (by decide) (compressAmount_lt _)

/-- The output is written in the format for tokens and programs. -/
def tokenFormat (o : CTxOut G) : Bool := !o.vData.isEmpty || o.tokenId.token ≠ 0

theorem eq_of_tokenFormat_false (h : tokenFormat o = false) :
    o.vData = [] ∧ o.tokenId.token = 0 := by
  simpa [tokenFormat] using h

/-- Without a token part only the second part of the token id can be lost. -/
theorem default_tokenId_iff (h : tokenFormat o = false) :
    {} = o.tokenId ↔ o.tokenId.subid = 0xffffffffffffffff := by
  obtain ⟨_, htoken⟩ := eq_of_tokenFormat_false h
  cases hid : o.tokenId with
  | mk token subid =>
    rw [hid] at htoken
    obtain rfl : token = 0 := htoken
    simp [eq_comm]

section
variable [Zero G]

/-- The fields that both marked formats share. -/
def writeOwned (c : Crypto G) (o : CTxOut G) : Bytes :=
  writeVarInt 8 (compressAmount (toUint64 o.nValue)) ++ (writeVector o.ephemeralKey ++
    (writeVector o.outputKey ++ (writeVector o.spendingKey ++ o.getBulletproof.serialize c)))

/-- `SerializationOp` when writing. -/
def serialize (c : Crypto G) (k : PubKeys) (o : CTxOut G) : Bytes :=
  (if tokenFormat o then
    writeVarInt 8 markerToken ++ (writeOwned c o ++ (writeVector o.vData ++ o.tokenId.serialize))
  else if o.isBLSCT then
    writeVarInt 8 markerBlsct ++ writeOwned c o
  else
    writeVarInt 8 (compressAmount (toUint64 o.nValue)))
  ++ writeScript k o.scriptPubKey

def readOwned (c : Crypto G) : StreamReader (CTxOut G) := do
  let nVal ← readVarInt 8
  let ephemeralKey ← readVector
  let outputKey ← readVector
  let spendingKey ← readVector
  let vbp ← BulletproofsRangeproof.unserialize c
  pure { nValue := toAmount (decompressAmount nVal), ephemeralKey := ephemeralKey,
         outputKey := outputKey, spendingKey := spendingKey, bp := some vbp.copy }

/-- What follows the first integer, up to the script. -/
def readBody (c : Crypto G) (nVal : Nat) : StreamReader (CTxOut G) :=
  if nVal = markerBlsct then readOwned c
  else if nVal = markerToken then do
    let o ← readOwned c
    let vData ← readVector
    let tokenId ← TokenId.unserialize
    pure { o with vData := vData, tokenId := tokenId }
  else pure { nValue := toAmount (decompressAmount nVal) }

/-- `SerializationOp` when reading into a new output. -/
def unserialize (c : Crypto G) (k : PubKeys) : StreamReader (CTxOut G) := do
  let nVal ← readVarInt 8
  let o ← readBody c nVal
  let scriptPubKey ← readScript k
  pure { o with scriptPubKey := scriptPubKey }

/-! ## The shared fields -/

/-- The vectors of the shared fields are within the size a stream admits. -/
def KeysFit (o : CTxOut G) : Prop :=
  (o.ephemeralKey.length ≤ maxSize ∧ o.outputKey.length ≤ maxSize ∧
    o.spendingKey.length ≤ maxSize) ∧ o.getBulletproof.SizesFit

instance (o : CTxOut G) : Decidable (KeysFit o) := inferInstanceAs (Decidable (_ ∧ _))

/-- What is recovered of the shared fields. -/
def owned (o : CTxOut G) : CTxOut G :=
  { nValue := o.nValue, ephemeralKey := o.ephemeralKey, outputKey := o.outputKey,
    spendingKey := o.spendingKey, bp := some o.getBulletproof }

theorem copy_getBulletproof (o : CTxOut G) : o.getBulletproof.copy = o.getBulletproof := by
  unfold CTxOut.getBulletproof
  cases o.bp with
  | none => simp [BulletproofsRangeproof.copy, BulletproofsRangeproof.empty, Scalar.copy]
  | some p => exact BulletproofsRangeproof.copy_copy p

variable {c : Crypto G}

theorem roundTrip_owned (hc : c.EncodesElements)
    (hvalue : 0 ≤ o.nValue ∧ o.nValue ≤ maxMoney) (h : KeysFit o) :
    RoundTrip (readOwned c) (writeOwned c o) (owned o) := by
  obtain ⟨⟨heph, hout, hspend⟩, hbp⟩ := h
  have hproof := BulletproofsRangeproof.unserialize_serialize hc o.getBulletproof hbp
  rw [copy_getBulletproof] at hproof
  have howned : owned o =
      { nValue := toAmount (decompressAmount (compressAmount (toUint64 o.nValue))),
        ephemeralKey := o.ephemeralKey, outputKey := o.outputKey, spendingKey := o.spendingKey,
        bp := some o.getBulletproof.copy } := by
    rw [owned, (amount_back hvalue).2, copy_getBulletproof]
  rw [howned]
  exact roundTrip_amount.bind <| (readVector_writeVector heph).bind <|
    (readVector_writeVector hout).bind <| (readVector_writeVector hspend).bind <| hproof.bind_pure _

theorem refused_owned (hc : c.EncodesElements) (h : ¬ KeysFit o) :
    Refused (readOwned c) (writeOwned c o) := by
  refine roundTrip_amount.bind_refused ?_
  by_cases heph : o.ephemeralKey.length ≤ maxSize
  · refine (readVector_writeVector heph).bind_refused ?_
    by_cases hout : o.outputKey.length ≤ maxSize
    · refine (readVector_writeVector hout).bind_refused ?_
      by_cases hspend : o.spendingKey.length ≤ maxSize
      · refine (readVector_writeVector hspend).bind_refused ?_
        have hbp : ¬ o.getBulletproof.SizesFit := fun hbp => h ⟨⟨heph, hout, hspend⟩, hbp⟩
        exact (BulletproofsRangeproof.unserialize_refused hc _ hbp).bind _
      · exact ((readVector_refused (by omega)).append _).bind _
    · exact ((readVector_refused (by omega)).append _).bind _
  · exact ((readVector_refused (by omega)).append _).bind _

/-! ## The whole output -/

variable {k : PubKeys}

/-- The integer in front and the script behind are always read back, the script possibly as
another one. -/
theorem roundTrip_body_of (hn : n < 2 ^ 64)
    (hbody : RoundTrip (readBody c n) bs o) {script' : CScript}
    (hscript : RoundTrip (readScript k) (writeScript k script) script') :
    RoundTrip (unserialize c k) ((writeVarInt 8 n ++ bs) ++ writeScript k script)
      { o with scriptPubKey := script' } := by
  have hint : RoundTrip (readVarInt 8) (writeVarInt 8 n) n :=
    readVarInt_writeVarInt (by decide) hn
  rw [List.append_assoc]
  exact hint.bind <| hbody.bind <| hscript.bind_pure _

theorem roundTrip_body (hk : k.Lawful) (hn : n < 2 ^ 64)
    (hbody : RoundTrip (readBody c n) bs o) (hscript : script.length ≤ maxScriptSize) :
    RoundTrip (unserialize c k) ((writeVarInt 8 n ++ bs) ++ writeScript k script)
      { o with scriptPubKey := script } :=
  roundTrip_body_of hn hbody (readScript_writeScript hk hscript)

theorem refused_body (hn : n < 2 ^ 64) (hbody : Refused (readBody c n) bs) (cs : Bytes) :
    Refused (unserialize c k) ((writeVarInt 8 n ++ bs) ++ cs) := by
  have hint : RoundTrip (readVarInt 8) (writeVarInt 8 n) n :=
    readVarInt_writeVarInt (by decide) hn
  rw [List.append_assoc]
  exact hint.bind_refused <| (hbody.append cs).bind _

theorem roundTrip_token (hc : c.EncodesElements)
    (hvalue : 0 ≤ o.nValue ∧ o.nValue ≤ maxMoney) (h : KeysFit o)
    (hdata : o.vData.length ≤ maxSize) :
    RoundTrip (readBody c markerToken)
      (writeOwned c o ++ (writeVector o.vData ++ o.tokenId.serialize))
      { owned o with vData := o.vData, tokenId := o.tokenId } := by
  exact (roundTrip_owned hc hvalue h).bind <| (readVector_writeVector hdata).bind <|
    (TokenId.unserialize_serialize o.tokenId).bind_pure _

theorem refused_token (hc : c.EncodesElements) (hvalue : 0 ≤ o.nValue ∧ o.nValue ≤ maxMoney)
    (h : ¬ (KeysFit o ∧ o.vData.length ≤ maxSize)) :
    Refused (readBody c markerToken)
      (writeOwned c o ++ (writeVector o.vData ++ o.tokenId.serialize)) := by
  by_cases hkeys : KeysFit o
  · have hdata : maxSize < o.vData.length := by
      by_contra hdata
      exact h ⟨hkeys, by omega⟩
    exact (roundTrip_owned hc hvalue hkeys).bind_refused <|
      ((readVector_refused hdata).append _).bind _
  · exact ((refused_owned hc hkeys).append _).bind _

theorem serialize_token (h : tokenFormat o = true) :
    serialize c k o = (writeVarInt 8 markerToken ++
      (writeOwned c o ++ (writeVector o.vData ++ o.tokenId.serialize))) ++
        writeScript k o.scriptPubKey := by
  rw [serialize, if_pos h]

theorem serialize_private (h : tokenFormat o = false) (hkeys : o.isBLSCT = true) :
    serialize c k o =
      (writeVarInt 8 markerBlsct ++ writeOwned c o) ++ writeScript k o.scriptPubKey := by
  rw [serialize, if_neg (by simp [h]), if_pos hkeys]

theorem serialize_public (h : tokenFormat o = false) (hkeys : o.isBLSCT = false) :
    serialize c k o =
      writeVarInt 8 (compressAmount (toUint64 o.nValue)) ++ writeScript k o.scriptPubKey := by
  rw [serialize, if_neg (by simp [h]), if_neg (by simp [hkeys])]

theorem readBody_markerBlsct : readBody c markerBlsct = readOwned c := by rw [readBody, if_pos rfl]

/-- The amount of a marked output is the second integer. -/
theorem nValue_of_readOwned {rest : Bytes} (h : (readOwned c).run bs = .ok (o, rest)) :
    ∃ n bs', (readVarInt 8).run bs = .ok (n, bs') ∧ o.nValue = toAmount (decompressAmount n) := by
  simp only [readOwned, Reader.bind_eq_ok_iff, Reader.pure_eq_ok_iff] at h
  obtain ⟨n, bs', hn, _, _, _, _, _, _, _, _, _, _, _, _, hout⟩ := h
  obtain ⟨rfl, _⟩ := Prod.mk.inj hout
  exact ⟨n, bs', hn, rfl⟩

theorem nValue_of_markerToken {rest : Bytes} (hn : RoundTrip (readVarInt 8) bs n) {cs : Bytes}
    (h : (unserialize c k).run (writeVarInt 8 markerToken ++ (bs ++ cs)) = .ok (o, rest)) :
    o.nValue = toAmount (decompressAmount n) := by
  have hmarker : RoundTrip (readVarInt 8) (writeVarInt 8 markerToken) markerToken :=
    readVarInt_writeVarInt (by decide) (by decide)
  simp only [unserialize, Reader.bind_eq_ok_iff, Reader.pure_eq_ok_iff, hmarker (bs ++ cs),
    Except.ok.injEq, Prod.mk.injEq] at h
  obtain ⟨_, _, ⟨rfl, rfl⟩, body, _, hbody, script, _, _, rfl, _⟩ := h
  rw [readBody, if_neg (by decide), if_pos rfl] at hbody
  simp only [Reader.bind_eq_ok_iff, Reader.pure_eq_ok_iff] at hbody
  obtain ⟨_, _, howned, _, _, _, _, _, _, hbody⟩ := hbody
  obtain ⟨rfl, _⟩ := Prod.mk.inj hbody
  obtain ⟨m, _, hm, hvalue⟩ := nValue_of_readOwned howned
  rw [hn cs] at hm
  cases hm
  exact hvalue

/-! ## Which outputs survive -/

variable [DecidableEq G]

/-- The bytes written for `o` are consumed exactly and give an output equal to `o`. -/
def Survives (c : Crypto G) (k : PubKeys) (o : CTxOut G) : Prop :=
  ∃ o', RoundTrip (unserialize c k) (serialize c k o) o' ∧ o'.eq o = true

theorem survives_iff_of_roundTrip {o o' : CTxOut G}
    (h : RoundTrip (unserialize c k) (serialize c k o) o') :
    Survives c k o ↔ o'.eq o = true := by
  constructor
  · rintro ⟨o'', hread, heq⟩
    rwa [h.unique hread]
  · intro heq
    exact ⟨o', h, heq⟩

theorem not_survives_of_refused
    (h : Refused (unserialize c k) (serialize c k o)) : ¬ Survives c k o := by
  rintro ⟨o', hread, _⟩
  obtain ⟨e, he⟩ := h []
  rw [hread []] at he
  cases he

/-- Outputs that compare equal are written in the same way. -/
theorem serialize_congr {o o' : CTxOut G} (h : o'.eq o = true) :
    serialize c k o' = serialize c k o := by
  simp only [CTxOut.eq, Bool.and_eq_true, beq_iff_eq] at h
  obtain ⟨⟨⟨⟨⟨⟨⟨hvalue, hscript⟩, heph⟩, hout⟩, hspend⟩, hproof⟩, htoken⟩, hdata⟩ := h
  have hformat : tokenFormat o' = tokenFormat o := by simp [tokenFormat, hdata, htoken]
  have hkeys : o'.isBLSCT = o.isBLSCT := by simp [CTxOut.isBLSCT, heph, hspend, hout]
  have howned : writeOwned c o' = writeOwned c o := by
    rw [writeOwned, writeOwned, hvalue, heph, hout, hspend, hproof]
  rw [serialize, serialize, hformat, hkeys, howned, hvalue, hscript, htoken, hdata]

/-- The one amount that compresses to the marker is not read back, whatever follows: the size of
the script is taken for the amount. -/
theorem not_eq_of_markerToken (hk : k.Lawful) (hscript : o.scriptPubKey.length ≤ maxSize)
    (hvalue : o.nValue = 1888888888888889)
    (hbytes : serialize c k o = writeVarInt 8 markerToken ++ writeScript k o.scriptPubKey)
    {o' : CTxOut G} {rest rest' : Bytes}
    (hrun : unserialize c k (serialize c k o ++ rest) = .ok (o', rest')) : ¬ o'.eq o = true := by
  obtain ⟨nSize, cs, hsplit, hsmall⟩ : ∃ nSize cs,
      writeScript k o.scriptPubKey = writeVarInt 4 nSize ++ cs ∧ nSize < 2 ^ (8 * 4) := by
    by_cases hsize : o.scriptPubKey.length ≤ maxScriptSize
    · obtain ⟨nSize, cs, hsplit, hle⟩ := writeScript_eq hk hsize
      exact ⟨nSize, cs, hsplit, hle.trans_lt (by decide)⟩
    · have hmax : maxSize + nSpecialScripts < 2 ^ (8 * 4) := by decide
      refine ⟨o.scriptPubKey.length + nSpecialScripts, o.scriptPubKey, ?_, by omega⟩
      rw [writeScript, compress_long k (by omega)]
  intro heq
  have hint : RoundTrip (readVarInt 8) (writeVarInt 4 nSize) nSize :=
    readVarInt_writeVarInt_of_le (by decide) (by decide) hsmall
  rw [hbytes, hsplit, List.append_assoc, List.append_assoc] at hrun
  have hread := nValue_of_markerToken hint hrun
  simp only [CTxOut.eq, Bool.and_eq_true, beq_iff_eq] at heq
  have hamount : o'.nValue = 1888888888888889 := heq.1.1.1.1.1.1.1.trans hvalue
  rw [hread] at hamount
  obtain ⟨hle, hne⟩ := decompressAmount_of_lt hsmall
  rw [toAmount_of_le hle] at hamount
  omega

theorem owned_eq_iff (o : CTxOut G) (d : Bytes) (t : TokenId) :
    { owned o with vData := d, tokenId := t, scriptPubKey := o.scriptPubKey }.eq o = true ↔
      t = o.tokenId ∧ d = o.vData := by
  have hproof : (owned o).getBulletproof = o.getBulletproof := copy_getBulletproof o
  simp only [CTxOut.getBulletproof, owned] at hproof
  simp [CTxOut.eq, owned, CTxOut.getBulletproof, hproof]

/-! ## The three formats -/

section Marked

variable (hc : c.EncodesElements) (hk : k.Lawful) (hvalue : 0 ≤ o.nValue ∧ o.nValue ≤ maxMoney)
  (hscript : o.scriptPubKey.length ≤ maxScriptSize)
include hc hk hvalue hscript

theorem survives_token_iff (htoken : tokenFormat o = true) :
    Survives c k o ↔ KeysFit o ∧ o.vData.length ≤ maxSize := by
  have hbytes := serialize_token (c := c) (k := k) htoken
  by_cases hfit : KeysFit o ∧ o.vData.length ≤ maxSize
  · have hread := roundTrip_body hk (by decide) (roundTrip_token hc hvalue hfit.1 hfit.2) hscript
    rw [← hbytes] at hread
    refine iff_of_true ((survives_iff_of_roundTrip hread).mpr ?_) hfit
    exact (owned_eq_iff o o.vData o.tokenId).mpr ⟨rfl, rfl⟩
  · have hrefused : Refused (unserialize c k) (serialize c k o) := by
      rw [hbytes]
      exact refused_body (by decide) (refused_token hc hvalue hfit) _
    exact iff_of_false (not_survives_of_refused hrefused) hfit

theorem survives_private_iff (htoken : tokenFormat o = false) (hkeys : o.isBLSCT = true) :
    Survives c k o ↔ KeysFit o ∧ o.tokenId.subid = 0xffffffffffffffff := by
  have hbytes := serialize_private (c := c) (k := k) htoken hkeys
  by_cases hfit : KeysFit o
  · have howned := roundTrip_owned hc hvalue hfit
    rw [← readBody_markerBlsct] at howned
    have hread := roundTrip_body hk (by decide) howned hscript
    rw [← hbytes] at hread
    have hequal := owned_eq_iff o [] {}
    rw [survives_iff_of_roundTrip hread, ← default_tokenId_iff htoken]
    refine hequal.trans ?_
    simp [hfit, (eq_of_tokenFormat_false htoken).1]
  · have hrefused : Refused (unserialize c k) (serialize c k o) := by
      rw [hbytes]
      refine refused_body (by decide) ?_ _
      exact refused_owned hc hfit
    exact iff_of_false (not_survives_of_refused hrefused) fun h => hfit h.1

end Marked

omit [DecidableEq G] in
theorem roundTrip_public (hvalue : 0 ≤ o.nValue ∧ o.nValue ≤ maxMoney)
    (hne : o.nValue ≠ 1888888888888889) :
    RoundTrip (readBody c (compressAmount (toUint64 o.nValue))) [] { nValue := o.nValue } := by
  obtain ⟨hrange, hback⟩ := amount_back hvalue
  rw [readBody, if_neg (compressAmount_ne_markerBlsct hrange),
    if_neg ((compressAmount_eq_marker_iff hvalue).not.mpr hne), hback]
  exact RoundTrip.pure _

theorem survives_public_iff (hk : k.Lawful)
    (hvalue : 0 ≤ o.nValue ∧ o.nValue ≤ maxMoney)
    (hscript : o.scriptPubKey.length ≤ maxScriptSize) (htoken : tokenFormat o = false)
    (hkeys : o.isBLSCT = false) :
    Survives c k o ↔ o.nValue ≠ 1888888888888889 ∧ o.tokenId.subid = 0xffffffffffffffff ∧
      o.getBulletproof = BulletproofsRangeproof.empty := by
  have hbytes := serialize_public (c := c) (k := k) htoken hkeys
  by_cases hmarker : o.nValue = 1888888888888889
  · rw [(compressAmount_eq_marker_iff hvalue).mpr hmarker] at hbytes
    refine iff_of_false ?_ fun h => h.1 hmarker
    rintro ⟨o', hread, heq⟩
    exact not_eq_of_markerToken hk (hscript.trans (by decide)) hmarker hbytes (hread []) heq
  · have hbody := roundTrip_public (c := c) hvalue hmarker
    have hread := roundTrip_body hk (compressAmount_lt _) hbody hscript
    rw [List.append_nil, ← hbytes] at hread
    rw [survives_iff_of_roundTrip hread, ← default_tokenId_iff htoken]
    simp only [CTxOut.isBLSCT, Bool.or_eq_false_iff, Bool.not_eq_false', List.isEmpty_iff] at hkeys
    obtain ⟨⟨heph, hspend⟩, hout⟩ := hkeys
    have hempty : ({ nValue := o.nValue, scriptPubKey := o.scriptPubKey } : CTxOut G).getBulletproof
        = BulletproofsRangeproof.empty := rfl
    simp only [CTxOut.eq, hempty, heph, hspend, hout, (eq_of_tokenFormat_false htoken).1,
      Bool.and_eq_true, beq_iff_eq, and_true, true_and, ne_eq, hmarker, not_false_eq_true]
    rw [and_comm, eq_comm (a := BulletproofsRangeproof.empty)]

/-! ## Reading in the middle of a stream -/

/-- Something is read back for every script, and exactly its bytes are consumed. -/
theorem exists_roundTrip_script (hk : k.Lawful) (h : script.length ≤ maxSize) :
    ∃ script', RoundTrip (readScript k) (writeScript k script) script' := by
  by_cases hsize : script.length ≤ maxScriptSize
  · exact ⟨script, readScript_writeScript hk hsize⟩
  · have hmax : maxSize + nSpecialScripts < 2 ^ (8 * 4) := by decide
    exact ⟨[opReturn], readScript_writeScript_long k (by omega) (by omega)⟩

/-- The first integer and the script of the output are where the reader looks for them. -/
theorem exact_body (hk : k.Lawful) (hscript : o.scriptPubKey.length ≤ maxSize)
    (hn : n < 2 ^ 64) {o₁ : CTxOut G} (hbody : RoundTrip (readBody c n) bs o₁)
    (hbytes : serialize c k o = (writeVarInt 8 n ++ bs) ++ writeScript k o.scriptPubKey) :
    Exact (unserialize c k) (serialize c k o) (fun o' => o'.eq o = true) (Survives c k o) := by
  obtain ⟨script', hread⟩ := exists_roundTrip_script hk hscript
  have hall := roundTrip_body_of hn hbody hread
  rw [← hbytes] at hall
  exact .of_roundTrip hall (survives_iff_of_roundTrip hall).mpr

/-- **An output is recognised in the middle of a stream.**  What is read at its place equals it
only when it survives, and then the reader stands behind it. -/
theorem exact_unserialize (hc : c.EncodesElements) (hk : k.Lawful)
    (hvalue : 0 ≤ o.nValue ∧ o.nValue ≤ maxMoney) (hscript : o.scriptPubKey.length ≤ maxSize) :
    Exact (unserialize c k) (serialize c k o) (fun o' => o'.eq o = true) (Survives c k o) := by
  cases htoken : tokenFormat o with
  | true =>
    have hbytes := serialize_token (c := c) (k := k) htoken
    by_cases hfit : KeysFit o ∧ o.vData.length ≤ maxSize
    · exact exact_body hk hscript (by decide) (roundTrip_token hc hvalue hfit.1 hfit.2) hbytes
    · refine .of_refused ?_
      rw [hbytes]
      exact refused_body (by decide) (refused_token hc hvalue hfit) _
  | false =>
  cases hkeys : o.isBLSCT with
  | true =>
    have hbytes := serialize_private (c := c) (k := k) htoken hkeys
    by_cases hfit : KeysFit o
    · have howned := roundTrip_owned hc hvalue hfit
      rw [← readBody_markerBlsct] at howned
      exact exact_body hk hscript (by decide) howned hbytes
    · refine .of_refused ?_
      rw [hbytes]
      refine refused_body (by decide) ?_ _
      exact refused_owned hc hfit
  | false =>
    have hbytes := serialize_public (c := c) (k := k) htoken hkeys
    by_cases hmarker : o.nValue = 1888888888888889
    · rw [(compressAmount_eq_marker_iff hvalue).mpr hmarker] at hbytes
      intro rest o' rest' hrun heq
      exact absurd heq (not_eq_of_markerToken hk hscript hmarker hbytes hrun)
    · refine exact_body hk hscript (compressAmount_lt _) (roundTrip_public hvalue hmarker) ?_
      rw [List.append_nil, hbytes]

/-! ## The condition -/

/-- The condition under which a stored output is read back equal, by format. -/
def StoredFaithfully (o : CTxOut G) : Prop :=
  if tokenFormat o then KeysFit o ∧ o.vData.length ≤ maxSize
  else if o.isBLSCT then KeysFit o ∧ o.tokenId.subid = 0xffffffffffffffff
  else o.nValue ≠ 1888888888888889 ∧ o.tokenId.subid = 0xffffffffffffffff ∧
    o.getBulletproof = BulletproofsRangeproof.empty

instance (o : CTxOut G) : Decidable (StoredFaithfully o) := by
  unfold StoredFaithfully
  infer_instance

/-- **Which outputs are read back.**  An output with a token or a program survives when its
vectors fit; a private output when in addition its token id has the default second part; a
public output when it has neither a second part nor a range proof, and its amount is not the
one that compresses to a marker. -/
theorem stored_output_survives_iff (c : Crypto G) (k : PubKeys) (hc : c.EncodesElements)
    (hk : k.Lawful) (o : CTxOut G) (hvalue : 0 ≤ o.nValue ∧ o.nValue ≤ maxMoney)
    (hscript : o.scriptPubKey.length ≤ maxScriptSize) :
    Survives c k o ↔ StoredFaithfully o := by
  unfold StoredFaithfully
  split
  · next htoken => exact survives_token_iff hc hk hvalue hscript htoken
  · next hplain =>
    have htoken : tokenFormat o = false := by simpa using hplain
    split
    · next hkeys => exact survives_private_iff hc hk hvalue hscript htoken hkeys
    · next hkeys => exact survives_public_iff hk hvalue hscript htoken (by simpa using hkeys)

end

/-! ## Concrete outputs -/

/-- A token output with keys survives. -/
theorem stored_output_survives_token :
    Survives (fixedBls true).toCrypto parityKeys
      { nValue := 5, scriptPubKey := [op1], spendingKey := [7],
        tokenId := { token := 9, subid := 2 } } :=
  (stored_output_survives_iff _ _ (fixedBls_encodesElements true) parityKeys_lawful _ (by decide)
    (by decide)).mpr (by decide)

/-- An output within the limits does not survive. -/
def Lost (o : CTxOut (ZMod groupOrder)) : Prop :=
  (0 ≤ o.nValue ∧ o.nValue ≤ maxMoney) ∧ o.scriptPubKey.length ≤ maxScriptSize ∧
    ¬ Survives (fixedBls true).toCrypto parityKeys o

/-- The amount 18888888.88888889 and the second part of a token id without a first part are
lost. -/
theorem stored_output_lost :
    Lost { nValue := 1888888888888889, scriptPubKey := [op1] } ∧
      Lost { nValue := 5, scriptPubKey := [op1], tokenId := { subid := 2 } } := by
  suffices h : ∀ o ∈ ([{ nValue := 1888888888888889, scriptPubKey := [op1] },
      { nValue := 5, scriptPubKey := [op1], tokenId := { subid := 2 } }] :
        List (CTxOut (ZMod groupOrder))), Lost o from ⟨h _ (by simp), h _ (by simp)⟩
  intro o ho
  have hfacts : (0 ≤ o.nValue ∧ o.nValue ≤ maxMoney) ∧ o.scriptPubKey.length ≤ maxScriptSize ∧
      tokenFormat o = false ∧ o.isBLSCT = false ∧
      ¬ (o.nValue ≠ 1888888888888889 ∧ o.tokenId.subid = 0xffffffffffffffff ∧
        o.getBulletproof = BulletproofsRangeproof.empty) := by
    revert o
    decide
  obtain ⟨hvalue, hscript, htoken, hkeys, hlost⟩ := hfacts
  refine ⟨hvalue, hscript, ?_⟩
  rwa [survives_public_iff parityKeys_lawful hvalue hscript htoken hkeys]

end CTxOutCompressor

end Navcoin
