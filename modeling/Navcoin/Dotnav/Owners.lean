import Mathlib.Data.List.TakeWhile
import Navcoin.Dotnav.Entries

/-!
# The owner of a name

`Consolidate` shows the owner of a name under `_key`.

* `stoll_of_isDigit`, `stoll_decimal`: an expiry is read back as it was written, below `2 ^ 63`;
* `lastWhere_added_of_pos`, `lastWhere_added_of_neg`, `expiry_added`: what `AddNameData` changes;
* `owner_added_key`, `owner_added_expiry`, `owner_added_of_ne`: the owner after an entry;
* `owner_later`: the owner at a later height.
-/

namespace Navcoin

variable {p : UInt64 × NameDataValue → Bool}

/-! ## Numbers -/

theorem toNat_ofNat_of_isDigit {c : Char} (h : c.isDigit = true) :
    isDigit (UInt8.ofNat c.toNat) = true ∧ (UInt8.ofNat c.toNat).toNat = c.toNat := by
  have hrange : 48 ≤ c.toNat ∧ c.toNat ≤ 57 := by
    simp only [Char.isDigit, Bool.and_eq_true, decide_eq_true_eq] at h
    exact ⟨UInt32.le_iff_toNat_le.mp h.1, UInt32.le_iff_toNat_le.mp h.2⟩
  have hnat : (UInt8.ofNat c.toNat).toNat = c.toNat := by
    rw [UInt8.toNat_ofNat']
    omega
  refine ⟨?_, hnat⟩
  simp only [isDigit, Bool.and_eq_true, decide_eq_true_eq, UInt8.le_iff_toNat_le, hnat]
  exact hrange

theorem isDigit_of_mem_decimal {n : Nat} {c : UInt8} (h : c ∈ decimal n) : isDigit c = true := by
  obtain ⟨d, hd, rfl⟩ := List.mem_map.mp h
  exact (toNat_ofNat_of_isDigit (Nat.isDigit_of_mem_toDigits (by decide) (by decide) hd)).1

theorem digitsValue_decimal (n : Nat) : digitsValue (decimal n) = n := by
  have hloop : ∀ (l : List Char) (m : Nat), (∀ c ∈ l, c.isDigit = true) →
      (l.map fun c => UInt8.ofNat c.toNat).foldl (fun n c => 10 * n + (c.toNat - 0x30)) m =
        Nat.ofDigitChars 10 l m := by
    intro l
    induction l with
    | nil => intros; rfl
    | cons c l ih =>
      intro m hdigits
      rw [List.map_cons, List.foldl_cons,
        (toNat_ofNat_of_isDigit (hdigits c List.mem_cons_self)).2]
      exact ih _ fun d hd => hdigits d (List.mem_cons_of_mem c hd)
  rw [digitsValue, decimal, hloop _ _ fun c hc =>
    Nat.isDigit_of_mem_toDigits (by decide) (by decide) hc]
  exact Nat.ofDigitChars_toDigits (by decide) (by decide)

/-- Digits are read as the number they are in decimal. -/
theorem stoll_of_isDigit {l : Bytes} (hne : l ≠ []) (hdigits : ∀ c ∈ l, isDigit c = true) :
    stoll l = if digitsValue l < 2 ^ 63 then some (digitsValue l : Int) else none := by
  have htake : l.takeWhile isDigit = l := List.takeWhile_eq_self_iff.mpr hdigits
  obtain ⟨c, rest, rfl⟩ := List.exists_cons_of_ne_nil hne
  have hdigit : isDigit c = true := hdigits c List.mem_cons_self
  have hspace : (c :: rest).dropWhile isspace = c :: rest := by
    have hnot : ∀ c : Fin 256, isDigit (UInt8.ofFin c) = true →
        isspace (UInt8.ofFin c) = false := by decide +kernel
    have hc : isspace c = false := hnot c.toFin hdigit
    rw [List.dropWhile_cons_of_neg (by rw [hc]; decide)]
  have hsign : stoll (c :: rest) = stollDigits false (c :: rest) := by
    unfold stoll
    rw [hspace]
    split
    · next heq => exact absurd hdigit (by rw [(List.cons.inj heq).1]; decide)
    · next heq => exact absurd hdigit (by rw [(List.cons.inj heq).1]; decide)
    · rfl
  simp only [hsign, stollDigits, htake, List.isEmpty_cons, Bool.false_eq_true, if_false,
    Bool.and_eq_true, decide_eq_true_eq]
  by_cases hn : digitsValue (c :: rest) < 2 ^ 63
  · rw [if_pos hn, if_pos (by omega)]
  · rw [if_neg hn, if_neg (by omega)]

/-- **A number is read back** if it is in the range of `long long`. -/
theorem stoll_decimal (n : Nat) :
    stoll (decimal n) = if n < 2 ^ 63 then some (n : Int) else none := by
  rw [stoll_of_isDigit (by simp [decimal, Nat.toDigits_ne_nil])
    fun c hc => isDigit_of_mem_decimal hc, digitsValue_decimal]

namespace DotNav

theorem expiryOf_decimal {d : NameDataValue} {n : Nat} (h : d.value = decimal n) :
    expiryOf d = if n < 2 ^ 63 then some n else none := by
  rw [expiryOf, h, stoll_decimal]
  split
  · rw [Option.map_some, toUint64_of_nonneg (by omega) (by omega), Int.toNat_natCast]
  · rfl

/-! ## One more entry -/

/-- The entries of a name after `AddNameData`. -/
def added (data : NameDataValues) (entry : UInt64 × NameDataValue) : NameDataValues :=
  (data.filter fun o => !(o.1 == entry.1 && o.2.isNull)) ++ [entry]

theorem isNull_of_dropped {it o : UInt64 × NameDataValue}
    (h : (!(o.1 == it.1 && o.2.isNull)) = false) :
    o.2 = { key := [], value := [], subdomain := [] } := by
  obtain ⟨height, key, value, subdomain⟩ := o
  simp only [NameDataValue.isNull, Bool.not_eq_false', Bool.and_eq_true, List.isEmpty_iff] at h
  obtain ⟨-, ⟨rfl, rfl⟩, rfl⟩ := h
  rfl

theorem lastWhere_filter {q : UInt64 × NameDataValue → Bool}
    (h : ∀ it, q it = false → p it = false) (data : NameDataValues) :
    lastWhere p (data.filter q) = lastWhere p data := by
  have hfilter : (data.filter q).filter p = data.filter p := by
    rw [List.filter_filter]
    refine List.filter_congr fun it _ => ?_
    cases hq : q it with
    | true => rw [Bool.and_true]
    | false => rw [h it hq, Bool.and_false]
  rw [lastWhere, hfilter, lastWhere]

theorem lastWhere_added_of_pos {it : UInt64 × NameDataValue} (h : p it = true)
    (data : NameDataValues) : lastWhere p (added data it) = some it.2 :=
  lastWhere_append_of_pos h _

/-- An entry that does not count changes nothing, nor do the null entries that are dropped. -/
theorem lastWhere_added_of_neg {it : UInt64 × NameDataValue} (h : p it = false)
    (hnull : ∀ height, p (height, { key := [], value := [] }) = false) (data : NameDataValues) :
    lastWhere p (added data it) = lastWhere p data := by
  rw [added, lastWhere_append_of_neg h]
  refine lastWhere_filter (fun o ho => ?_) data
  have hpair : o = (o.1, { key := [], value := [] }) := Prod.ext rfl (isNull_of_dropped ho)
  rw [hpair]
  exact hnull o.1

theorem expiry_filter {q : UInt64 × NameDataValue → Bool}
    (h : ∀ it, q it = false → it.2.key ≠ expiryEntry) (data : NameDataValues) :
    expiry (data.filter q) = expiry data := by
  induction data using List.reverseRecOn with
  | nil => rfl
  | append_singleton data it ih =>
    rw [List.filter_append, expiry_append]
    cases hq : q it with
    | true => rw [List.filter_cons_of_pos hq, List.filter_nil, expiry_append, ih]
    | false =>
      rw [List.filter_cons_of_neg (by rw [hq]; decide), List.filter_nil, List.append_nil, ih]
      simp [h it hq]

theorem expiry_added (data : NameDataValues) (it : UInt64 × NameDataValue) :
    expiry (added data it) = (expiry data).bind fun nExpiry =>
      if it.2.key = expiryEntry then expiryOf it.2 else some nExpiry := by
  rw [added, expiry_append, expiry_filter]
  intro o ho
  rw [isNull_of_dropped ho]
  decide

theorem mem_foldl_added {extra data : NameDataValues} {it : UInt64 × NameDataValue}
    (h : it ∈ extra.foldl added data) : it ∈ data ∨ it ∈ extra := by
  induction extra generalizing data with
  | nil => exact .inl h
  | cons o extra ih =>
    rcases ih h with hold | hnew
    · rcases List.mem_append.mp hold with hkept | hlast
      · exact .inl (List.mem_filter.mp hkept).1
      · exact .inr (by rw [List.mem_singleton.mp hlast]; exact List.mem_cons_self)
    · exact .inr (List.mem_cons_of_mem o hnew)

/-- Entries with a key are never dropped. -/
theorem foldl_added_eq_append {extra data : NameDataValues} (hdata : ∀ it ∈ data, it.2.key ≠ [])
    (hextra : ∀ it ∈ extra, it.2.key ≠ []) : extra.foldl added data = data ++ extra := by
  induction extra generalizing data with
  | nil => rw [List.foldl_nil, List.append_nil]
  | cons o extra ih =>
    obtain ⟨ho, hextra⟩ := List.forall_mem_cons.mp hextra
    have hone : added data o = data ++ [o] := by
      rw [added, List.filter_eq_self.mpr]
      intro it hit
      simp [NameDataValue.isNull, hdata it hit]
    rw [List.foldl_cons, hone, ih, List.append_assoc, List.singleton_append]
    · exact List.forall_mem_append.mpr ⟨hdata, List.forall_mem_singleton.mpr ho⟩
    · exact hextra

/-! ## The owner -/

/-- What `Consolidate` shows under `_key`. -/
def owner (data : NameDataValues) (height : Int) : Option Bytes :=
  (consolidate data height []).bind (AssocMap.find? keyEntry)

theorem owner_eq (data : NameDataValues) (height : Int) :
    owner data height = (expiry data).bind fun nExpiry =>
      if nExpiry > toUint64 height then entryValue data height [] keyEntry else none := by
  cases hexp : expiry data with
  | none => simp [owner, consolidate, hexp]
  | some nExpiry =>
    have hfind := find?_consolidate hexp height [] keyEntry
    obtain ⟨ret, hret, hvalue⟩ := Option.map_eq_some_iff.mp hfind
    rw [owner, hret, Option.bind_some, hvalue, Option.bind_some]

/-- A name with an owner has not expired. -/
theorem expiry_of_owner {data : NameDataValues} {height : Int} {value : Bytes}
    (h : owner data height = some value) :
    ∃ nExpiry, expiry data = some nExpiry ∧ toUint64 height < nExpiry ∧
      entryValue data height [] keyEntry = some value := by
  rw [owner_eq, Option.bind_eq_some_iff] at h
  obtain ⟨nExpiry, hexp, h⟩ := h
  split at h
  · next hlive => exact ⟨nExpiry, hexp, hlive, h⟩
  · cases h

/-- Entries up to a height say the same of `_key` at every height above, until the expiry. -/
theorem owner_later {data : NameDataValues} {height height' : Int}
    (hle : toUint64 height ≤ toUint64 height') (hdata : ∀ it ∈ data, it.1.toNat ≤ toUint64 height) :
    owner data height' = owner data height ∨
      owner data height' = none ∧ ∃ nExpiry, expiry data = some nExpiry ∧
        nExpiry ≤ toUint64 height' := by
  have hentries : entryValue data height' [] keyEntry = entryValue data height [] keyEntry := by
    have hfilter : data.filter (decides height' [] keyEntry) =
        data.filter (decides height [] keyEntry) := by
      refine List.filter_congr fun it hit => ?_
      have hheight := hdata it hit
      simp [decides, hheight, hheight.trans hle]
    rw [entryValue, lastWhere, hfilter, entryValue, lastWhere]
  rw [owner_eq, owner_eq, hentries]
  cases expiry data with
  | none => exact .inl rfl
  | some nExpiry =>
    simp only [Option.bind_some]
    by_cases hlive : nExpiry > toUint64 height'
    · rw [if_pos hlive, if_pos (by omega)]
      exact .inl rfl
    · rw [if_neg hlive]
      exact .inr ⟨rfl, nExpiry, rfl, by omega⟩

section Added

variable {data : NameDataValues} {it : UInt64 × NameDataValue} {height : Int}

theorem entryValue_added_of_ne (h : it.2.key ≠ keyEntry) :
    entryValue (added data it) height [] keyEntry = entryValue data height [] keyEntry := by
  rw [entryValue, lastWhere_added_of_neg, entryValue]
  · simp [decides, h]
  · simp [decides, keyEntry]

theorem entryValue_added_key (h : it.2.key = keyEntry) (hheight : it.1.toNat ≤ toUint64 height) :
    entryValue (added data it) height [] keyEntry = said it.2 := by
  rw [entryValue, lastWhere_added_of_pos, Option.bind_some]
  simp [decides, concerns, h, hheight, keyEntry]

/-- **An entry of another key** leaves the owner as it is. -/
theorem owner_added_of_ne (h : it.2.key ≠ keyEntry) (h' : it.2.key ≠ expiryEntry) :
    owner (added data it) height = owner data height := by
  rw [owner_eq, owner_eq, expiry_added, entryValue_added_of_ne h]
  simp [h']

/-- **An entry of `_key`** sets the owner, while the name has not expired. -/
theorem owner_added_key (it : UInt64 × NameDataValue) (h : it.2.key = keyEntry)
    (hheight : it.1.toNat ≤ toUint64 height) :
    owner (added data it) height = (expiry data).bind fun nExpiry =>
      if nExpiry > toUint64 height then said it.2 else none := by
  have hne : keyEntry ≠ expiryEntry := by decide
  rw [owner_eq, expiry_added, entryValue_added_key h hheight]
  simp [h, hne]

/-- **An entry of `_expiry`** keeps the owner or removes it. -/
theorem owner_added_expiry (h : it.2.key = expiryEntry) {n : Nat}
    (hvalue : it.2.value = decimal n) :
    owner (added data it) height = (expiry data).bind fun _ =>
      if toUint64 height < n ∧ n < 2 ^ 63 then entryValue data height [] keyEntry else none := by
  have hne : it.2.key ≠ keyEntry := by
    rw [h]
    decide
  rw [owner_eq, expiry_added, entryValue_added_of_ne hne, expiryOf_decimal hvalue]
  cases expiry data with
  | none => rfl
  | some nExpiry =>
    rw [Option.bind_some, if_pos h]
    by_cases hn : n < 2 ^ 63
    · rw [if_pos hn]
      exact if_congr ⟨fun h => ⟨h, hn⟩, fun h => h.1⟩ rfl rfl
    · rw [if_neg hn, if_neg fun h => hn h.2]
      rfl

end Added

end DotNav

end Navcoin
