import Navcoin.Dotnav.Owners

/-!
# What of the past a name shows

The entries of a name are never deleted, and the last one of a key decides, whatever its age.

* `onlySince_of_fresh`, `fresh_of_onlySince`: a name shows nothing from before a height if and only
  if no last entry from before it has a value;
* `Fresh.later`: entries that come later keep it so.
-/

namespace Navcoin.DotNav

variable {p : UInt64 × NameDataValue → Bool}

/-- The last entry that satisfies a condition, with its height. -/
def lastEntry (p : UInt64 × NameDataValue → Bool) (data : NameDataValues) :
    Option (UInt64 × NameDataValue) :=
  (data.filter p).getLast?

theorem lastWhere_eq (p : UInt64 × NameDataValue → Bool) (data : NameDataValues) :
    lastWhere p data = (lastEntry p data).map Prod.snd := rfl

theorem lastEntry_append (p : UInt64 × NameDataValue → Bool) (data data' : NameDataValues) :
    lastEntry p (data ++ data') = (lastEntry p data').or (lastEntry p data) := by
  rw [lastEntry, List.filter_append, List.getLast?_append, lastEntry, lastEntry]

theorem lastEntry_eq_none_iff {data : NameDataValues} :
    lastEntry p data = none ↔ ∀ it ∈ data, p it = false := by
  simp [lastEntry]

theorem mem_of_lastEntry {data : NameDataValues} {it : UInt64 × NameDataValue}
    (h : lastEntry p data = some it) : it ∈ data ∧ p it = true :=
  List.mem_filter.mp (List.mem_of_getLast? h)

theorem lastEntry_congr {q : UInt64 × NameDataValue → Bool} {data : NameDataValues}
    (h : ∀ it ∈ data, p it = q it) : lastEntry p data = lastEntry q data := by
  rw [lastEntry, List.filter_congr h, lastEntry]

/-- The heights of the entries do not go down. -/
def Ascending (data : NameDataValues) : Prop := data.Pairwise fun a b => a.1.toNat ≤ b.1.toNat

/-- In such a list the last entry is the youngest. -/
theorem Ascending.le_lastEntry {data : NameDataValues} (h : Ascending data)
    {it it' : UInt64 × NameDataValue} (hlast : lastEntry p data = some it) (hmem : it' ∈ data)
    (hp : p it' = true) :
    it'.1.toNat ≤ it.1.toNat := by
  obtain ⟨init, hinit⟩ := List.getLast?_eq_some_iff.mp hlast
  have hsorted := h.filter p
  have hmem' := List.mem_filter.mpr ⟨hmem, hp⟩
  rw [hinit] at hsorted hmem'
  rcases List.mem_append.mp hmem' with hold | hlast
  · exact (List.pairwise_append.mp hsorted).2.2 it' hold it List.mem_cons_self
  · rw [List.mem_singleton.mp hlast]

theorem Ascending.append {data data' : NameDataValues} (h : Ascending data) {n : Nat}
    (hold : ∀ it ∈ data, it.1.toNat ≤ n) (hnew : ∀ it ∈ data', it.1.toNat = n) :
    Ascending (data ++ data') := by
  refine List.pairwise_append.mpr ⟨h, ?_, ?_⟩
  · refine List.pairwise_of_forall_mem_list fun a ha b hb => ?_
    rw [hnew a ha, hnew b hb]
  · intro a ha b hb
    rw [hnew b hb]
    exact hold a ha

/-! ## Nothing from before a height -/

/-- What `Consolidate` and `ConsolidateSubdomains` return was written at height `h` or later. -/
structure OnlySince (h : Nat) (data : NameDataValues) (height : Int) : Prop where
  domain : ∀ subdomain key value,
    (consolidate data height subdomain).bind (AssocMap.find? key) = some value →
      ∃ it ∈ data, h ≤ it.1.toNat ∧ decides height subdomain key it = true ∧ it.2.value = value
  subdomains : ∀ subdomain key value,
    (consolidateSubdomains data height).bind (lookupSubdomain subdomain key) = some value →
      ∃ it ∈ data, h ≤ it.1.toNat ∧ decidesSubdomain height subdomain key it = true ∧
        it.2.value = value

/-- No last entry from before height `h` has a value. -/
structure Fresh (h : Nat) (data : NameDataValues) (height : Int) : Prop where
  domain : ∀ subdomain key it, lastEntry (decides height subdomain key) data = some it →
    it.2.value ≠ [] → h ≤ it.1.toNat
  subdomains : ∀ subdomain key it, subdomain ≠ [] →
    lastEntry (decidesSubdomain height subdomain key) data = some it → h ≤ it.1.toNat

section Visible

variable {data : NameDataValues} {height : Int}

theorem bind_find?_consolidate (data : NameDataValues) (height : Int) (subdomain key : Bytes) :
    (consolidate data height subdomain).bind (AssocMap.find? key) =
      (expiry data).bind fun nExpiry =>
        if nExpiry > toUint64 height then entryValue data height subdomain key else none := by
  cases hexp : expiry data with
  | none => simp [consolidate, hexp]
  | some nExpiry =>
    obtain ⟨ret, hret, hvalue⟩ :=
      Option.map_eq_some_iff.mp (find?_consolidate hexp height subdomain key)
    rw [hret, Option.bind_some, hvalue, Option.bind_some]

theorem bind_lookup_consolidateSubdomains (data : NameDataValues) (height : Int)
    {subdomain : Bytes} (hsub : subdomain ≠ []) (key : Bytes) :
    (consolidateSubdomains data height).bind (lookupSubdomain subdomain key) =
      (expiry data).bind fun nExpiry =>
        if nExpiry > toUint64 height then subdomainValue data height subdomain key else none := by
  cases hexp : expiry data with
  | none => simp [consolidateSubdomains, hexp]
  | some nExpiry =>
    obtain ⟨ret, hret, hvalue⟩ :=
      Option.map_eq_some_iff.mp (find?_consolidateSubdomains hexp height hsub key)
    rw [hret, Option.bind_some, hvalue, Option.bind_some]

/-- There is no subdomain without a name. -/
theorem lookup_nil_consolidateSubdomains (data : NameDataValues) (height : Int) (key : Bytes) :
    (consolidateSubdomains data height).bind (lookupSubdomain [] key) = none := by
  cases hret : consolidateSubdomains data height with
  | none => rfl
  | some ret =>
    rw [Option.bind_some, lookupSubdomain]
    cases hm : AssocMap.find? ([] : Bytes) ret with
    | none => rfl
    | some m => exact absurd rfl ((nested_consolidateSubdomains hret).find? hm).1

theorem entryValue_eq_some_iff {subdomain key value : Bytes} :
    entryValue data height subdomain key = some value ↔
      ∃ it, lastEntry (decides height subdomain key) data = some it ∧ it.2.value ≠ [] ∧
        it.2.value = value := by
  rw [entryValue, lastWhere_eq]
  cases lastEntry (decides height subdomain key) data with
  | none => simp
  | some it =>
    by_cases hvalue : it.2.value = []
    · simp [said, hvalue]
    · simp [said, hvalue]

theorem onlySince_of_fresh {h : Nat} (hfresh : Fresh h data height) :
    OnlySince h data height := by
  constructor
  · intro subdomain key value hshown
    rw [bind_find?_consolidate, Option.bind_eq_some_iff] at hshown
    obtain ⟨nExpiry, -, hshown⟩ := hshown
    split at hshown
    · obtain ⟨it, hlast, hne, hvalue⟩ := entryValue_eq_some_iff.mp hshown
      obtain ⟨hmem, hdecides⟩ := mem_of_lastEntry hlast
      exact ⟨it, hmem, hfresh.domain subdomain key it hlast hne, hdecides, hvalue⟩
    · cases hshown
  · intro subdomain key value hshown
    by_cases hsub : subdomain = []
    · rw [hsub, lookup_nil_consolidateSubdomains] at hshown
      cases hshown
    · rw [bind_lookup_consolidateSubdomains data height hsub, Option.bind_eq_some_iff] at hshown
      obtain ⟨nExpiry, -, hshown⟩ := hshown
      split at hshown
      · rw [subdomainValue, lastWhere_eq, Option.map_map, Option.map_eq_some_iff] at hshown
        obtain ⟨it, hlast, hvalue⟩ := hshown
        obtain ⟨hmem, hdecides⟩ := mem_of_lastEntry hlast
        exact ⟨it, hmem, hfresh.subdomains subdomain key it hsub hlast, hdecides, hvalue⟩
      · cases hshown

theorem fresh_of_onlySince {h : Nat} (hsince : OnlySince h data height) (hsorted : Ascending data)
    {nExpiry : Nat} (hexp : expiry data = some nExpiry) (hlive : toUint64 height < nExpiry) :
    Fresh h data height := by
  constructor
  · intro subdomain key it hlast hne
    obtain ⟨it', hmem, hle, hdecides, -⟩ := hsince.domain subdomain key it.2.value (by
      rw [bind_find?_consolidate, hexp, Option.bind_some, if_pos hlive]
      exact entryValue_eq_some_iff.mpr ⟨it, hlast, hne, rfl⟩)
    exact hle.trans (hsorted.le_lastEntry hlast hmem hdecides)
  · intro subdomain key it hsub hlast
    obtain ⟨it', hmem, hle, hdecides, -⟩ := hsince.subdomains subdomain key it.2.value (by
      rw [bind_lookup_consolidateSubdomains data height hsub, hexp, Option.bind_some,
        if_pos hlive, subdomainValue, lastWhere_eq, hlast]
      rfl)
    exact hle.trans (hsorted.le_lastEntry hlast hmem hdecides)

/-- **Entries that come later** show nothing of the past. -/
theorem Fresh.later {h : Nat} {height' : Int} {extra : NameDataValues}
    (hfresh : Fresh h data height) (hdata : ∀ it ∈ data, it.1.toNat ≤ toUint64 height)
    (hle : toUint64 height ≤ toUint64 height') (hextra : ∀ it ∈ extra, h ≤ it.1.toNat) :
    Fresh h (data ++ extra) height' := by
  -- the condition on the height of an entry plays no part in the old list
  have hcases : ∀ {p p' : UInt64 × NameDataValue → Bool} {it : UInt64 × NameDataValue},
      (∀ it ∈ data, p' it = p it) → lastEntry p' (data ++ extra) = some it →
      h ≤ it.1.toNat ∨ lastEntry p data = some it := by
    intro p p' it hsame hlast
    rw [lastEntry_append, Option.or_eq_some_iff, lastEntry_congr hsame] at hlast
    rcases hlast with hnew | ⟨-, hold⟩
    · exact .inl (hextra it (mem_of_lastEntry hnew).1)
    · exact .inr hold
  constructor
  · intro subdomain key it hlast hne
    rcases hcases (p := decides height subdomain key) (fun it hit => by
      have hheight := hdata it hit
      simp [decides, hheight, hheight.trans hle]) hlast with hnew | hold
    · exact hnew
    · exact hfresh.domain subdomain key it hold hne
  · intro subdomain key it hsub hlast
    rcases hcases (p := decidesSubdomain height subdomain key) (fun it hit => by
      have hheight := hdata it hit
      simp [decidesSubdomain, hheight, hheight.trans hle]) hlast with hnew | hold
    · exact hnew
    · exact hfresh.subdomains subdomain key it hsub hold

end Visible

end Navcoin.DotNav
