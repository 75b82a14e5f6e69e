import Navcoin.Dotnav.Names

/-!
# What the entries of a name say

`Consolidate` and `ConsolidateSubdomains` fold over the list of entries; here each lookup in their
results is read off the list: the last entry that counts decides.

* `find?_consolidate`: the value of a key at a height;
* `find?_consolidateSubdomains`: the same for the keys of a subdomain;
* `expiry_eq`: the expiry is that of the last `_expiry` entry;
* `consolidate_congr`, `consolidateSubdomains_congr`: lists with the same last entries say the same.
-/

namespace Navcoin.DotNav

variable {data : NameDataValues} {ret : List (Bytes × List (Bytes × Bytes))} {subdomain : Bytes}

/-- The last entry that satisfies a condition. -/
def lastWhere (p : UInt64 × NameDataValue → Bool) (data : NameDataValues) :
    Option NameDataValue :=
  (data.filter p).getLast?.map Prod.snd

theorem lastWhere_append_of_pos {p : UInt64 × NameDataValue → Bool} {it : UInt64 × NameDataValue}
    (h : p it = true) (data : NameDataValues) : lastWhere p (data ++ [it]) = some it.2 := by
  simp [lastWhere, List.filter_append, h]

theorem lastWhere_append_of_neg {p : UInt64 × NameDataValue → Bool} {it : UInt64 × NameDataValue}
    (h : p it = false) (data : NameDataValues) :
    lastWhere p (data ++ [it]) = lastWhere p data := by
  simp [lastWhere, List.filter_append, h]

/-- A fold in which every entry either leaves a lookup alone or decides it. -/
theorem foldl_lookup {β γ : Type} (f : β → UInt64 × NameDataValue → β) (look : β → γ)
    (p : UInt64 × NameDataValue → Bool) (g : NameDataValue → γ) (b : β)
    (hpos : ∀ b it, p it = true → look (f b it) = g it.2)
    (hneg : ∀ b it, p it = false → look (f b it) = look b) (data : NameDataValues) :
    look (data.foldl f b) = ((lastWhere p data).map g).getD (look b) := by
  induction data using List.reverseRecOn with
  | nil => rfl
  | append_singleton data it ih =>
    rw [List.foldl_append, List.foldl_cons, List.foldl_nil]
    cases hp : p it with
    | true => rw [hpos _ _ hp, lastWhere_append_of_pos hp, Option.map_some, Option.getD_some]
    | false => rw [hneg _ _ hp, ih, lastWhere_append_of_neg hp]

/-! ## The domain -/

/-- The entry is about `key`, and counts at a height for a subdomain. -/
def decides (height : Int) (subdomain key : Bytes) (it : UInt64 × NameDataValue) : Bool :=
  it.1.toNat ≤ toUint64 height && concerns subdomain it.2 && it.2.key == key

/-- What an entry says of its key: an empty value removes it. -/
def said (d : NameDataValue) : Option Bytes := if d.value ≠ [] then some d.value else none

theorem find?_applyEntry (ret : List (Bytes × Bytes)) (d : NameDataValue) (key : Bytes) :
    AssocMap.find? key (applyEntry ret d) =
      if d.key = key then said d else AssocMap.find? key ret := by
  unfold applyEntry said
  by_cases hkey : d.key = key
  · subst hkey
    split
    · rw [AssocMap.find?_assign, if_pos rfl]
    · rw [AssocMap.find?_erase, if_pos rfl]
  · split
    · rw [AssocMap.find?_assign, if_neg (Ne.symm hkey)]
    · rw [AssocMap.find?_erase, if_neg (Ne.symm hkey)]

/-- What a list says of a key while the name has not expired. -/
def entryValue (data : NameDataValues) (height : Int) (subdomain key : Bytes) : Option Bytes :=
  (lastWhere (decides height subdomain key) data).bind said

/-- **The value of a key.** -/
theorem find?_consolidate {nExpiry : Nat} (h : expiry data = some nExpiry) (height : Int)
    (subdomain key : Bytes) :
    (consolidate data height subdomain).map (AssocMap.find? key) =
      some (if nExpiry > toUint64 height then entryValue data height subdomain key else none) := by
  by_cases hlive : nExpiry > toUint64 height
  · rw [consolidate, h, if_pos hlive]
    refine congrArg some ((foldl_lookup _ _ (decides height subdomain key) said [] ?_ ?_ data).trans
      ?_)
    · intro ret it hit
      simp only [decides, Bool.and_eq_true, beq_iff_eq] at hit
      rw [if_pos (by simp [hlive, hit]), find?_applyEntry, if_pos hit.2]
    · intro ret it hit
      split
      · next hcounts =>
        rw [find?_applyEntry, if_neg]
        rintro rfl
        simp [decides] at hit hcounts
        rw [hit hcounts.1.2] at hcounts
        cases hcounts.2
      · rfl
    · unfold entryValue
      cases lastWhere (decides height subdomain key) data <;> rfl
  · rw [consolidate_eq_nil_of_expired h (by omega), if_neg hlive]
    rfl

/-! ## Subdomains -/

/-- One entry of the loop of `ConsolidateSubdomains`; an empty value is passed over. -/
def applySubdomain (ret : List (Bytes × List (Bytes × Bytes))) (d : NameDataValue) :
    List (Bytes × List (Bytes × Bytes)) :=
  if d.value ≠ [] then
    AssocMap.assign d.subdomain
      (AssocMap.assign d.key d.value ((AssocMap.find? d.subdomain ret).getD [])) ret
  else ret

def consolidateSubdomains (data : NameDataValues) (height : Int) :
    Option (List (Bytes × List (Bytes × Bytes))) :=
  (expiry data).map fun nExpiry => data.foldl (fun ret it =>
    if nExpiry > toUint64 height && it.1.toNat ≤ toUint64 height && it.2.subdomain ≠ [] then
      applySubdomain ret it.2 else ret) []

/-- `ret[subdomain][key]`, without making an entry. -/
def lookupSubdomain (subdomain key : Bytes) (ret : List (Bytes × List (Bytes × Bytes))) :
    Option Bytes :=
  (AssocMap.find? subdomain ret).bind (AssocMap.find? key)

/-- The entry gives a value to a key of the subdomain. -/
def decidesSubdomain (height : Int) (subdomain key : Bytes) (it : UInt64 × NameDataValue) : Bool :=
  it.1.toNat ≤ toUint64 height && it.2.subdomain == subdomain && it.2.key == key &&
    it.2.value ≠ []

theorem lookupSubdomain_applySubdomain (ret : List (Bytes × List (Bytes × Bytes)))
    {d : NameDataValue} (hd : d.value ≠ []) (subdomain key : Bytes) :
    lookupSubdomain subdomain key (applySubdomain ret d) =
      if d.subdomain = subdomain ∧ d.key = key then some d.value
      else lookupSubdomain subdomain key ret := by
  unfold applySubdomain lookupSubdomain
  rw [if_pos hd, AssocMap.find?_assign]
  by_cases hsub : d.subdomain = subdomain
  · subst hsub
    rw [if_pos rfl, Option.bind_some, AssocMap.find?_assign]
    by_cases hkey : d.key = key
    · subst hkey
      simp
    · rw [if_neg (Ne.symm hkey), if_neg (fun h => hkey h.2)]
      cases AssocMap.find? d.subdomain ret <;> rfl
  · rw [if_neg (Ne.symm hsub), if_neg (fun h => hsub h.1)]

/-- What a list says of a key of a subdomain while the name has not expired. -/
def subdomainValue (data : NameDataValues) (height : Int) (subdomain key : Bytes) :
    Option Bytes :=
  (lastWhere (decidesSubdomain height subdomain key) data).map NameDataValue.value

/-- **The value of a key of a subdomain.** -/
theorem find?_consolidateSubdomains {nExpiry : Nat} (h : expiry data = some nExpiry)
    (height : Int) (hsub : subdomain ≠ []) (key : Bytes) :
    (consolidateSubdomains data height).map (lookupSubdomain subdomain key) =
      some (if nExpiry > toUint64 height then subdomainValue data height subdomain key
        else none) := by
  rw [consolidateSubdomains, h]
  by_cases hlive : nExpiry > toUint64 height
  · rw [if_pos hlive]
    refine congrArg some ((foldl_lookup _ _ (decidesSubdomain height subdomain key)
      (fun d => some d.value) [] ?_ ?_ data).trans ?_)
    · intro ret it hit
      simp only [decidesSubdomain, Bool.and_eq_true, beq_iff_eq, decide_eq_true_eq] at hit
      obtain ⟨⟨⟨hheight, rfl⟩, rfl⟩, hvalue⟩ := hit
      rw [if_pos (by simp [hlive, hheight, hsub]), lookupSubdomain_applySubdomain ret hvalue,
        if_pos ⟨rfl, rfl⟩]
    · intro ret it hit
      split
      · next hcounts =>
        by_cases hvalue : it.2.value = []
        · rw [applySubdomain, if_neg (not_not.mpr hvalue)]
        · rw [lookupSubdomain_applySubdomain ret hvalue, if_neg]
          rintro ⟨rfl, rfl⟩
          simp [decidesSubdomain] at hit hcounts
          exact hvalue (hit hcounts.1.2)
      · rfl
    · unfold subdomainValue
      cases lastWhere (decidesSubdomain height subdomain key) data <;> rfl
  · rw [if_neg hlive]
    refine congrArg some (?_ : lookupSubdomain subdomain key (data.foldl _ []) = none)
    refine (foldl_lookup _ _ (fun _ => false) (fun _ => none) [] (fun _ _ h => by cases h)
      (fun ret it _ => ?_) data).trans ?_
    · rw [if_neg (by simp [hlive])]
    · simp [lastWhere, lookupSubdomain, AssocMap.find?]

/-! ## The expiry -/

/-- The entry is an expiry. -/
def isExpiry (it : UInt64 × NameDataValue) : Bool := it.2.key == expiryEntry

/-- The expiry of an entry, if its value can be read. -/
def expiryOf (d : NameDataValue) : Option Nat := (stoll d.value).map toUint64

theorem expiry_append (data : NameDataValues) (it : UInt64 × NameDataValue) :
    expiry (data ++ [it]) =
      (expiry data).bind fun nExpiry =>
        if it.2.key = expiryEntry then expiryOf it.2 else some nExpiry := by
  unfold expiry expiryOf
  rw [List.foldlM_append]
  generalize List.foldlM (m := Option) _ _ data = r
  cases r with
  | none => rfl
  | some n => simp [List.foldlM_cons]

/-- **The expiry of a name** is that of its last expiry entry, if all of them can be read. -/
theorem expiry_eq (data : NameDataValues) :
    expiry data =
      if data.all (fun it => !isExpiry it || (expiryOf it.2).isSome) then
        some (((lastWhere isExpiry data).bind expiryOf).getD (2 ^ 64 - 1))
      else none := by
  induction data using List.reverseRecOn with
  | nil => rfl
  | append_singleton data it ih =>
    rw [expiry_append, ih, List.all_append]
    cases hall : data.all (fun it => !isExpiry it || (expiryOf it.2).isSome) with
    | false => simp
    | true =>
      by_cases hkey : it.2.key = expiryEntry
      · have hp : isExpiry it = true := by simp [isExpiry, hkey]
        rw [lastWhere_append_of_pos hp]
        cases hval : expiryOf it.2 <;> simp [hp, hkey, hval]
      · have hp : isExpiry it = false := by simp [isExpiry, hkey]
        simp [lastWhere_append_of_neg hp, hp, hkey]

/-! ## Lists that say the same -/

theorem sorted_applyEntry {ret : List (Bytes × Bytes)} (h : AssocMap.Sorted ret)
    (d : NameDataValue) : AssocMap.Sorted (applyEntry ret d) := by
  unfold applyEntry
  split
  · exact AssocMap.sorted_assign h _ _
  · exact AssocMap.sorted_erase h _

variable {height : Int}

theorem sorted_consolidate {ret : List (Bytes × Bytes)}
    (h : consolidate data height subdomain = some ret) : AssocMap.Sorted ret := by
  obtain ⟨nExpiry, -, rfl⟩ := Option.map_eq_some_iff.mp h
  refine List.foldlRecOn data _ .nil fun ret hret it _ => ?_
  split
  · exact sorted_applyEntry hret it.2
  · exact hret

/-- Lists with the same expiry and the same last entries have the same consolidation. -/
theorem consolidate_congr {data' : NameDataValues} (hexpiry : expiry data' = expiry data)
    (hvalue : ∀ key, entryValue data' height subdomain key = entryValue data height subdomain key) :
    consolidate data' height subdomain = consolidate data height subdomain := by
  cases hexp : expiry data with
  | none =>
    rw [consolidate, consolidate, hexpiry, hexp]
    rfl
  | some nExpiry =>
    have hfind := fun key => find?_consolidate hexp height subdomain key
    have hfind' := fun key => find?_consolidate (hexpiry.trans hexp) height subdomain key
    cases hret : consolidate data height subdomain with
    | none => simpa [hret] using hfind []
    | some ret =>
      cases hret' : consolidate data' height subdomain with
      | none => simpa [hret'] using hfind' []
      | some ret' =>
        refine congrArg some (AssocMap.eq_of_find? (sorted_consolidate hret')
          (sorted_consolidate hret) fun key => ?_)
        have hkey := hfind key
        have hkey' := hfind' key
        rw [hret, Option.map_some, Option.some_inj] at hkey
        rw [hret', Option.map_some, Option.some_inj] at hkey'
        rw [hkey, hkey', hvalue key]

/-- The maps of `ConsolidateSubdomains`: in order, and none of them empty. -/
structure Nested (ret : List (Bytes × List (Bytes × Bytes))) : Prop where
  sorted : AssocMap.Sorted ret
  inner : ∀ e ∈ ret, e.1 ≠ [] ∧ AssocMap.Sorted e.2 ∧ e.2 ≠ []

theorem Nested.find? (h : Nested ret) {m : List (Bytes × Bytes)}
    (hm : AssocMap.find? subdomain ret = some m) : subdomain ≠ [] ∧ AssocMap.Sorted m ∧ m ≠ [] := by
  obtain ⟨e, he, rfl⟩ := Option.map_eq_some_iff.mp hm
  have hkey := List.find?_some he
  simp only [decide_eq_true_eq] at hkey
  have hinner := h.inner e (List.mem_of_find?_eq_some he)
  rwa [hkey] at hinner

theorem nested_applySubdomain (h : Nested ret) {d : NameDataValue} (hd : d.subdomain ≠ []) :
    Nested (applySubdomain ret d) := by
  unfold applySubdomain
  split
  · refine ⟨AssocMap.sorted_assign h.sorted _ _, fun e he => ?_⟩
    rcases (AssocMap.mem_assign _ _ _ e).mp he with rfl | ⟨hmem, -⟩
    · refine ⟨hd, AssocMap.sorted_assign ?_ _ _, AssocMap.assign_ne_nil _ _ _⟩
      cases hfind : AssocMap.find? d.subdomain ret with
      | none => exact .nil
      | some m => exact (h.find? hfind).2.1
    · exact h.inner e hmem
  · exact h

theorem nested_consolidateSubdomains
    (h : consolidateSubdomains data height = some ret) : Nested ret := by
  obtain ⟨nExpiry, -, rfl⟩ := Option.map_eq_some_iff.mp h
  refine List.foldlRecOn data _ ⟨.nil, fun e he => by cases he⟩ fun ret hret it _ => ?_
  split
  · next hcounts =>
    simp only [Bool.and_eq_true, decide_eq_true_eq] at hcounts
    exact nested_applySubdomain hret hcounts.2
  · exact hret

/-- Such maps are determined by their lookups. -/
theorem Nested.ext {ret' : List (Bytes × List (Bytes × Bytes))} (h : Nested ret) (h' : Nested ret')
    (heq : ∀ subdomain key, subdomain ≠ [] →
      lookupSubdomain subdomain key ret = lookupSubdomain subdomain key ret') : ret = ret' := by
  have hnone : ∀ {ret ret' : List (Bytes × List (Bytes × Bytes))} {subdomain : Bytes}
      {m : List (Bytes × Bytes)}, Nested ret → AssocMap.find? subdomain ret = some m →
      (∀ key, lookupSubdomain subdomain key ret = lookupSubdomain subdomain key ret') →
      AssocMap.find? subdomain ret' ≠ none := by
    intro ret ret' subdomain m hret hm hlook hno
    obtain ⟨-, -, hne⟩ := hret.find? hm
    obtain ⟨e, l, rfl⟩ := List.exists_cons_of_ne_nil hne
    have hkey := hlook e.1
    simp only [lookupSubdomain, hm, hno, Option.bind_some, Option.bind_none] at hkey
    simp [AssocMap.find?] at hkey
  refine AssocMap.eq_of_find? h.sorted h'.sorted fun subdomain => ?_
  cases hm : AssocMap.find? subdomain ret with
  | none =>
    cases hm' : AssocMap.find? subdomain ret' with
    | none => rfl
    | some m' =>
      have hsub := (h'.find? hm').1
      exact absurd hm (hnone h' hm' fun key => (heq subdomain key hsub).symm)
  | some m =>
    obtain ⟨hsub, hsorted, -⟩ := h.find? hm
    cases hm' : AssocMap.find? subdomain ret' with
    | none => exact absurd hm' (hnone h hm fun key => heq subdomain key hsub)
    | some m' =>
      refine congrArg some (AssocMap.eq_of_find? hsorted (h'.find? hm').2.1 fun key => ?_)
      have hkey := heq subdomain key hsub
      simpa [lookupSubdomain, hm, hm'] using hkey

theorem consolidateSubdomains_congr {data' : NameDataValues} (hexpiry : expiry data' = expiry data)
    (hvalue : ∀ subdomain key, subdomain ≠ [] →
      subdomainValue data' height subdomain key = subdomainValue data height subdomain key) :
    consolidateSubdomains data' height = consolidateSubdomains data height := by
  cases hexp : expiry data with
  | none =>
    rw [consolidateSubdomains, consolidateSubdomains, hexpiry, hexp]
    rfl
  | some nExpiry =>
    have hret : consolidateSubdomains data height =
        some ((consolidateSubdomains data height).getD []) := by
      rw [consolidateSubdomains, hexp]
      rfl
    have hret' : consolidateSubdomains data' height =
        some ((consolidateSubdomains data' height).getD []) := by
      rw [consolidateSubdomains, hexpiry, hexp]
      rfl
    rw [hret, hret']
    refine congrArg some ((nested_consolidateSubdomains hret').ext
      (nested_consolidateSubdomains hret) fun subdomain key hsub => ?_)
    have hkey := find?_consolidateSubdomains hexp height hsub key
    have hkey' := find?_consolidateSubdomains (hexpiry.trans hexp) height hsub key
    rw [hret, Option.map_some, Option.some_inj] at hkey
    rw [hret', Option.map_some, Option.some_inj] at hkey'
    rw [hkey, hkey', hvalue subdomain key hsub]

end Navcoin.DotNav
