import Navcoin.Cache.Objects
import Navcoin.Dotnav.Entries

/-!
# Name data in the database

`AddNameData` appends to a list; the database keeps a row for each height and key, and reads the
rows back in the order of their keys.

* `lastWhere_readBack`: what a list says is decided by the same entry after it was read back, if
  the rows are written in order and none of them replaces an entry that still matters;
* `nameData_reads_back`: the calls of `AddNameData`, a flush, and `GetNameData`.
-/

namespace Navcoin

open ObjectCache DotNav

variable {G : Type}
variable {data : NameDataValues} {it : UInt64 × NameDataValue}

/-! ## Rows -/

/-- The row of an entry. -/
def nameRow (c : Crypto G) (it : UInt64 × NameDataValue) : Nat :=
  nameDataRow it.1 (nameKeyHash c it.2.key)

/-- The rows that a list leaves in an empty database. -/
def nameRows (c : Crypto G) (data : NameDataValues) : ListRows NameDataValue :=
  data.foldl (putEntry NameDataValue.isNull
    (fun height d => nameDataRow height (nameKeyHash c d.key)) fun height => nameDataRow height 0) ∅

/-- `GetNameData` on the database after the list was written. -/
def readBack (c : Crypto G) (data : NameDataValues) : NameDataValues :=
  readRows nameDataHeight (nameRows c data).entries

/-- An entry that takes the row of `o` leaves nothing else to be read. -/
structure NameDataValue.Replaces (d o : NameDataValue) : Prop where
  key : o.key = d.key
  domain : o.subdomain = d.subdomain ∨ o.key.take 1 = [0x5f]
  subdomains : o.subdomain = [] ∨ o.value = [] ∨ (o.subdomain = d.subdomain ∧ d.value ≠ [])
  expiry : o.key = expiryEntry → (expiryOf o).isSome

/-- An entry can be added to a list: its row has a full key, it is not older than the entries of
the same key, and the entry whose row it takes does not matter any more. -/
structure Storable (c : Crypto G) (data : NameDataValues) (it : UInt64 × NameDataValue) :
    Prop where
  key : nameKeyHash c it.2.key ≠ 0
  height : it.1.toNat < 2 ^ 32
  later : ∀ o ∈ data, o.2.key = it.2.key → o.1 ≤ it.1
  row : ∀ o ∈ data, nameRow c o = nameRow c it → it.2.Replaces o.2

/-- Every entry of a list could be added to those before it. -/
def Storables (c : Crypto G) (data : NameDataValues) : Prop :=
  ∀ pre it post, data = pre ++ it :: post → Storable c pre it

variable {c : Crypto G}

theorem Storables.of_append {post : NameDataValues} (h : Storables c (data ++ post)) :
    Storables c data := by
  intro pre it post' heq
  refine h pre it (post' ++ post) ?_
  rw [heq, List.append_assoc, List.cons_append]

theorem Storables.last (h : Storables c (data ++ [it])) : Storable c data it := h data it [] rfl

theorem Storables.append (h : Storables c data) (hit : Storable c data it) :
    Storables c (data ++ [it]) := by
  intro pre it' post heq
  rcases List.eq_nil_or_concat post with rfl | ⟨post', last, rfl⟩
  · obtain ⟨rfl, hlast⟩ := List.append_inj' heq rfl
    cases hlast
    exact hit
  · rw [List.concat_eq_append, ← List.cons_append, ← List.append_assoc] at heq
    obtain ⟨rfl, -⟩ := List.append_inj' heq rfl
    exact h pre it' post' rfl

theorem Storable.isNull (h : Storable c data it) : it.2.isNull = false := by
  have hkey : it.2.key ≠ [] := by
    intro hnil
    exact h.key (by simp [nameKeyHash, hnil])
  simp [NameDataValue.isNull, hkey]

theorem nameRows_append (h : it.2.isNull = false) :
    nameRows c (data ++ [it]) = (nameRows c data).assign (nameRow c it, it.2) := by
  unfold nameRows
  rw [List.foldl_append, List.foldl_cons, putEntry, h]
  rfl

theorem nameDataHeight_nameRow (hkey : nameKeyHash c it.2.key ≠ 0) (hheight : it.1.toNat < 2 ^ 32) :
    nameDataHeight (nameRow c it) = some it.1 := by
  unfold nameDataHeight nameRow nameDataRow
  rw [if_neg hkey, Nat.mod_eq_of_lt hheight, if_neg (by omega)]
  have hdiv : (it.1.toNat * (2 ^ 32 + 1) +
      ((nameKeyHash c it.2.key).toNat % 2 ^ 32 + 1)) / (2 ^ 32 + 1) = it.1.toNat := by omega
  rw [hdiv, UInt64.ofNat_toNat]

/-- Rows of one key are in the order of their heights. -/
theorem nameRow_le {o : UInt64 × NameDataValue} (hkey : o.2.key = it.2.key)
    (hle : o.1 ≤ it.1) (hheight : it.1.toNat < 2 ^ 32) : nameRow c o ≤ nameRow c it := by
  have hle' : o.1.toNat ≤ it.1.toNat := UInt64.le_iff_toNat_le.mp hle
  unfold nameRow nameDataRow
  rw [hkey]
  omega

/-- Entries that share a row are of one height. -/
theorem height_eq_of_nameRow {o : UInt64 × NameDataValue}
    (h : nameRow c o = nameRow c it) (hokey : nameKeyHash c o.2.key ≠ 0)
    (hkey : nameKeyHash c it.2.key ≠ 0) (hoheight : o.1.toNat < 2 ^ 32)
    (hheight : it.1.toNat < 2 ^ 32) : o.1 = it.1 := by
  have ho := nameDataHeight_nameRow hokey hoheight
  rw [h, nameDataHeight_nameRow hkey hheight] at ho
  exact (Option.some_inj.mp ho).symm

/-! ## The list that is read back -/

/-- Every row is that of an entry of the list. -/
theorem nameRows_origin (h : Storables c data) {row : Nat × NameDataValue}
    (hrow : row ∈ (nameRows c data).entries) :
    ∃ it ∈ data, row = (nameRow c it, it.2) := by
  induction data using List.reverseRecOn with
  | nil => cases hrow
  | append_singleton data it ih =>
    rw [nameRows_append h.last.isNull] at hrow
    rcases OrderedMap.mem_assign.mp hrow with rfl | ⟨hold, -⟩
    · exact ⟨it, List.mem_append_right _ List.mem_cons_self, rfl⟩
    · obtain ⟨o, ho, heq⟩ := ih h.of_append hold
      exact ⟨o, List.mem_append_left _ ho, heq⟩

theorem Storables.of_mem (h : Storables c data) (hit : it ∈ data) :
    nameKeyHash c it.2.key ≠ 0 ∧ it.1.toNat < 2 ^ 32 := by
  obtain ⟨pre, post, rfl⟩ := List.append_of_mem hit
  have hstorable := h pre it post rfl
  exact ⟨hstorable.key, hstorable.height⟩

/-- The entry of a row. -/
def rowEntry (row : Nat × NameDataValue) : UInt64 × NameDataValue :=
  (UInt64.ofNat (row.1 / (2 ^ 32 + 1)), row.2)

theorem rowEntry_nameRow (hkey : nameKeyHash c it.2.key ≠ 0) (hheight : it.1.toNat < 2 ^ 32) :
    rowEntry (nameRow c it, it.2) = it := by
  have h := nameDataHeight_nameRow hkey hheight
  unfold nameDataHeight at h
  split at h
  · cases h
  · rw [rowEntry, Option.some_inj.mp h]

theorem readRows_eq {l : List (Nat × NameDataValue)}
    (h : ∀ row ∈ l, nameDataHeight row.1 = some (rowEntry row).1) :
    readRows nameDataHeight l = l.map rowEntry := by
  induction l with
  | nil => rfl
  | cons row l ih =>
    rw [readRows, h row List.mem_cons_self, ih fun r hr => h r (List.mem_cons_of_mem _ hr)]
    rfl

theorem readBack_eq (h : Storables c data) :
    readBack c data = (nameRows c data).entries.map rowEntry := by
  refine readRows_eq fun row hrow => ?_
  obtain ⟨it, hit, rfl⟩ := nameRows_origin h hrow
  obtain ⟨hkey, hheight⟩ := h.of_mem hit
  rw [rowEntry_nameRow hkey hheight]
  exact nameDataHeight_nameRow hkey hheight

/-- A condition on entries that is about one key, and that an entry meets whenever it replaces one
that does. -/
structure Keyed (p : UInt64 × NameDataValue → Bool) : Prop where
  key : ∀ {it o}, p it = true → p o = true → o.2.key = it.2.key
  replace : ∀ {it o}, o.1 = it.1 → it.2.Replaces o.2 → p o = true → p it = true

theorem lastWhere_rows (h : Storables c data) (p : UInt64 × NameDataValue → Bool) :
    lastWhere p (readBack c data) =
      ((nameRows c data).entries.filter (p ∘ rowEntry)).getLast?.map Prod.snd := by
  rw [readBack_eq h, lastWhere, List.filter_map, List.getLast?_map, Option.map_map]
  rfl

/-- **The last entry is the same after the list was read back.** -/
theorem lastWhere_readBack {p : UInt64 × NameDataValue → Bool} (hp : Keyed p)
    (h : Storables c data) :
    lastWhere p (readBack c data) = lastWhere p data := by
  induction data using List.reverseRecOn with
  | nil => rfl
  | append_singleton data it ih =>
    have hlast := h.last
    have hit : rowEntry (nameRow c it, it.2) = it := rowEntry_nameRow hlast.key hlast.height
    have hrow : ∀ row ∈ (nameRows c data).entries,
        ∃ o ∈ data, row.1 = nameRow c o ∧ rowEntry row = o ∧ nameKeyHash c o.2.key ≠ 0 ∧
          o.1.toNat < 2 ^ 32 := by
      intro row hmem
      obtain ⟨o, ho, rfl⟩ := nameRows_origin h.of_append hmem
      obtain ⟨hkey, hheight⟩ := h.of_append.of_mem ho
      exact ⟨o, ho, rfl, rowEntry_nameRow hkey hheight, hkey, hheight⟩
    rw [lastWhere_rows h, nameRows_append hlast.isNull]
    cases hpit : p it with
    | true =>
      rw [lastWhere_append_of_pos hpit, OrderedMap.getLast?_filter_assign]
      · rfl
      · rw [Function.comp_apply, hit, hpit]
      · intro row hmem hprow
        obtain ⟨o, ho, hro, heq, -, -⟩ := hrow row hmem
        rw [Function.comp_apply, heq] at hprow
        have hkey := hp.key hpit hprow
        have hle := nameRow_le (c := c) hkey (hlast.later o ho hkey) hlast.height
        omega
    | false =>
      rw [lastWhere_append_of_neg hpit, ← ih h.of_append, lastWhere_rows h.of_append,
        OrderedMap.filter_assign_of_neg]
      · rw [Function.comp_apply, hit, hpit]
      · intro row hmem hsame
        obtain ⟨o, ho, hro, heq, hokey, hoheight⟩ := hrow row hmem
        rw [Function.comp_apply, heq]
        have hsame : nameRow c o = nameRow c it := hro.symm.trans hsame
        have hheight := height_eq_of_nameRow hsame hokey hlast.key hoheight hlast.height
        by_contra hpo
        have hpit' := hp.replace hheight (hlast.row o ho hsame) (by simpa using hpo)
        rw [hpit] at hpit'
        cases hpit'

theorem keyed_decides (height : Int) (subdomain key : Bytes) :
    Keyed (decides height subdomain key) where
  key := by
    intro it o hit ho
    simp only [decides, Bool.and_eq_true, beq_iff_eq] at hit ho
    rw [hit.2, ho.2]
  replace := by
    rintro it o hheight ⟨hkey, hdomain, -, -⟩ ho
    simp only [decides, concerns, Bool.and_eq_true, Bool.or_eq_true, beq_iff_eq,
      decide_eq_true_eq] at ho ⊢
    rw [← hheight, ← hkey]
    refine ⟨⟨ho.1.1, ?_⟩, ho.2⟩
    rcases hdomain with hsub | hunderscore
    · rw [← hsub]
      exact ho.1.2
    · exact .inr hunderscore

theorem keyed_decidesSubdomain (height : Int) {subdomain : Bytes} (hsub : subdomain ≠ [])
    (key : Bytes) : Keyed (decidesSubdomain height subdomain key) where
  key := by
    intro it o hit ho
    simp only [decidesSubdomain, Bool.and_eq_true, beq_iff_eq] at hit ho
    rw [hit.1.2, ho.1.2]
  replace := by
    rintro it o hheight ⟨hkey, -, hsubdomains, -⟩ ho
    simp only [decidesSubdomain, Bool.and_eq_true, beq_iff_eq, decide_eq_true_eq] at ho ⊢
    obtain ⟨⟨⟨hle, hosub⟩, hokey⟩, hvalue⟩ := ho
    rcases hsubdomains with hnil | hnil | ⟨hsame, hne⟩
    · exact absurd (hosub.symm.trans hnil) hsub
    · exact absurd hnil hvalue
    · exact ⟨⟨⟨hheight ▸ hle, hsame ▸ hosub⟩, hkey ▸ hokey⟩, hne⟩

theorem keyed_isExpiry : Keyed isExpiry where
  key := by
    intro it o hit ho
    simp only [isExpiry, beq_iff_eq] at hit ho
    rw [hit, ho]
  replace := by
    rintro it o - ⟨hkey, -, -, -⟩ ho
    simpa only [isExpiry, hkey] using ho

/-- An expiry that cannot be read is still there after the list was read back. -/
theorem all_readBack (h : Storables c data) :
    (readBack c data).all (fun it => !isExpiry it || (expiryOf it.2).isSome) =
      data.all fun it => !isExpiry it || (expiryOf it.2).isSome := by
  have hiff : (∀ row ∈ (nameRows c data).entries, row.2.key = expiryEntry →
      (expiryOf row.2).isSome) ↔ ∀ it ∈ data, it.2.key = expiryEntry → (expiryOf it.2).isSome := by
    constructor
    · induction data using List.reverseRecOn with
      | nil => intro _ it hit; cases hit
      | append_singleton data it ih =>
        intro hrows o ho hokey
        rw [nameRows_append h.last.isNull] at hrows
        rcases List.mem_append.mp ho with hold | hnew
        · refine ih h.of_append (fun row hrow hkey => ?_) o hold hokey
          by_cases hsame : row.1 = nameRow c it
          · obtain ⟨o', ho', rfl⟩ := nameRows_origin h.of_append hrow
            exact (h.last.row o' ho' hsame).expiry hkey
          · exact hrows row (OrderedMap.mem_assign.mpr (.inr ⟨hrow, hsame⟩)) hkey
        · cases List.mem_singleton.mp hnew
          exact hrows (nameRow c it, it.2) (OrderedMap.mem_assign.mpr (.inl rfl)) hokey
    · intro hdata row hrow hkey
      obtain ⟨it, hit, rfl⟩ := nameRows_origin h hrow
      exact hdata it hit hkey
  rw [readBack_eq h, Bool.eq_iff_iff]
  simpa [isExpiry, rowEntry, imp_iff_not_or] using hiff

theorem expiry_readBack (h : Storables c data) : expiry (readBack c data) = expiry data := by
  rw [expiry_eq, expiry_eq, all_readBack h, lastWhere_readBack keyed_isExpiry h]

/-! ## The calls -/

/-- The calls of `AddNameData`, each with the hash of its name. -/
abbrev NameDataCalls := List (Uint256 × (UInt64 × NameDataValue))

def NameDataCalls.toObjectCalls (calls : NameDataCalls) : List (ObjectCall G) :=
  calls.map fun e => .addNameData e.1 e.2

/-- What was added for a name. -/
def NameDataCalls.entriesOf (calls : NameDataCalls) (id : Uint256) : NameDataValues :=
  (calls.filter fun e => e.1 = id).map Prod.snd

section Calls

variable [Zero G] [DecidableEq G] (c : Crypto G)

/-- The list of a name in a new cache after the calls. -/
def cachedNameData (calls : NameDataCalls) (id : Uint256) : NameDataValues :=
  (Stack.cached (ObjectStack.run c (Stack.onBase noRows 0) calls.toObjectCalls)
    (.nameData id)).elim [] Subtype.val

/-- `GetNameData` on the database after the calls and a flush. -/
def flushedNameData (calls : NameDataCalls) (id : Uint256) : NameDataValues :=
  ((rules c (.nameData id)).get ((ObjectStack.run c (Stack.onBase noRows 0)
    (calls.toObjectCalls ++ [.flush 0])).base (.nameData id))).elim [] Subtype.val

theorem NameDataCalls.entriesOf_append (calls : NameDataCalls)
    (e : Uint256 × (UInt64 × NameDataValue)) (id : Uint256) :
    entriesOf (calls ++ [e]) id = entriesOf calls id ++ if e.1 = id then [e.2] else [] := by
  unfold entriesOf
  by_cases he : e.1 = id <;> simp [he]

variable {c}

/-- An entry is appended to the list that is cached. -/
theorem addEntry_ofList {data : NameDataValues} (hdata : ∀ o ∈ data, o.2.isNull = false)
    (it : UInt64 × NameDataValue) :
    some (ObjectStack.addEntry NameDataValue.isNull (HeightList.ofList data) it) =
      HeightList.ofList (data ++ [it]) := by
  have hfilter : data.filter (fun o => !(o.1 == it.1 && o.2.isNull)) = data := by
    refine List.filter_eq_self.mpr fun o ho => ?_
    simp [hdata o ho]
  unfold ObjectStack.addEntry
  rw [HeightList.elim_ofList, hfilter, HeightList.ofList, dif_pos]
  rfl

/-- The cache after the calls holds what was added for each name. -/
theorem run_addNameData {calls : NameDataCalls} (h : ∀ e ∈ calls, e.2.2.isNull = false) :
    ∃ l : Layer (ObjectKey.Value G),
      ObjectStack.run c (Stack.onBase noRows 0) calls.toObjectCalls = ⟨[l], noRows⟩ ∧
        ∀ id, l (.nameData id) = HeightList.ofList (calls.entriesOf id) := by
  induction calls using List.reverseRecOn with
  | nil => exact ⟨fun _ => none, rfl, fun _ => rfl⟩
  | append_singleton calls e ih =>
    obtain ⟨l, hrun, hl⟩ := ih fun e he => h e (List.mem_append_left _ he)
    have hstep : ObjectStack.run c (Stack.onBase noRows 0)
        (NameDataCalls.toObjectCalls (calls ++ [e])) =
          ObjectStack.addNameData ⟨[l], noRows⟩ e.1 e.2 := by
      rw [← hrun]
      unfold NameDataCalls.toObjectCalls
      rw [List.map_append, ObjectStack.run_append]
      rfl
    refine ⟨_, hstep, fun id => ?_⟩
    have hold : ∀ o ∈ NameDataCalls.entriesOf calls e.1, o.2.isNull = false := by
      intro o ho
      obtain ⟨e', he', rfl⟩ := List.mem_map.mp ho
      exact h e' (List.mem_append_left _ (List.mem_filter.mp he').1)
    rw [NameDataCalls.entriesOf_append]
    by_cases hid : e.1 = id
    · subst hid
      rw [if_pos rfl, ← addEntry_ofList hold, ← hl]
      exact Function.update_self ..
    · rw [if_neg hid, List.append_nil, ← hl]
      exact Function.update_of_ne (by simp [Ne.symm hid]) ..

/-- What the calls leave for a name in the cache, and in the database after a flush. -/
theorem nameData_of_calls {calls : NameDataCalls} (h : ∀ e ∈ calls, e.2.2.isNull = false)
    (id : Uint256) :
    cachedNameData c calls id = calls.entriesOf id ∧
      flushedNameData c calls id = readBack c (calls.entriesOf id) := by
  obtain ⟨l, hrun, hl⟩ := run_addNameData (c := c) h
  unfold cachedNameData flushedNameData
  rw [ObjectStack.run_append, hrun]
  constructor
  · refine (congrArg (Option.elim · [] Subtype.val) (hl id)).trans ?_
    exact HeightList.elim_ofList _
  · refine (?_ : Option.elim (HeightList.ofList (readRows nameDataHeight
      (putAll (rules c) noRows l (.nameData id)).entries)) [] Subtype.val = _)
    rw [HeightList.elim_ofList]
    unfold putAll
    rw [hl id]
    by_cases hnil : calls.entriesOf id = []
    · rw [hnil]
      rfl
    · rw [HeightList.ofList, dif_pos hnil]
      rfl

end Calls

/-- **Name data read back.**  If every entry can be stored after those added before it for the
same name, the list that is read back says the same as the list that was flushed. -/
theorem nameData_reads_back [Zero G] [DecidableEq G] (c : Crypto G) (calls : NameDataCalls)
    (h : ∀ id, Storables c (calls.entriesOf id)) (id : Uint256) (height : Int) :
    (∀ subdomain, consolidate (flushedNameData c calls id) height subdomain =
        consolidate (cachedNameData c calls id) height subdomain) ∧
      consolidateSubdomains (flushedNameData c calls id) height =
        consolidateSubdomains (cachedNameData c calls id) height := by
  have hnull : ∀ e ∈ calls, e.2.2.isNull = false := by
    intro e he
    have hmem : e.2 ∈ calls.entriesOf e.1 :=
      List.mem_map.mpr ⟨e, List.mem_filter.mpr ⟨he, by simp⟩, rfl⟩
    obtain ⟨pre, post, hsplit⟩ := List.append_of_mem hmem
    exact (h e.1 pre e.2 post hsplit).isNull
  obtain ⟨hcached, hflushed⟩ := nameData_of_calls (c := c) hnull id
  have hexpiry := expiry_readBack (h id)
  rw [hcached, hflushed]
  refine ⟨fun subdomain => consolidate_congr hexpiry fun key => ?_,
    consolidateSubdomains_congr hexpiry fun subdomain key hsub => ?_⟩
  · rw [entryValue, entryValue, lastWhere_readBack (keyed_decides height subdomain key) (h id)]
  · rw [subdomainValue, subdomainValue,
      lastWhere_readBack (keyed_decidesSubdomain height hsub key) (h id)]

/-! ## Two subdomains in one block -/

namespace OneRow

abbrev crypto : Crypto (ZMod groupOrder) := (fixedBls true).toCrypto

/-- A name is revealed and written to at the next height. -/
def plainCalls : NameDataCalls :=
  [(5, 1, { key := expiryEntry, value := decimal 100 }),
    (5, 1, { key := keyEntry, value := [0x61] }), (5, 2, { key := [0x61], value := [0x31] })]

/-- No two of the entries share a row. -/
theorem storables_plainCalls (id : Uint256) : Storables crypto (plainCalls.entriesOf id) := by
  by_cases hid : id = 5
  · subst hid
    have hnew : ∀ {l : NameDataValues} {it : UInt64 × NameDataValue}, Storables crypto l →
        (nameKeyHash crypto it.2.key ≠ 0 ∧ it.1.toNat < 2 ^ 32 ∧
          (∀ o ∈ l, o.2.key = it.2.key → o.1 ≤ it.1) ∧
          ∀ o ∈ l, nameRow crypto o ≠ nameRow crypto it) → Storables crypto (l ++ [it]) := by
      rintro l it hl ⟨hkey, hheight, hlater, hrow⟩
      exact hl.append ⟨hkey, hheight, hlater, fun o ho heq => absurd heq (hrow o ho)⟩
    have hnil : Storables crypto [] := by
      intro pre it post heq
      cases pre <;> cases heq
    exact hnew (hnew (l := [_]) (hnew (l := []) hnil (by decide +kernel))
      (by decide +kernel)) (by decide +kernel)
  · have hempty : plainCalls.entriesOf id = [] := by
      have hid' : (5 : Uint256) ≠ id := Ne.symm hid
      simpa [NameDataCalls.entriesOf, plainCalls] using hid'
    rw [hempty]
    intro pre it post heq
    cases pre <;> cases heq

theorem nameData_reads_back_plain :
    consolidate (cachedNameData crypto plainCalls 5) 2 [] =
        some [(expiryEntry, decimal 100), (keyEntry, [0x61]), ([0x61], [0x31])] ∧
      (∀ subdomain, consolidate (flushedNameData crypto plainCalls 5) 2 subdomain =
        consolidate (cachedNameData crypto plainCalls 5) 2 subdomain) ∧
      consolidateSubdomains (flushedNameData crypto plainCalls 5) 2 =
        consolidateSubdomains (cachedNameData crypto plainCalls 5) 2 :=
  ⟨by decide +kernel, nameData_reads_back crypto plainCalls storables_plainCalls 5 2⟩

/-- The key of the domain and the same key of a subdomain are written at one height. -/
def twoDomains : NameDataCalls :=
  [(5, 1, { key := [0x61], value := [0x31] }),
    (5, 1, { key := [0x61], value := [0x32], subdomain := [0x78] })]

/-- Both entries are in one row, and the first is lost. -/
theorem domain_entry_lost :
    consolidate (cachedNameData crypto twoDomains 5) 1 [] = some [([0x61], [0x31])] ∧
      consolidate (flushedNameData crypto twoDomains 5) 1 [] = some [] := by
  decide +kernel

end OneRow

end Navcoin
