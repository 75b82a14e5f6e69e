import Navcoin.Coins
import Navcoin.Lib.ObjectCache

/-!
# What the caches hold and what the database makes of it

The objects of `CStateViewCache` other than coins, their null values, and the rows that
`CStateViewDB::BatchWrite` writes for them.  Proposals, payment requests, consultations, answers,
votes and parameters are created with the mark `fDirty`, which nothing takes away, so the mark is
left out; a token carries it.

* `CProposal.stored`, …: an object as it is read back from its row;
* `objectRules`, `tokenRules`, `listRules`: the three ways objects are cached;
* `rules`: which of them is used for which key.
-/

namespace Navcoin

open ObjectCache

variable {G : Type}

/-! ## Keys and values -/

/-- The keys of the caches. -/
inductive ObjectKey where
  | proposal (pid : Uint256)
  | paymentRequest (prid : Uint256)
  | consultation (cid : Uint256)
  | answer (cid : Uint256)
  | vote (voter : Bytes)
  | parameter (pid : Int)
  | token (id : Uint256)
  | tokenUtxos (id : Uint256)
  | nameRecord (id : Uint256)
  | nameData (id : Uint256)
  deriving DecidableEq, Repr

structure TokenUtxoValue where
  hash : Uint256
  spendingKey : Bytes
  n : UInt32
  deriving DecidableEq, Repr

namespace TokenUtxoValue

def null : TokenUtxoValue := { hash := 0, spendingKey := [], n := 0xffffffff }

def isNull (u : TokenUtxoValue) : Bool := u.hash == 0

end TokenUtxoValue

def NameRecordValue.null : NameRecordValue :=
  { height := 0xffffffffffffffff, nVersion := 0xffffffff }

def NameDataValue.null : NameDataValue := { key := [], value := [] }

/-- `SetNull` -/
def TokenInfo.null [Zero G] : TokenInfo G :=
  { key := 0, nVersion := 0, sName := [], sDesc := [], totalSupply := 0, currentSupply := 0,
    mapMetadata := [], canMint := false, fDirty := false }

/-- A list by height as a cache holds it: an empty one is never cached. -/
def HeightList (α : Type) : Type := { l : List (UInt64 × α) // l ≠ [] }

namespace HeightList

variable {α : Type}

instance [DecidableEq α] : DecidableEq (HeightList α) :=
  inferInstanceAs (DecidableEq { l : List (UInt64 × α) // l ≠ [] })

def ofList (l : List (UInt64 × α)) : Option (HeightList α) :=
  if h : l ≠ [] then some ⟨l, h⟩ else none

theorem elim_ofList (l : List (UInt64 × α)) : (ofList l).elim [] Subtype.val = l := by
  unfold ofList
  by_cases h : l = []
  · rw [dif_neg (not_not.mpr h), h]
    rfl
  · rw [dif_pos h]
    rfl

def push (l : List (UInt64 × α)) (e : UInt64 × α) : HeightList α :=
  ⟨l ++ [e], List.append_ne_nil_of_right_ne_nil _ (List.cons_ne_nil _ _)⟩

def map (f : UInt64 × α → UInt64 × α) (l : HeightList α) : HeightList α :=
  ⟨l.1.map f, fun h => l.2 (List.map_eq_nil_iff.mp h)⟩

end HeightList

abbrev ObjectKey.Value (G : Type) : ObjectKey → Type
  | .proposal _ => CProposal
  | .paymentRequest _ => CPaymentRequest
  | .consultation _ => CConsultation
  | .answer _ => CConsultationAnswer
  | .vote _ => CVoteList
  | .parameter _ => CConsensusParameter
  | .token _ => TokenInfo G
  | .tokenUtxos _ => HeightList TokenUtxoValue
  | .nameRecord _ => NameRecordValue
  | .nameData _ => HeightList NameDataValue

/-- The rows of one list, by what follows the id in their key. -/
abbrev ListRows (α : Type) := OrderedMap (Prod.fst : Nat × α → Nat)

/-- What the database has under a key. -/
abbrev ObjectKey.Row (G : Type) : ObjectKey → Type
  | .proposal _ => Option CProposal
  | .paymentRequest _ => Option CPaymentRequest
  | .consultation _ => Option CConsultation
  | .answer _ => Option CConsultationAnswer
  | .vote _ => Option CVoteList
  | .parameter _ => Option CConsensusParameter
  | .token _ => Option (TokenInfo G)
  | .tokenUtxos _ => ListRows TokenUtxoValue
  | .nameRecord _ => Option NameRecordValue
  | .nameData _ => ListRows NameDataValue

/-! ## The formats of the rows

Which fields are written depends on the version; what is not written is read back as it is
constructed. -/

def CProposal.stored (p : CProposal) : CProposal :=
  { p with
    nVotingCycle := if p.nVersion &&& baseVersion ≠ 0 then p.nVotingCycle else 0
    nVotesAbs := if p.nVersion &&& abstainVoteVersion ≠ 0 then p.nVotesAbs else 0
    paymentAddress := if p.nVersion &&& paymentAddressVersion ≠ 0 then p.paymentAddress else []
    nExclude := if p.nVersion &&& excludeVersion ≠ 0 then p.nExclude else 0 }

def CPaymentRequest.stored (p : CPaymentRequest) : CPaymentRequest :=
  { p with
    nVotingCycle := if p.nVersion &&& baseVersion ≠ 0 then p.nVotingCycle else 0
    nVotesAbs := if p.nVersion &&& abstainVoteVersion ≠ 0 then p.nVotesAbs else 0
    nExclude := if p.nVersion &&& excludeVersion ≠ 0 then p.nExclude else 0 }

def CConsultation.stored (c : CConsultation) : CConsultation :=
  { c with
    vParameters := if c.nVersion &&& superVersion ≠ 0 then c.vParameters else []
    nMin := if c.nVersion &&& superVersion ≠ 0 then 0 else c.nMin
    nExclude := if c.nVersion &&& excludeVersion ≠ 0 then c.nExclude else 0 }

def CConsultationAnswer.stored (a : CConsultationAnswer) : CConsultationAnswer :=
  { a with
    vAnswer := if a.nVersion &&& superVersion ≠ 0 then a.vAnswer else []
    sAnswer := if a.nVersion &&& superVersion ≠ 0 then [] else a.sAnswer
    nExclude := if a.nVersion &&& excludeVersion ≠ 0 then a.nExclude else 0 }

/-- The row of a token has no mark; that of a collection has neither its supply nor whether
minting goes on. -/
def TokenInfo.stored [Zero G] (t : TokenInfo G) : TokenInfo G :=
  let common : TokenInfo G :=
    { (TokenInfo.null : TokenInfo G) with
      key := t.key, nVersion := t.nVersion, sName := t.sName, sDesc := t.sDesc }
  if t.nVersion = 0 then
    { common with
      totalSupply := t.totalSupply, currentSupply := t.currentSupply, canMint := t.canMint }
  else if t.nVersion = 1 then
    { common with totalSupply := t.totalSupply, mapMetadata := t.mapMetadata }
  else common

/-! ## Objects -/

section Objects

variable {α : Type}

/-- `BatchWrite` of a kind whose null objects are erased. -/
def putObject (isNull : α → Bool) (stored : α → α) (v : α) : Option α :=
  if isNull v then none else some (stored v)

/-- Objects that are looked up by `IsNull`; a modifier clears a null one. -/
def objectRules (null : α) (isNull : α → Bool) (stored : α → α) (hnull : isNull null = true) :
    Rules α (Option α) where
  null := null
  held v := !isNull v
  seen v := if isNull v then none else some v
  settle _ v := if isNull v then null else v
  get row := row
  put _ v := putObject isNull stored v
  seen_null := if_pos hnull
  held_of_seen v w h := by
    cases hv : isNull v with
    | false => rfl
    | true =>
      rw [hv] at h
      cases h

section Null

variable {null : α} {isNull : α → Bool} {stored : α → α} (hnull : isNull null = true) {v : α}
  (hv : (objectRules null isNull stored hnull).held v = false → v = null)
include hv

theorem objectRules_getD_seen : ((objectRules null isNull stored hnull).seen v).getD null = v := by
  cases h : isNull v with
  | false => simp [objectRules, h]
  | true => simp [objectRules, hv (by simp [objectRules, h]), hnull]

theorem objectRules_respectsAt (f : α → α) :
    (objectRules null isNull stored hnull).RespectsAt f v := by
  constructor
  · rw [show (objectRules null isNull stored hnull).null = null from rfl,
      objectRules_getD_seen hnull hv]
    cases h : isNull (f v) <;> simp [objectRules, h, hnull]
  · cases h : isNull (f v) <;> simp [objectRules, h]

end Null

/-- The payment requests: the modifier of a null one clears a proposal instead. -/
def paymentRequestRules : Rules CPaymentRequest (Option CPaymentRequest) :=
  { objectRules {} CPaymentRequest.isNull CPaymentRequest.stored rfl with settle := fun _ v => v }

end Objects

/-! ## Tokens -/

section Tokens

variable [Zero G] [DecidableEq G]

/-- `==` does not compare the mark. -/
def TokenInfo.same (t t' : TokenInfo G) : Bool :=
  { t with fDirty := false } = { t' with fDirty := false }

/-- The end of a `TokenModifier`. -/
def TokenInfo.settle (prev token : TokenInfo G) : TokenInfo G :=
  let token := if token.isNull then .null else token
  if prev.same token then token else { token with fDirty := true }

theorem TokenInfo.isNull_iff (t : TokenInfo G) : t.isNull = true ↔ t = TokenInfo.null := by
  cases t
  simp [isNull, null]
  tauto

/-- Tokens are written when they are marked, and removed ones are not.  A lookup does not compare
the mark, so every token is shown with it. -/
def tokenRules : Rules (TokenInfo G) (Option (TokenInfo G)) where
  null := .null
  held t := !t.isNull
  seen t := if t.isNull then none else some { t with fDirty := true }
  settle := TokenInfo.settle
  get row := row
  put row t := if t.fDirty then putObject TokenInfo.isNull TokenInfo.stored t else row
  seen_null := if_pos ((TokenInfo.isNull_iff _).mpr rfl)
  held_of_seen t w h := by
    cases ht : t.isNull with
    | false => rfl
    | true =>
      rw [ht] at h
      cases h

omit [Zero G] [DecidableEq G] in
/-- A modification that does not look at the mark. -/
def TokenInfo.KeepsMark (f : TokenInfo G → TokenInfo G) : Prop :=
  ∀ t b, f { t with fDirty := b } = { f t with fDirty := b }

/-- What the end of a modifier leaves. -/
theorem TokenInfo.settle_cases (prev t : TokenInfo G) :
    (t.isNull = true ∧ prev.same null = true ∧ prev.settle t = null) ∨
      ((t.isNull = true → prev.same null = false) ∧ prev.settle t = { t with fDirty := true }) ∨
      (t.isNull = false ∧ prev.settle t = t) := by
  unfold settle
  by_cases hnull : t.isNull = true
  · rw [if_pos hnull, (isNull_iff t).mp hnull]
    by_cases hsame : prev.same null = true
    · exact .inl ⟨(isNull_iff _).mpr rfl, hsame, if_pos hsame⟩
    · exact .inr (.inl ⟨fun _ => by simpa using hsame, if_neg hsame⟩)
  · rw [if_neg hnull]
    by_cases hsame : prev.same t = true
    · exact .inr (.inr ⟨by simpa using hnull, if_pos hsame⟩)
    · exact .inr (.inl ⟨fun h => absurd h hnull, if_neg hsame⟩)

theorem TokenInfo.isNull_mark (t : TokenInfo G) :
    ({ t with fDirty := true } : TokenInfo G).isNull = false := by
  simp [isNull]

theorem TokenInfo.seen_of_isNull_false {t : TokenInfo G} (h : t.isNull = false) :
    tokenRules.seen t = some { t with fDirty := true } := by
  simp [tokenRules, h]

omit [Zero G] [DecidableEq G] in
theorem TokenInfo.mark_of_keepsMark {f : TokenInfo G → TokenInfo G}
    (hf : KeepsMark f) (t : TokenInfo G) :
    (f t).fDirty = t.fDirty := by
  have h : f t = { f t with fDirty := t.fDirty } := hf t t.fDirty
  rw [h]

/-- The end of a modifier marks what was changed, and shows what was made of the token. -/
theorem tokenRules_respectsAt {f : TokenInfo G → TokenInfo G} (hf : TokenInfo.KeepsMark f)
    {t : TokenInfo G} (ht : tokenRules.held t = false → t = TokenInfo.null) :
    tokenRules.RespectsAt f t := by
  have hsettle := TokenInfo.settle_cases t (f t)
  constructor
  · cases hnull : t.isNull with
    | true =>
      obtain rfl : t = TokenInfo.null := ht (by simp [tokenRules, hnull])
      have hseen : tokenRules.seen (TokenInfo.null : TokenInfo G) = none := tokenRules.seen_null
      rw [hseen]
      change tokenRules.seen (TokenInfo.null.settle (f .null)) = tokenRules.seen (f .null)
      rcases hsettle with ⟨hfnull, -, hs⟩ | ⟨hdiff, hs⟩ | ⟨-, hs⟩
      · rw [hs, (TokenInfo.isNull_iff _).mp hfnull]
      · have hfnull : (f .null).isNull = false := by
          by_contra h
          have hself := hdiff (by simpa using h)
          simp [TokenInfo.same] at hself
        rw [hs, TokenInfo.seen_of_isNull_false hfnull,
          TokenInfo.seen_of_isNull_false (TokenInfo.isNull_mark _)]
      · rw [hs]
    | false =>
      rw [TokenInfo.seen_of_isNull_false hnull, Option.getD_some, hf t true,
        TokenInfo.seen_of_isNull_false (TokenInfo.isNull_mark (f t))]
      change tokenRules.seen (t.settle (f t)) = _
      rcases hsettle with ⟨hfnull, hsame, -⟩ | ⟨-, hs⟩ | ⟨hfnull, hs⟩
      · -- the token was null but for its mark, which the modification keeps
        have hmark : t.fDirty = false := by
          rw [← TokenInfo.mark_of_keepsMark hf, (TokenInfo.isNull_iff _).mp hfnull]
          rfl
        have heq : t = TokenInfo.null := by
          cases t
          cases hmark
          simpa [TokenInfo.same, TokenInfo.null] using hsame
        rw [heq, (TokenInfo.isNull_iff _).mpr rfl] at hnull
        cases hnull
      · rw [hs, TokenInfo.seen_of_isNull_false (TokenInfo.isNull_mark _)]
      · rw [hs, TokenInfo.seen_of_isNull_false hfnull]
  · intro hheld
    change tokenRules.held (t.settle (f t)) = false at hheld
    rcases hsettle with ⟨-, -, hs⟩ | ⟨-, hs⟩ | ⟨hfnull, hs⟩
    · exact hs
    · rw [hs] at hheld
      simp [tokenRules, TokenInfo.isNull_mark] at hheld
    · rw [hs] at hheld
      simp [tokenRules, hfnull] at hheld

end Tokens

/-! ## Lists by height -/

section Lists

variable {α : Type}

/-- The loop over the rows; it ends at a row whose key does not parse. -/
def readRows (heightOf : Nat → Option UInt64) : List (Nat × α) → List (UInt64 × α)
  | [] => []
  | row :: rows =>
    match heightOf row.1 with
    | none => []
    | some height => (height, row.2) :: readRows heightOf rows

/-- The row of one entry: a null entry erases one. -/
def putEntry (isNull : α → Bool) (writeKey : UInt64 → α → Nat) (eraseKey : UInt64 → Nat)
    (rows : ListRows α) (e : UInt64 × α) : ListRows α :=
  if isNull e.2 then rows.erase (eraseKey e.1) else rows.assign (writeKey e.1 e.2, e.2)

/-- The entries of a list that a lookup shows. -/
def liveEntries (isNull : α → Bool) (l : List (UInt64 × α)) : List (UInt64 × α) :=
  l.filter fun e => !isNull e.2

/-- Lists are cached with their null entries, which a lookup leaves out. -/
def listRules (null : α) (isNull : α → Bool) (writeKey : UInt64 → α → Nat)
    (eraseKey : UInt64 → Nat) (heightOf : Nat → Option UInt64) (hnull : isNull null = true) :
    Rules (HeightList α) (ListRows α) where
  null := HeightList.push [] (0, null)
  held _ := true
  seen l := HeightList.ofList (liveEntries isNull l.1)
  settle _ l := l
  get rows := HeightList.ofList (readRows heightOf rows.entries)
  put rows l := l.1.foldl (putEntry isNull writeKey eraseKey) rows
  seen_null := by simp [HeightList.ofList, HeightList.push, liveEntries, hnull]
  held_of_seen _ _ _ := rfl

section Seen

variable {null : α} {isNull : α → Bool} {writeKey : UInt64 → α → Nat} {eraseKey : UInt64 → Nat}
  {heightOf : Nat → Option UInt64} (hnull : isNull null = true)

/-- An entry is added after those shown, whatever null entries are dropped on the way. -/
theorem listRules_seen_push {l : List (UInt64 × α)} {e : UInt64 × α} (he : isNull e.2 = false)
    (height : UInt64) :
    (listRules null isNull writeKey eraseKey heightOf hnull).seen
        (.push (l.filter fun o => !(o.1 == height && isNull o.2)) e) =
      some (.push (liveEntries isNull l) e) := by
  have hlive : liveEntries isNull (l.filter fun o => !(o.1 == height && isNull o.2)) =
      liveEntries isNull l := by
    unfold liveEntries
    rw [List.filter_filter]
    refine List.filter_congr fun o _ => ?_
    cases isNull o.2 <;> simp
  have hpush : liveEntries isNull (l.filter (fun o => !(o.1 == height && isNull o.2)) ++ [e]) =
      liveEntries isNull l ++ [e] := by
    rw [← hlive]
    simp [liveEntries, he]
  exact (congrArg HeightList.ofList hpush).trans (dif_pos _)

/-- The entries of a height are turned into null ones. -/
theorem listRules_seen_clear (l : HeightList α) (height : UInt64) :
    (listRules null isNull writeKey eraseKey heightOf hnull).seen
        (l.map fun e => if e.1 = height then (height, null) else e) =
      ((listRules null isNull writeKey eraseKey heightOf hnull).seen l).bind fun l =>
        HeightList.ofList (l.1.filter fun e => e.1 ≠ height) := by
  have hlive : liveEntries isNull (l.1.map fun e => if e.1 = height then (height, null) else e) =
      (liveEntries isNull l.1).filter fun e => e.1 ≠ height := by
    unfold liveEntries
    induction l.1 with
    | nil => rfl
    | cons e es ih =>
      by_cases he : e.1 = height
      · cases hn : isNull e.2 <;> simpa [he, hn, hnull] using ih
      · cases hn : isNull e.2 <;> simpa [he, hn] using ih
  refine (congrArg HeightList.ofList hlive).trans ?_
  by_cases hempty : liveEntries isNull l.1 = []
  · simp [listRules, HeightList.ofList, hempty]
  · have hseen : (listRules null isNull writeKey eraseKey heightOf hnull).seen l =
        some ⟨liveEntries isNull l.1, hempty⟩ := dif_pos hempty
    rw [hseen]
    rfl

end Seen

/-- `TokenUtxoKey`: four bytes of the height. -/
def tokenUtxoRow (height : UInt64) : Nat := height.toNat % 2 ^ 32

/-- `NameDataKey`: four bytes of the height, and four of the hash of the entry's key unless it is
zero. -/
def nameDataRow (height hash : UInt64) : Nat :=
  height.toNat % 2 ^ 32 * (2 ^ 32 + 1) + if hash = 0 then 0 else hash.toNat % 2 ^ 32 + 1

/-- `SerializeHash(key).GetCheapHash()`, zero for an empty key. -/
def nameKeyHash (c : Crypto G) (key : Bytes) : UInt64 :=
  if key = [] then 0 else UInt64.ofNat (c.hash (writeVector key)).toNat

/-- The height in a `NameDataKey`; a key that ends after it does not parse. -/
def nameDataHeight (row : Nat) : Option UInt64 :=
  if row % (2 ^ 32 + 1) = 0 then none else some (UInt64.ofNat (row / (2 ^ 32 + 1)))

/-- Several outputs of one height share a row. -/
def tokenUtxoRules : Rules (HeightList TokenUtxoValue) (ListRows TokenUtxoValue) :=
  listRules .null TokenUtxoValue.isNull (fun height _ => tokenUtxoRow height) tokenUtxoRow
    (fun row => some (UInt64.ofNat row)) rfl

/-- An entry is written under the hash of its key, and erased without one.  What a row that does
not parse hides from the names after it is left out. -/
def nameDataRules (c : Crypto G) : Rules (HeightList NameDataValue) (ListRows NameDataValue) :=
  listRules .null NameDataValue.isNull
    (fun height d => nameDataRow height (nameKeyHash c d.key)) (fun height => nameDataRow height 0)
    nameDataHeight rfl

end Lists

/-! ## The rules of each key -/

def rules [Zero G] [DecidableEq G] (c : Crypto G) :
    (key : ObjectKey) → Rules (key.Value G) (key.Row G)
  | .proposal _ => objectRules {} CProposal.isNull CProposal.stored rfl
  | .paymentRequest _ => paymentRequestRules
  | .consultation _ => objectRules {} CConsultation.isNull CConsultation.stored rfl
  | .answer _ => objectRules {} CConsultationAnswer.isNull CConsultationAnswer.stored rfl
  | .vote _ => objectRules ∅ CVoteList.isNull id rfl
  | .parameter _ => objectRules ∅ (fun list => list.entries.isEmpty) id rfl
  | .token _ => tokenRules
  | .tokenUtxos _ => tokenUtxoRules
  | .nameRecord _ => objectRules .null NameRecordValue.isNull id rfl
  | .nameData _ => nameDataRules c

end Navcoin
