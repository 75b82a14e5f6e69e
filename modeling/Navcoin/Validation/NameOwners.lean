import Navcoin.Dotnav.Owners
import Navcoin.Validation.BlockPrograms

/-!
# The owners of names

* `executeProgram_names`: what a program does to names;
* `NameStep.ownerMove`: what it may do to an owner;
* `NodeState.owners_safe_iff`: on a chain, owners are safe if and only if every renewal sets an
  expiry that is ahead and can be read.
-/

namespace Navcoin

open DotNav

variable {G : Type} {data : NameDataValues}

/-! ## What a program does to names -/

/-- The program of an execution. -/
def Execution.program [Zero G] (b : Bls G) (p : Execution G) : Predicate G :=
  Predicate.ofVch b.toCrypto p.output.1.vData

/-- The height of an entry. -/
def entryHeight (nHeight : Int) : UInt64 := UInt64.ofNat (toUint64 nHeight)

/-- What the checks of an entry leave. -/
structure Predicate.EntryChecked (b : Bls G) (program : Predicate G) : Prop where
  key : (program.str 2).take 1 = [0x5f] → program.str 2 = keyEntry
  ne_nil : program.str 2 ≠ []
  element : program.str 2 = keyEntry → ∃ key, b.fromBytes (parseHex (program.str 3)) = .ok key

/-- The entries that reveal a name. -/
def revealEntries [Zero G] (b : Bls G) (nHeight : Int) (view : CStateView G)
    (program : Predicate G) : NameDataValues :=
  let key : NameDataValue := { key := keyEntry, value := hexStr (b.serialize program.key) }
  [expiryValue nHeight view, key, program.entry].map fun d => (entryHeight nHeight, d)

/-- The entries of a name after it was revealed. -/
def revealedData [Zero G] (b : Bls G) (nHeight : Int) (view : CStateView G)
    (program : Predicate G) : NameDataValues :=
  (revealEntries b nHeight view program).foldl added
    (view.nameData (getHashName b.toCrypto (program.str 0)))

/-- The actions on names. -/
def nameActions : List ProgramActions := [.registerName, .updateNameFirst, .renewName, .updateName]

/-- What a program may do to names. -/
inductive NameStep [Zero G] (b : Bls G) (nHeight : Int) (program : Predicate G)
    (view view' : CStateView G) : Prop
  | other (action : program.action ∉ nameActions)
      (records : view'.nameRecords = view.nameRecords) (data : view'.nameData = view.nameData)
  | registered (action : program.action = .registerName)
      (records : view'.nameRecords = Function.update view.nameRecords (program.hParameters.headD 0)
        (some { height := entryHeight nHeight }))
      (data : view'.nameData = view.nameData)
  | revealed (action : program.action = .updateNameFirst) (r : NameRecordValue)
      (record : view.getNameRecord (getHashIdName b.toCrypto (program.str 0) program.key) = some r)
      (mature : ¬ entryHeight nHeight - r.height < 6)
      (free : owner (view.nameData (getHashName b.toCrypto (program.str 0))) nHeight = none)
      (entry : program.EntryChecked b)
      (records : view'.nameRecords = view.nameRecords)
      (data : view'.nameData = Function.update view.nameData
        (getHashName b.toCrypto (program.str 0)) (revealedData b nHeight view program))
  | renewed (action : program.action = .renewName)
      (owned : (owner (view.nameData (getHashName b.toCrypto (program.str 0))) nHeight).isSome)
      (records : view'.nameRecords = view.nameRecords)
      (data : view'.nameData = Function.update view.nameData
        (getHashName b.toCrypto (program.str 0))
        (added (view.nameData (getHashName b.toCrypto (program.str 0)))
          (entryHeight nHeight, expiryValue nHeight view)))
  | updated (action : program.action = .updateName) (value : Bytes)
      (owned : owner (view.nameData (getHashName b.toCrypto (program.str 0))) nHeight = some value)
      (key : b.fromBytes (parseHex value) = .ok program.key)
      (entry : program.EntryChecked b)
      (records : view'.nameRecords = view.nameRecords)
      (data : view'.nameData = Function.update view.nameData
        (getHashName b.toCrypto (program.str 0))
        (added (view.nameData (getHashName b.toCrypto (program.str 0)))
          (entryHeight nHeight, program.entry)))

theorem isValidKey_ne_nil {name : Bytes} (h : isValidKey name = true) : name ≠ [] := by
  rintro rfl
  simp [isValidKey, toLower] at h

/-- Keys of programs do not start with an underscore. -/
theorem take_one_of_isValidKey {name : Bytes} (h : isValidKey name = true) :
    name.take 1 ≠ [0x5f] := by
  obtain ⟨c, l, rfl⟩ := List.exists_cons_of_ne_nil (isValidKey_ne_nil h)
  intro htake
  rw [List.take_succ_cons, List.cons.injEq] at htake
  rw [htake.1] at h
  simp [isValidKey, toLower, toLowerChar, isAlnum, isDigit] at h

theorem entryChecked_of_ok {b : Bls G} {program : Predicate G}
    (hnames : checkEntryNames program = .ok ()) (hkey : checkKeyEntry b program = .ok ()) :
    program.EntryChecked b := by
  simp only [checkEntryNames, Except.bind_eq_ok_iff, Except.rejectIf_eq_ok_iff,
    Bool.not_eq_true', Bool.not_eq_false, Bool.or_eq_true, decide_eq_true_eq] at hnames
  obtain ⟨_, _, hname⟩ := hnames
  refine ⟨fun htake => ?_, ?_, fun heq => ?_⟩
  · exact hname.resolve_left fun hvalid => take_one_of_isValidKey hvalid htake
  · rcases hname with hvalid | heq
    · exact isValidKey_ne_nil hvalid
    · rw [heq]
      decide
  · unfold checkKeyEntry at hkey
    rw [if_pos heq] at hkey
    cases helement : b.fromBytes (parseHex (program.str 3)) with
    | error _ => simp [helement] at hkey
    | ok key => exact ⟨key, rfl⟩

theorem owner_of_consolidated {nHeight : Int} {mapData : List (Bytes × Bytes)}
    (h : consolidated data nHeight = .ok mapData) :
    owner data nHeight = AssocMap.find? keyEntry mapData := by
  unfold consolidated at h
  rw [owner]
  split at h
  · cases h
  · next hret =>
    cases h
    rw [hret, Option.bind_some]

variable {fDotNav : Bool}

section Steps

variable {b : Bls G} {nHeight : Int} {program : Predicate G}
  {view view' : CStateView G} {o : CTxOut G}

theorem executeUpdateNameFirst_ok [Zero G] (haction : program.action = .updateNameFirst)
    (h : executeUpdateNameFirst b nHeight view o program = .ok view') :
    NameStep b nHeight program view view' := by
  simp only [executeUpdateNameFirst, Except.bind_eq_ok_iff] at h
  obtain ⟨_, _, h⟩ := h
  split at h
  · cases h
  · next r hrecord =>
    simp only [Except.bind_eq_ok_iff, Except.pure_eq_ok_iff,
      Except.rejectIf_eq_ok_iff] at h
    obtain ⟨_, hmature, mapData, hdata, _, hfree, _, _, _, hnames, _, hkey, _, _, rfl⟩ := h
    refine .revealed haction r hrecord hmature ?_ (entryChecked_of_ok hnames hkey) rfl ?_
    · rw [owner_of_consolidated hdata]
      rw [← AssocMap.isSome_find?] at hfree
      simpa using hfree
    · simp [CStateView.addNameData, revealedData, revealEntries, added, entryHeight]

theorem executeRenewName_ok [Zero G] (haction : program.action = .renewName)
    (h : executeRenewName b nHeight view o program = .ok view') :
    NameStep b nHeight program view view' := by
  simp only [executeRenewName, Except.bind_eq_ok_iff, Except.pure_eq_ok_iff,
    Except.rejectIf_eq_ok_iff] at h
  obtain ⟨_, _, mapData, hdata, _, hactive, rfl⟩ := h
  refine .renewed haction ?_ rfl rfl
  rw [owner_of_consolidated hdata, AssocMap.isSome_find?]
  simpa using hactive

theorem mem_revealEntries [Zero G] (h : program.EntryChecked b) {it : UInt64 × NameDataValue}
    (hit : it ∈ revealEntries b nHeight view program) :
    it.1 = entryHeight nHeight ∧ it.2.key ≠ [] := by
  simp only [revealEntries, List.mem_map, List.mem_cons, List.not_mem_nil, or_false] at hit
  obtain ⟨d, hd, rfl⟩ := hit
  refine ⟨rfl, ?_⟩
  rcases hd with rfl | rfl | rfl
  · exact (by decide : expiryEntry ≠ [])
  · exact (by decide : keyEntry ≠ [])
  · exact h.ne_nil

variable [G1Group G] [DecidableEq G]

omit [G1Group G] in
theorem executeUpdateName_ok [Zero G] (haction : program.action = .updateName)
    (h : executeUpdateName b nHeight view o program = .ok view') :
    NameStep b nHeight program view view' := by
  simp only [executeUpdateName, Except.bind_eq_ok_iff, Except.pure_eq_ok_iff] at h
  obtain ⟨_, _, _, hnames, _, _, mapData, hdata, _, howner, _, hkey, _, _, rfl⟩ := h
  unfold checkNameKey at howner
  split at howner
  · cases howner
  · next value hvalue =>
    split at howner
    · cases howner
    · next key helement =>
      simp only [Except.rejectIf_eq_ok_iff, ne_eq, not_not] at howner
      refine .updated haction value ?_ ?_ (entryChecked_of_ok hnames hkey) rfl rfl
      · rw [owner_of_consolidated hdata, hvalue]
      · rw [helement, howner]

theorem executeName_ok (h : executeName b nHeight view o program = .ok view') :
    NameStep b nHeight program view view' := by
  unfold executeName at h
  split at h
  · next haction =>
    simp only [executeRegisterName, Except.bind_eq_ok_iff, Except.pure_eq_ok_iff] at h
    obtain ⟨_, _, rfl⟩ := h
    exact .registered haction rfl rfl
  · next haction => exact executeUpdateNameFirst_ok haction h
  · next haction => exact executeRenewName_ok haction h
  · next haction => exact executeUpdateName_ok haction h
  · next hregister hreveal hrenew hupdate =>
    cases h
    refine .other (fun hmem => ?_) rfl rfl
    simp only [nameActions, List.mem_cons, List.not_mem_nil, or_false] at hmem
    rcases hmem with haction | haction | haction | haction
    exacts [hregister haction, hreveal haction, hrenew haction, hupdate haction]

/-- The output carries a program, and names are live. -/
def Execution.Live (fDotNav : Bool) (p : Execution G) : Prop :=
  fDotNav = true ∧ p.output.1.vData.isEmpty = false

variable {p : Execution G}

/-- **What a program does to names.** -/
theorem executeProgram_names (h : p.Ran b nHeight fDotNav) :
    (p.Live fDotNav → NameStep b nHeight (p.program b) p.before p.after) ∧
      (¬ p.Live fDotNav →
        p.after.nameRecords = p.before.nameRecords ∧ p.after.nameData = p.before.nameData) := by
  unfold Execution.Ran executeProgram at h
  split at h
  · next hempty =>
    have hsame : p.before = p.after := Except.ok.inj h
    rw [← hsame]
    exact ⟨fun hlive => absurd hempty (by rw [hlive.2]; decide), fun _ => ⟨rfl, rfl⟩⟩
  · next hdata =>
    simp only [Traced.bind_eq_ok_iff, Traced.result_ofExcept] at h
    obtain ⟨_, _, _, _, mid, htoken, hname⟩ := h
    have htokens : mid = { p.before with tokens := mid.tokens } := by
      split at htoken
      · exact executeToken_tokens htoken
      · cases htoken
        rfl
    have hnames : mid.nameRecords = p.before.nameRecords ∧ mid.nameData = p.before.nameData := by
      rw [htokens]
      exact ⟨rfl, rfl⟩
    refine ⟨fun hlive => ?_, fun hlive => ?_⟩
    · rw [if_pos hlive.1] at hname
      have hstep : NameStep b nHeight (p.program b) mid p.after := executeName_ok hname
      by_cases haction : (p.program b).action ∈ nameActions
      · -- a program of names does not touch tokens
        have hskip : executeToken b p.before p.output.1 (p.program b) = .ok p.before := by
          simp only [nameActions, List.mem_cons, List.not_mem_nil, or_false] at haction
          rcases haction with haction | haction | haction | haction <;>
            simp only [executeToken, haction]
        have hmid : mid = p.before := by
          split at htoken
          · exact Except.ok.inj (htoken.symm.trans hskip)
          · exact (Except.ok.inj htoken).symm
        rw [← hmid]
        exact hstep
      · rcases hstep with ⟨_, hrecords, hkept⟩ | ⟨heq, _⟩ | ⟨heq, _⟩ |
          ⟨heq, _, _, _⟩ | ⟨heq, _, _, _, _, _, _⟩
        · exact .other haction (hrecords.trans hnames.1) (hkept.trans hnames.2)
        all_goals exact absurd (by simp [nameActions, heq]) haction
    · have hoff : fDotNav = false := by
        by_contra hon
        exact hlive ⟨by simpa using hon, by simpa using hdata⟩
      rw [hoff, if_neg (by decide)] at hname
      cases hname
      exact hnames

/-- Records are only registered. -/
theorem records_of_ran (h : p.Ran b nHeight fDotNav) :
    p.after.nameRecords = p.before.nameRecords ∨
      (p.program b).action = .registerName ∧ p.after.nameRecords =
        Function.update p.before.nameRecords ((p.program b).hParameters.headD 0)
          (some { height := entryHeight nHeight }) := by
  obtain ⟨hlive, hdead⟩ := executeProgram_names h
  by_cases hp : p.Live fDotNav
  · rcases hlive hp with ⟨_, hrecords, _⟩ | ⟨haction, hrecords, _⟩ |
      ⟨_, _, _, _, _, _, hrecords, _⟩ | ⟨_, _, hrecords, _⟩ | ⟨_, _, _, _, _, hrecords, _⟩
    · exact .inl hrecords
    · exact .inr ⟨haction, hrecords⟩
    all_goals exact .inl hrecords
  · exact .inl (hdead hp).1

/-- The entries are those before and some more, of one height. -/
def Appends (nHeight : Int) (data data' : NameDataValues) : Prop :=
  ∃ extra : NameDataValues, data' = extra.foldl added data ∧
    ∀ it ∈ extra, it.1 = entryHeight nHeight ∧ it.2.key ≠ []

theorem Appends.refl (nHeight : Int) (data : NameDataValues) : Appends nHeight data data :=
  ⟨[], rfl, fun it hit => by cases hit⟩

theorem Appends.single {d : NameDataValue} (h : d.key ≠ []) :
    Appends nHeight data (added data (entryHeight nHeight, d)) := by
  refine ⟨[(entryHeight nHeight, d)], rfl, fun it hit => ?_⟩
  rw [List.mem_singleton.mp hit]
  exact ⟨rfl, h⟩

/-- **Entries are only added**, under the height of the block. -/
theorem appends_of_ran (h : p.Ran b nHeight fDotNav)
    (id : Uint256) : Appends nHeight (p.before.nameData id) (p.after.nameData id) := by
  -- what is written to one name, seen from any name
  have hupdate : ∀ {id' : Uint256} {data : NameDataValues},
      p.after.nameData = Function.update p.before.nameData id' data →
      Appends nHeight (p.before.nameData id') data →
      Appends nHeight (p.before.nameData id) (p.after.nameData id) := by
    intro id' data hdata happends
    rw [hdata]
    by_cases hid : id = id'
    · subst hid
      rw [Function.update_self]
      exact happends
    · rw [Function.update_of_ne hid]
      exact .refl _ _
  obtain ⟨hlive, hdead⟩ := executeProgram_names h
  by_cases hp : p.Live fDotNav
  · rcases hlive hp with ⟨_, _, hdata⟩ | ⟨_, _, hdata⟩ | ⟨_, _, _, _, _, hentry, _, hdata⟩ |
      ⟨_, _, _, hdata⟩ | ⟨_, _, _, _, hentry, _, hdata⟩
    · rw [hdata]
      exact .refl _ _
    · rw [hdata]
      exact .refl _ _
    · exact hupdate hdata ⟨_, rfl, fun it hit => mem_revealEntries hentry hit⟩
    · exact hupdate hdata (.single (by decide : expiryEntry ≠ []))
    · exact hupdate hdata (.single hentry.ne_nil)
  · rw [(hdead hp).2]
    exact .refl _ _

end Steps

/-! ## What a program may do to an owner -/

theorem toNat_entryHeight (nHeight : Int) : (entryHeight nHeight).toNat = toUint64 nHeight := by
  have hlt : toUint64 nHeight < 2 ^ 64 := by
    unfold toUint64
    omega
  rw [entryHeight, UInt64.toNat_ofNat_of_lt' hlt]

/-- The expiry that is written at a height. -/
def nextExpiry (nHeight : Int) (view : CStateView G) : Nat :=
  (toUint64 nHeight + view.param .dotnavLength) % 2 ^ 64

/-- The expiry is ahead, and `Consolidate` can read it. -/
def ExpiresAhead (nHeight : Int) (view : CStateView G) : Prop :=
  toUint64 nHeight < nextExpiry nHeight view ∧ nextExpiry nHeight view < 2 ^ 63

instance (nHeight : Int) (view : CStateView G) : Decidable (ExpiresAhead nHeight view) :=
  inferInstanceAs (Decidable (_ ∧ _))

/-- The owner of a name stays, is replaced by an update that the owner signed for, or comes from
a registration that is six blocks old. -/
inductive OwnerMove [Zero G] (b : Bls G) (nHeight : Int) (registered : Uint256 → Int → Prop)
    (program : Predicate G) (view view' : CStateView G) (id : Uint256) : Prop
  | kept (same : owner (view'.nameData id) nHeight = owner (view.nameData id) nHeight)
  | handedOver (action : program.action = .updateName)
      (name : getHashName b.toCrypto (program.str 0) = id) (value : Bytes)
      (owned : owner (view.nameData id) nHeight = some value)
      (key : b.fromBytes (parseHex value) = .ok program.key)
      (entry : program.str 2 = keyEntry)
      (next : owner (view'.nameData id) nHeight = some (program.str 3))
  | revealed (action : program.action = .updateNameFirst)
      (name : getHashName b.toCrypto (program.str 0) = id)
      (free : owner (view.nameData id) nHeight = none) (height : Int)
      (record : registered (getHashIdName b.toCrypto (program.str 0) program.key) height)
      (mature : height + 6 ≤ nHeight)
      (next : owner (view'.nameData id) nHeight = some
        (if program.str 2 = keyEntry then program.str 3 else hexStr (b.serialize program.key)))

section Moves

variable {b : Bls G} {nHeight : Int} {program : Predicate G} {view view' : CStateView G}
  {registered : Uint256 → Int → Prop}

theorem owner_renewed (howned : (owner data nHeight).isSome) :
    owner (added data (entryHeight nHeight, expiryValue nHeight view)) nHeight =
      if ExpiresAhead nHeight view then owner data nHeight else none := by
  obtain ⟨value, hvalue⟩ := Option.isSome_iff_exists.mp howned
  obtain ⟨nExpiry, hexp, -, hentry⟩ := expiry_of_owner hvalue
  rw [owner_added_expiry rfl (show (expiryValue nHeight view).value = decimal
    (nextExpiry nHeight view) from rfl), hexp, hentry, hvalue]
  rfl

/-- The last entry of `_key` is the owner, unless the name has expired. -/
theorem owner_added_key_cases {d : NameDataValue} (hkey : d.key = keyEntry) :
    owner (added data (entryHeight nHeight, d)) nHeight = none ∨
      owner (added data (entryHeight nHeight, d)) nHeight = some d.value := by
  rw [owner_added_key (entryHeight nHeight, d) hkey (toNat_entryHeight nHeight).le]
  cases expiry data with
  | none => exact .inl rfl
  | some nExpiry =>
    rw [Option.bind_some]
    split
    · unfold said
      split
      · exact .inr rfl
      · exact .inl rfl
    · exact .inl rfl

theorem Predicate.EntryChecked.ne_expiry (h : program.EntryChecked b) :
    program.str 2 ≠ expiryEntry := by
  intro heq
  have hkey := h.key (by rw [heq]; decide)
  rw [heq] at hkey
  exact absurd hkey (by decide)

theorem owner_revealed [Zero G] (nHeight : Int) (view : CStateView G)
    (h : program.EntryChecked b) :
    owner (revealedData b nHeight view program) nHeight = none ∨
      owner (revealedData b nHeight view program) nHeight = some
        (if program.str 2 = keyEntry then program.str 3 else hexStr (b.serialize program.key)) := by
  by_cases hkey : program.str 2 = keyEntry
  · rw [if_pos hkey]
    exact owner_added_key_cases hkey
  · rw [if_neg hkey, revealedData, revealEntries, List.map_cons, List.map_cons, List.map_cons,
      List.map_nil, List.foldl_cons, List.foldl_cons, List.foldl_cons, List.foldl_nil,
      owner_added_of_ne hkey h.ne_expiry]
    exact owner_added_key_cases rfl

/-- **What a program may do to an owner**, if a renewal sets an expiry that is ahead. -/
theorem NameStep.ownerMove [Zero G] (h : NameStep b nHeight program view view')
    (hempty : ∀ key, b.fromBytes [] ≠ .ok key)
    (hrecord : ∀ hash r, view.getNameRecord hash = some r →
      ¬ entryHeight nHeight - r.height < 6 → ∃ height, registered hash height ∧
        height + 6 ≤ nHeight)
    (hrenew : program.action = .renewName → ExpiresAhead nHeight view) (id : Uint256) :
    OwnerMove b nHeight registered program view view' id := by
  -- only the entries of one name are written
  have hothers : ∀ {data : NameDataValues}, getHashName b.toCrypto (program.str 0) ≠ id →
      view'.nameData = Function.update view.nameData (getHashName b.toCrypto (program.str 0)) data →
      OwnerMove b nHeight registered program view view' id := by
    intro data hne hdata
    refine .kept ?_
    rw [hdata, Function.update_of_ne (Ne.symm hne)]
  rcases h with ⟨_, _, hdata⟩ | ⟨_, _, hdata⟩ |
    ⟨haction, r, hr, hmature, hfree, hentry, _, hdata⟩ | ⟨haction, howned, _, hdata⟩ |
    ⟨haction, value, howned, hkey, hentry, _, hdata⟩
  · exact .kept (by rw [hdata])
  · exact .kept (by rw [hdata])
  · by_cases hid : getHashName b.toCrypto (program.str 0) = id
    · subst hid
      obtain ⟨height, hreg, hheight⟩ := hrecord _ r hr hmature
      have hafter : view'.nameData (getHashName b.toCrypto (program.str 0)) =
          revealedData b nHeight view program := by rw [hdata, Function.update_self]
      rcases owner_revealed nHeight view hentry with hnone | hsome
      · exact .kept (by rw [hafter, hnone, hfree])
      · exact .revealed haction rfl hfree height hreg hheight (by rw [hafter, hsome])
    · exact hothers hid hdata
  · by_cases hid : getHashName b.toCrypto (program.str 0) = id
    · subst hid
      refine .kept ?_
      rw [hdata, Function.update_self, owner_renewed howned, if_pos (hrenew haction)]
    · exact hothers hid hdata
  · by_cases hid : getHashName b.toCrypto (program.str 0) = id
    · subst hid
      by_cases hset : program.str 2 = keyEntry
      · refine .handedOver haction rfl value howned hkey hset ?_
        have hne : program.str 3 ≠ [] := by
          intro hnil
          obtain ⟨key, helement⟩ := hentry.element hset
          rw [hnil] at helement
          exact hempty key helement
        obtain ⟨nExpiry, hexp, hlive, -⟩ := expiry_of_owner howned
        rw [hdata, Function.update_self,
          owner_added_key (entryHeight nHeight, program.entry) hset
            (toNat_entryHeight nHeight).le, hexp, Option.bind_some, if_pos hlive]
        exact if_pos hne
      · refine .kept ?_
        rw [hdata, Function.update_self, owner_added_of_ne hset hentry.ne_expiry]
    · exact hothers hid hdata

/-- **A renewal that keeps the owner** sets an expiry that is ahead. -/
theorem NameStep.expiresAhead [Zero G] (h : NameStep b nHeight program view view')
    (haction : program.action = .renewName)
    (hmove : OwnerMove b nHeight registered program view view'
      (getHashName b.toCrypto (program.str 0))) :
    ExpiresAhead nHeight view := by
  rcases h with ⟨hnot, _⟩ | ⟨heq, _⟩ | ⟨heq, _⟩ | ⟨_, howned, _, hdata⟩ |
    ⟨heq, _⟩
  · exact absurd (by simp [nameActions, haction]) hnot
  · cases haction.symm.trans heq
  · cases haction.symm.trans heq
  · rcases hmove with hkept | ⟨heq, _⟩ | ⟨heq, _⟩
    · rw [hdata, Function.update_self, owner_renewed howned] at hkept
      by_contra hnot
      rw [if_neg hnot] at hkept
      rw [← hkept] at howned
      cases howned
    · cases haction.symm.trans heq
    · cases haction.symm.trans heq
  · cases haction.symm.trans heq

end Moves

/-! ## Chains -/

namespace NodeState

variable {view : CStateView G}

section Chain

variable [G1Group G] [DecidableEq G] {nd : ChainNode G} {s : NodeState G}
  {l : List (BlockEntry G)} {n : Nat} {e : BlockEntry G} {u : NodeState G} {p : Execution G}

/-- A program of the chain, up to block `n`, registers the hash at the height. -/
def RegisteredBy (nd : ChainNode G) (s : NodeState G) (l : List (BlockEntry G)) (n : Nat)
    (hash : Uint256) (height : Int) : Prop :=
  ∃ m e u p, m ≤ n ∧ ExecutedAt nd s l m e u p ∧ e.pindex.nHeight = height ∧
    (p.program nd.toBls).action = .registerName ∧
    (p.program nd.toBls).hParameters.headD 0 = hash

/-- Block `n` of the chain leaves owners alone, but for what the programs may do. -/
structure OwnersSafeAt (nd : ChainNode G) (s : NodeState G) (l : List (BlockEntry G)) (n : Nat)
    (e : BlockEntry G) (u : NodeState G) : Prop where
  /-- the executions are all that happens to names -/
  executes : ∀ t, u.connectTip nd e = .ok t → ∃ v, Executes nd.toBls e.pindex.nHeight
    (u.dotNavLive nd e) u.view (u.executions nd e) v ∧ v.SameAssets t.view
  /-- before them, a name may expire -/
  expires : ∀ name, let data := u.view.nameData (getHashName nd.toCrypto name)
    owner data e.pindex.nHeight = owner data u.tipHeight ∨
      owner data e.pindex.nHeight = none ∧ ∃ nExpiry, expiry data = some nExpiry ∧
        nExpiry ≤ toUint64 e.pindex.nHeight
  moves : ∀ p ∈ u.executions nd e, ∀ name,
    OwnerMove nd.toBls e.pindex.nHeight (RegisteredBy nd s l n) (p.program nd.toBls) p.before
      p.after (getHashName nd.toCrypto name)

/-- Every renewal of the chain sets an expiry that is ahead and can be read. -/
def RenewalsAhead (nd : ChainNode G) (s : NodeState G) (l : List (BlockEntry G)) : Prop :=
  ∀ n e u p, ExecutedAt nd s l n e u p → p.Live (u.dotNavLive nd e) →
    (p.program nd.toBls).action = .renewName → ExpiresAhead e.pindex.nHeight u.view

/-- Records and entries are those of programs of the chain. -/
structure NamesWritten (nd : ChainNode G) (s : NodeState G) (l : List (BlockEntry G)) (n : Nat)
    (view : CStateView G) : Prop where
  records : ∀ id r, view.nameRecords id = some r → ∃ m e u p, m < n ∧
    ExecutedAt nd s l m e u p ∧ (p.program nd.toBls).action = .registerName ∧
    (p.program nd.toBls).hParameters.headD 0 = id ∧ r.height = entryHeight e.pindex.nHeight
  data : ∀ id, ∀ it ∈ view.nameData id, it.2.key ≠ [] ∧ ∃ m e u, m < n ∧
    ConnectedAt nd s l m e u ∧ it.1 = entryHeight e.pindex.nHeight

theorem NamesWritten.next (h : NamesWritten nd s l n view) : NamesWritten nd s l (n + 1) view := by
  constructor
  · intro id r hr
    obtain ⟨m, e, u, p, hm, hrest⟩ := h.records id r hr
    exact ⟨m, e, u, p, by omega, hrest⟩
  · intro id it hit
    obtain ⟨hkey, m, e, u, hm, hrest⟩ := h.data id it hit
    exact ⟨hkey, m, e, u, by omega, hrest⟩

theorem NamesWritten.of_same {view' : CStateView G} (h : NamesWritten nd s l n view)
    (hsame : view.SameAssets view') : NamesWritten nd s l n view' := by
  constructor
  · rw [hsame.nameRecords]
    exact h.records
  · rw [hsame.nameData]
    exact h.data

/-- **A program keeps** records and entries those of the chain. -/
theorem NamesWritten.step (hat : ExecutedAt nd s l n e u p)
    (hrun : p.Ran nd.toBls e.pindex.nHeight (u.dotNavLive nd e))
    (h : NamesWritten nd s l (n + 1) p.before) : NamesWritten nd s l (n + 1) p.after := by
  constructor
  · intro id r hr
    rcases records_of_ran hrun with hsame | ⟨haction, hrecords⟩
    · rw [hsame] at hr
      exact h.records id r hr
    · rw [hrecords] at hr
      by_cases hid : id = (p.program nd.toBls).hParameters.headD 0
      · subst hid
        rw [Function.update_self] at hr
        cases hr
        exact ⟨n, e, u, p, by omega, hat, haction, rfl, rfl⟩
      · rw [Function.update_of_ne hid] at hr
        exact h.records id r hr
  · intro id it hit
    obtain ⟨extra, hdata, hnew⟩ := appends_of_ran hrun id
    rw [hdata] at hit
    rcases mem_foldl_added hit with hold | hmem
    · exact h.data id it hold
    · obtain ⟨hheight, hkey⟩ := hnew it hmem
      exact ⟨hkey, n, e, u, by omega, hat.toConnectedAt, hheight⟩

/-- The node has no names. -/
structure Nameless (s : NodeState G) : Prop where
  records : ∀ id, s.view.nameRecords id = none
  data : ∀ id, s.view.nameData id = []

/-- **Records and entries of a chain** that starts without names. -/
theorem Nameless.namesWritten (hs : s.Nameless) (nd : ChainNode G) (l : List (BlockEntry G)) :
    (∀ n t, after nd s l n = .ok t → NamesWritten nd s l n t.view) ∧
      ∀ {n e u p}, ExecutedAt nd s l n e u p →
        p.Ran nd.toBls e.pindex.nHeight (u.dotNavLive nd e) ∧
          NamesWritten nd s l (n + 1) p.before := by
  refine invariant_after ⟨?_, ?_⟩ (fun n v h => h.next) ?_ ?_
  · intro id r hr
    rw [hs.records id] at hr
    cases hr
  · intro id it hit
    rw [hs.data id] at hit
    cases hit
  · intro n v v' hsame h
    exact h.of_same hsame
  · intro n e u p hat hrun h
    exact h.step hat hrun

/-- Heights of the chain are those of C++. -/
structure HeightsFit (s : NodeState G) (l : List (BlockEntry G)) : Prop where
  start : 0 ≤ s.tipHeight
  blocks : ∀ e ∈ l, e.pindex.nHeight < 2 ^ 31

theorem HeightsFit.range (hfit : HeightsFit s l) (h : ConnectedAt nd s l n e u) :
    0 ≤ u.tipHeight ∧ e.pindex.nHeight = u.tipHeight + 1 ∧ e.pindex.nHeight < 2 ^ 31 := by
  have hstart := hfit.start
  have hle := tipHeight_le_after (Nat.zero_le n) (Run.after_zero s l) h.reached
  exact ⟨by omega, h.height_eq, hfit.blocks e (List.mem_of_getElem? h.entry)⟩

theorem toUint64_height {height : Int} (h0 : 0 ≤ height) (h1 : height < 2 ^ 31) :
    toUint64 height = height.toNat := toUint64_of_nonneg h0 (by omega)

/-- Entries are not above the block. -/
theorem NamesWritten.height_le (hfit : HeightsFit s l) (h : NamesWritten nd s l (n + 1) view)
    (hat : ConnectedAt nd s l n e u) {id : Uint256} {it : UInt64 × NameDataValue}
    (hit : it ∈ view.nameData id) : it.1.toNat ≤ toUint64 e.pindex.nHeight := by
  obtain ⟨-, m, e', u', hm, hat', hheight⟩ := h.data id it hit
  obtain ⟨htip, hnext, hmax⟩ := hfit.range hat
  obtain ⟨htip', hnext', hmax'⟩ := hfit.range hat'
  have hle := hat'.height_mono (by omega) hat
  rw [hheight, toNat_entryHeight, toUint64_height (by omega) hmax', toUint64_height (by omega) hmax]
  omega

/-- A record that passes the check of its age was registered six blocks before. -/
theorem NamesWritten.mature (hfit : HeightsFit s l) (h : NamesWritten nd s l (n + 1) view)
    (hat : ConnectedAt nd s l n e u) {hash : Uint256} {r : NameRecordValue}
    (hr : view.getNameRecord hash = some r)
    (hmature : ¬ entryHeight e.pindex.nHeight - r.height < 6) :
    ∃ height, RegisteredBy nd s l n hash height ∧ height + 6 ≤ e.pindex.nHeight := by
  obtain ⟨m, e', u', p, hm, hreg, haction, hhash, hheight⟩ :=
    h.records hash r (Option.filter_eq_some_iff.mp hr).1
  refine ⟨e'.pindex.nHeight, ⟨m, e', u', p, by omega, hreg, rfl, haction, hhash⟩, ?_⟩
  obtain ⟨htip, hnext, hmax⟩ := hfit.range hat
  obtain ⟨htip', hnext', hmax'⟩ := hfit.range hreg.toConnectedAt
  have hle := hreg.toConnectedAt.height_mono (by omega) hat
  have hold : (entryHeight e'.pindex.nHeight).toNat = e'.pindex.nHeight.toNat := by
    rw [toNat_entryHeight, toUint64_height (by omega) hmax']
  have hnew : (entryHeight e.pindex.nHeight).toNat = e.pindex.nHeight.toNat := by
    rw [toNat_entryHeight, toUint64_height (by omega) hmax]
  rw [hheight, UInt64.lt_iff_toNat_lt, UInt64.toNat_sub_of_le, hold, hnew] at hmature
  · have hsix : (6 : UInt64).toNat = 6 := rfl
    omega
  · rw [UInt64.le_iff_toNat_le, hold, hnew]
    omega

/-- **Owners are safe** on a chain that starts without names, if and only if every renewal sets an
expiry that is ahead and can be read. -/
theorem owners_safe_iff (hs : s.Nameless) (hfit : HeightsFit s l)
    (hempty : ∀ key, nd.fromBytes [] ≠ .ok key) :
    (∀ n e u, ConnectedAt nd s l n e u → OwnersSafeAt nd s l n e u) ↔ RenewalsAhead nd s l := by
  obtain ⟨hviews, hprograms⟩ := hs.namesWritten nd l
  have hparams : ∀ {n e u p}, ExecutedAt nd s l n e u p →
      (ExpiresAhead e.pindex.nHeight p.before ↔ ExpiresAhead e.pindex.nHeight u.view) := by
    intro n e u p hat
    rw [ExpiresAhead, ExpiresAhead, nextExpiry, nextExpiry, hat.params.param]
  constructor
  · intro hsafe n e u p hat hlive haction
    have hmove := (hsafe n e u hat.toConnectedAt).moves p hat.mem ((p.program nd.toBls).str 0)
    have hstep := (executeProgram_names (hprograms hat).1).1 hlive
    exact (hparams hat).mp (hstep.expiresAhead haction hmove)
  · intro hahead n e u hat
    obtain ⟨htip, hnext, hmax⟩ := hfit.range hat
    refine ⟨fun t ht => executes_of_connectTip ht, fun name => ?_, fun p hp name => ?_⟩
    · refine owner_later ?_ fun it hit => ?_
      · rw [toUint64_height htip (by omega), toUint64_height (by omega) hmax]
        omega
      · obtain ⟨-, m, e', u', hm, hat', hheight⟩ := (hviews n u hat.reached).data _ it hit
        obtain ⟨htip', hnext', hmax'⟩ := hfit.range hat'
        have hle := hat'.height_le hm hat.reached
        rw [hheight, toNat_entryHeight, toUint64_height (by omega) hmax',
          toUint64_height htip (by omega)]
        omega
    · have hexec : ExecutedAt nd s l n e u p := ⟨hat, hp⟩
      obtain ⟨hrun, hwritten⟩ := hprograms hexec
      obtain ⟨hlive, hdead⟩ := executeProgram_names hrun
      by_cases hon : p.Live (u.dotNavLive nd e)
      · refine (hlive hon).ownerMove hempty (fun hash r hr hmature => ?_) (fun haction => ?_) _
        · exact hwritten.mature hfit hat hr hmature
        · exact (hparams hexec).mpr (hahead n e u p hexec hon haction)
      · exact .kept (by rw [(hdead hon).2])

end Chain

end NodeState

/-! ## A renewal that ends the name -/

namespace ShortenedName

/-- The length of names is to be seven, and the fee for more data nothing. -/
def objects : List (Bytes × JsonObject) :=
  [([1], jsonOf [('v', numMember 45), ('m', .arr [.num (some 25), .num (some 27)]),
      ('n', numMember 1), ('q', textMember "question"),
      ('a', .arr [.str (ascii "7"), .str (ascii "0")])])]

def nd : ChainNode (ZMod groupOrder) :=
  daoChain { fundAndDao with daoSuper := true, dotNav := true } objects

/-- The parameters of the development network, with a small fee for names. -/
def params (p : ConsensusParam) : Int := if p = .navnsFee then 3 else devNetParams p

def start : NodeState (ZMod groupOrder) :=
  { freshNode 0 [] with
    view := { coinView (navOutput 20000000000 :: List.replicate 3 (keyedOutput 3)) with
      consensusParams := params } }

def name : Bytes := ascii "alice.nav"

/-- A transaction that pays the fee and carries a program. -/
def programTx (n : UInt32) (vData : Bytes) : CTransaction (ZMod groupOrder) :=
  { nVersion := 0x30, nTime := n, vin := [coinInput n], vchBalanceSig := [1], vchTxSig := [1],
    vout := [{ nValue := 3, scriptPubKey := [opReturn, opCfund], vData }] }

def registerTx : CTransaction (ZMod groupOrder) :=
  programTx 1 (toLE 4 6 ++ writeUint256 (getHashIdName nd.toCrypto name (5 : Nat)))

def revealTx : CTransaction (ZMod groupOrder) :=
  programTx 2 (toLE 4 7 ++ writeVector name ++ writeG1 nd.toCrypto (5 : Nat) ++ writeVector [] ++
    writeVector (ascii "url") ++ writeVector (ascii "1"))

def renewTx : CTransaction (ZMod groupOrder) := programTx 3 (toLE 4 9 ++ writeVector name)

def consultationTx : CTransaction (ZMod groupOrder) :=
  contributionTx consultationVersion 0 20000000000 [1]

def answer : Uint256 :=
  textsHash nd.toCrypto (consultationTx.getHash nd.toCrypto) [ascii "7", ascii "0"]

/-- The block of height `n`: the name is registered, revealed and renewed, and every block supports
the answer, or votes for it once it can be voted on. -/
def blockAt (renewal n : Nat) : BlockEntry (ZMod groupOrder) :=
  entryAt n [if n < 40 then supportVote answer else answerVote answer] []
    (if n = 2 then [consultationTx] else if n = 3 then [registerTx]
      else if n = 9 then [revealTx] else if n = renewal then [renewTx] else [])

def blocks (renewal count : Nat) : List (BlockEntry (ZMod groupOrder)) :=
  (List.range count).map fun n => blockAt renewal (n + 2)

theorem start_nameless : start.Nameless := ⟨fun _ => rfl, fun _ => rfl⟩

theorem heightsFit {renewal count : Nat} (h : count ≤ 100) :
    NodeState.HeightsFit start (blocks renewal count) := by
  refine ⟨by decide, fun e he => ?_⟩
  obtain ⟨n, hn, rfl⟩ := List.mem_map.mp he
  rw [List.mem_range] at hn
  show ((n + 2 : Nat) : Int) < 2 ^ 31
  omega

/-- The owner of the name at a height. -/
def ownerAt (view : CStateView (ZMod groupOrder)) (nHeight : Int) : Option Bytes :=
  owner (view.nameData (getHashName nd.toCrypto name)) nHeight

/-- **A renewal removes the owner** after the length of names was voted to be nothing: the values
of the super consultation were swapped. -/
theorem renewal_removes_owner :
    start.Nameless ∧ NodeState.HeightsFit start (blocks 50 49) ∧
      (∃ t, NodeState.after nd start (blocks 50 49) 49 = .ok t) ∧
      ¬ ∀ n e u, NodeState.ConnectedAt nd start (blocks 50 49) n e u →
        NodeState.OwnersSafeAt nd start (blocks 50 49) n e u := by
  have hrun : ((NodeState.after nd start (blocks 50 49) 48).bind fun u =>
      (u.connectTip nd (blockAt 50 50)).map fun _ => (u.executions nd (blockAt 50 50)).any fun p =>
        (p.program nd.toBls).action = .renewName && (ownerAt p.before 50).isSome &&
          (ownerAt p.after 50).isNone) = .ok true := by decide +kernel
  obtain ⟨u, hu, hrun⟩ := (Except.bind_eq_ok_iff _ _ _).mp hrun
  obtain ⟨t, ht, hany⟩ := Except.exists_of_map_eq_ok hrun
  refine ⟨start_nameless, heightsFit (by decide),
    ⟨t, (Run.after_succ_eq_ok_iff rfl).mpr ⟨u, hu, ht⟩⟩, fun hsafe => ?_⟩
  obtain ⟨p, hp, hlost⟩ := List.any_eq_true.mp hany
  simp only [Bool.and_eq_true, decide_eq_true_eq] at hlost
  obtain ⟨⟨haction, hbefore⟩, hafter⟩ := hlost
  have hmove := (hsafe 48 (blockAt 50 50) u ⟨rfl, hu, t, ht⟩).moves p hp name
  rcases hmove with hkept | ⟨heq, _⟩ | ⟨heq, _⟩
  · have hsame : ownerAt p.after 50 = ownerAt p.before 50 := hkept
    rw [hsame, Option.isNone_iff_eq_none] at hafter
    rw [hafter] at hbefore
    cases hbefore
  · cases haction.symm.trans heq
  · cases haction.symm.trans heq

/-- A name that is renewed while its length is that of the network. -/
theorem owners_safe_renewed :
    ∃ t, NodeState.after nd start (blocks 10 9) 9 = .ok t ∧ (ownerAt t.view 10).isSome ∧
      ∀ n e u, NodeState.ConnectedAt nd start (blocks 10 9) n e u →
        NodeState.OwnersSafeAt nd start (blocks 10 9) n e u := by
  have hall : Run.all (NodeState.connectTip nd) (fun u e => (u.executions nd e).all fun p =>
      decide ((p.program nd.toBls).action = .renewName → ExpiresAhead e.pindex.nHeight u.view))
      start (blocks 10 9) = true := by decide +kernel
  refine Except.exists_and_of_decide (by decide +kernel) fun t ht _ =>
    (NodeState.owners_safe_iff start_nameless (heightsFit (by decide))
      (fun key h => by cases h)).mpr ?_
  intro n e u p hat _ haction
  have hcheck := List.all_eq_true.mp (Run.of_all hall hat.entry hat.reached) p hat.mem
  exact of_decide_eq_true hcheck haction

end ShortenedName

end Navcoin
