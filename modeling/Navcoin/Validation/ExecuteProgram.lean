import Navcoin.Blsct.Verification
import Navcoin.Dotnav.Names

/-!
# The programs of a block

The part of `ConnectBlock` that executes the program an output carries: tokens are created,
minted, burnt and closed, names are registered, revealed, renewed and updated.

* `executeProgram_frame`: a program touches nothing but tokens and names;
* `mem_trace_executeProgram`, `executeProgram_ok`: which programs take effect.
-/

namespace Navcoin

variable {G : Type}

/-! ## Tokens -/

/-- `sParameters[i]`.  `REGISTER_NAME` has none, but its error messages read the first. -/
def Predicate.str (p : Predicate G) (i : Nat) : Bytes := p.sParameters.getD i []

section Tokens

variable [G1Group G] [DecidableEq G]

def executeMint (b : Bls G) (view : CStateView G) (program : Predicate G) :
    Except Failure (CStateView G) :=
  let tokenId := tokenHash b.toCrypto program.key
  match view.getToken tokenId with
  | none => .error (dos100 "wrong-token-id")
  | some token =>
    if token.nVersion = 0 then
      match token.increaseSupply (toInt64 program.number) with
      | none => .error (dos100 "cant-increase-supply")
      | some minted => .ok (view.modifyToken tokenId token minted)
    else if token.nVersion = 1 then do
      Except.rejectIf (program.number.toNat > toUint64 token.totalSupply) (dos100 "wrong-nft-id")
      Except.rejectIf (AssocMap.contains program.number token.mapMetadata)
        (dos100 "already-minted")
      let md := program.vParameters.headD []
      let mapMetadata := AssocMap.assign program.number md token.mapMetadata
      pure (view.modifyToken tokenId token { token with mapMetadata := mapMetadata })
    else .error (dos100 "unknown-token-version")

/-- `BURN` names the token by the output, not by a key. -/
def executeBurn (view : CStateView G) (o : CTxOut G) (program : Predicate G) :
    Except Failure (CStateView G) :=
  let tokenId := o.tokenId.token
  match view.getToken tokenId with
  | none => .error (dos100 "wrong-token-id")
  | some token =>
    if token.nVersion = 0 then
      match token.decreaseSupply (toInt64 program.number) with
      | none => .error (dos100 "cant-decrease-supply")
      | some burnt => .ok (view.modifyToken tokenId token burnt)
    else .error (dos100 "cant-burn")

def executeCreateToken (b : Bls G) (view : CStateView G) (program : Predicate G) :
    Except Failure (CStateView G) := do
  let tokenId := tokenHash b.toCrypto program.key
  Except.rejectIf (view.getToken tokenId).isSome (dos100 "already-known-token-id")
  let token := TokenInfo.new program.key (program.str 0) (program.str 1)
    (program.nParameters.getD 1 0) (program.nParameters.getD 0 0)
  pure (view.setToken tokenId { token with fDirty := true })

def executeStopMint (b : Bls G) (view : CStateView G) (program : Predicate G) :
    Except Failure (CStateView G) :=
  let tokenId := tokenHash b.toCrypto program.key
  match view.getToken tokenId with
  | none => .error (dos100 "wrong-token-id")
  | some token =>
    match token.stopMinting with
    | none => .error (dos100 "cant-stop-minting")
    | some stopped => .ok (view.modifyToken tokenId token stopped)

def executeToken (b : Bls G) (view : CStateView G) (o : CTxOut G) (program : Predicate G) :
    Except Failure (CStateView G) :=
  match program.action with
  | .mint => executeMint b view program
  | .burn => executeBurn view o program
  | .createToken => executeCreateToken b view program
  | .stopMint => executeStopMint b view program
  | _ => .ok view

end Tokens

/-! ## Names -/

section Names

/-- A rejection that quotes the name. -/
def nameError (reason : String) (program : Predicate G) : Failure :=
  dos100 (reason ++ ":" ++ text (program.str 0))

/-- The output contributes at least `fee` to the community fund. -/
def contributes (o : CTxOut G) (fee : Nat) : Bool :=
  o.scriptPubKey.isCommunityFundContribution && fee ≤ toUint64 o.nValue

/-- `Consolidate` in the block; an exception is caught at the end of the program. -/
def consolidated (data : NameDataValues) (nHeight : Int) :
    Except Failure (List (Bytes × Bytes)) :=
  match DotNav.consolidate data nHeight [] with
  | none => .error (dos100 "error-program-vdata")
  | some mapData => .ok mapData

/-- The value of an entry `_key` has to be a group element. -/
def checkKeyEntry (b : Bls G) (program : Predicate G) : Except Failure Unit :=
  if program.str 2 = DotNav.keyEntry then
    match b.fromBytes (parseHex (program.str 3)) with
    | .error _ => .error (nameError "invalid-key-to-update" program)
    | .ok _ => .ok ()
  else .ok ()

def checkEntryNames (program : Predicate G) : Except Failure Unit := do
  Except.rejectIf (!(DotNav.isValidKey (program.str 1) || program.str 1 = []))
    (nameError "invalid-subdomain" program)
  Except.rejectIf (!(DotNav.isValidKey (program.str 2) || program.str 2 = DotNav.keyEntry))
    (nameError "invalid-name" program)

/-- The entry a program writes. -/
def Predicate.entry (program : Predicate G) : NameDataValue :=
  { key := program.str 2, value := program.str 3, subdomain := program.str 1 }

/-- The size of what is written has to be paid for. -/
def checkWritten (c : Crypto G) (nHeight : Int) (view : CStateView G) (o : CTxOut G)
    (program : Predicate G) : Except Failure Unit := do
  let data := view.nameData (DotNav.getHashName c (program.str 0))
  Except.rejectIf data.isEmpty (nameError "could-not-verify-written-data" program)
  let mapData ← consolidated data nHeight
  let fee := DotNav.calculateSize mapData / view.param .dotnavMaxData *
    view.param .dotnavFeeExtraData
  Except.rejectIf (!contributes o fee) (nameError "register-name-missing-contribution" program)

def expiryValue (nHeight : Int) (view : CStateView G) : NameDataValue :=
  { key := DotNav.expiryEntry,
    value := decimal ((toUint64 nHeight + view.param .dotnavLength) % 2 ^ 64) }

def executeRegisterName (nHeight : Int) (view : CStateView G) (program : Predicate G) :
    Except Failure (CStateView G) := do
  let hash := program.hParameters.headD 0
  Except.rejectIf (view.getNameRecord hash).isSome
    (nameError "register-name-hash-already-known" program)
  pure (view.setNameRecord hash { height := UInt64.ofNat (toUint64 nHeight) })

/-- A registration is revealed: it has to be six blocks old and the name not taken. -/
def executeUpdateNameFirst [Zero G] (b : Bls G) (nHeight : Int) (view : CStateView G)
    (o : CTxOut G) (program : Predicate G) : Except Failure (CStateView G) := do
  let name := program.str 0
  let id := DotNav.getHashName b.toCrypto name
  Except.rejectIf (!contributes o (view.param .navnsFee))
    (nameError "register-name-missing-contribution" program)
  match view.getNameRecord (DotNav.getHashIdName b.toCrypto name program.key) with
  | none => .error (nameError "wrong-salt-name" program)
  | some recordvalue =>
    Except.rejectIf (UInt64.ofNat (toUint64 nHeight) - recordvalue.height < 6)
      (nameError "6-block-maturity-not-reached" program)
    let mapData ← consolidated (view.nameData id) nHeight
    Except.rejectIf (AssocMap.contains DotNav.keyEntry mapData)
      (nameError "already-revealed" program)
    Except.rejectIf (!DotNav.isValid name) (nameError "invalid-name" program)
    checkEntryNames program
    checkKeyEntry b program
    let height := UInt64.ofNat (toUint64 nHeight)
    let key : NameDataValue :=
      { key := DotNav.keyEntry, value := hexStr (b.serialize program.key) }
    let view := view.addNameData id (height, expiryValue nHeight view)
    let view := view.addNameData id (height, key)
    let view := view.addNameData id (height, program.entry)
    checkWritten b.toCrypto nHeight view o program
    pure view

/-- Anyone may pay for a name that is active. -/
def executeRenewName (b : Bls G) (nHeight : Int) (view : CStateView G) (o : CTxOut G)
    (program : Predicate G) : Except Failure (CStateView G) := do
  let id := DotNav.getHashName b.toCrypto (program.str 0)
  Except.rejectIf (!contributes o (view.param .navnsFee))
    (nameError "register-name-missing-contribution" program)
  let mapData ← consolidated (view.nameData id) nHeight
  Except.rejectIf (!AssocMap.contains DotNav.keyEntry mapData)
    (nameError "name-not-active" program)
  pure (view.addNameData id (UInt64.ofNat (toUint64 nHeight), expiryValue nHeight view))

/-- The key of the program is compared with the one of the name. -/
def checkNameKey [Zero G] [DecidableEq G] (b : Bls G) (mapData : List (Bytes × Bytes))
    (program : Predicate G) : Except Failure Unit :=
  match AssocMap.find? DotNav.keyEntry mapData with
  | none => .error (nameError "name-has-no-key" program)
  | some value =>
    match b.fromBytes (parseHex value) with
    | .error _ => .error (nameError "error-parsing-key" program)
    | .ok key => Except.rejectIf (program.key ≠ key) (dos100 "wrong-key-specified")

def executeUpdateName [Zero G] [DecidableEq G] (b : Bls G) (nHeight : Int) (view : CStateView G)
    (o : CTxOut G) (program : Predicate G) : Except Failure (CStateView G) := do
  let id := DotNav.getHashName b.toCrypto (program.str 0)
  let data := view.nameData id
  Except.rejectIf data.isEmpty (nameError "error-name" program)
  checkEntryNames program
  Except.rejectIf ((program.str 3).length > view.param .dotnavMaxData)
    (nameError "too-long-value" program)
  let mapData ← consolidated data nHeight
  checkNameKey b mapData program
  checkKeyEntry b program
  let view := view.addNameData id (UInt64.ofNat (toUint64 nHeight), program.entry)
  checkWritten b.toCrypto nHeight view o program
  pure view

def executeName [Zero G] [DecidableEq G] (b : Bls G) (nHeight : Int) (view : CStateView G)
    (o : CTxOut G) (program : Predicate G) : Except Failure (CStateView G) :=
  match program.action with
  | .registerName => executeRegisterName nHeight view program
  | .updateNameFirst => executeUpdateNameFirst b nHeight view o program
  | .renewName => executeRenewName b nHeight view o program
  | .updateName => executeUpdateName b nHeight view o program
  | _ => .ok view

end Names

/-! ## The program of an output -/

section Programs

/-- The parts of the view no program touches. -/
structure SameFunds (view view' : CStateView G) : Prop where
  coins : view'.coins = view.coins
  dao : view'.toDaoView = view.toDaoView

theorem SameFunds.refl (view : CStateView G) : SameFunds view view := ⟨rfl, rfl⟩

theorem SameFunds.trans {v₁ v₂ v₃ : CStateView G} (h : SameFunds v₁ v₂) (h' : SameFunds v₂ v₃) :
    SameFunds v₁ v₃ :=
  ⟨h'.coins.trans h.coins, h'.dao.trans h.dao⟩

variable [G1Group G] [DecidableEq G]
variable {program : Predicate G}

/-- The tokens of the view are live. -/
def CStateView.tokensEnabled (view : CStateView G) : Bool :=
  view.param .confidentialTokensEnabled != 0

/-- The block has a branch for the program. -/
def Predicate.takesEffect (view : CStateView G) (fDotNav : Bool) (p : Predicate G) : Bool :=
  match p.action with
  | .mint | .burn | .createToken | .stopMint => view.tokensEnabled
  | .registerName | .updateNameFirst | .renewName | .updateName => fDotNav
  | _ => false

/-- Execute the program of output `n` of `tx`. -/
def executeProgram (b : Bls G) (nHeight : Int) (fDotNav : Bool) (tx : CTransaction G)
    (view : CStateView G) (e : CTxOut G × Nat) : Traced (Event G) Failure (CStateView G) :=
  if e.1.vData.isEmpty then pure view else do
    let program := Predicate.ofVch b.toCrypto e.1.vData
    Traced.rejectIf (program.action = .err) (dos100 "error-program-vdata")
    Traced.onlyIf (program.takesEffect view fDotNav) (Traced.emit (.execute tx e.2 program))
    let view' ← Traced.ofExcept
      (if view.tokensEnabled then executeToken b view e.1 program else .ok view)
    Traced.ofExcept (if fDotNav then executeName b nHeight view' e.1 program else .ok view')

/-! ## What programs leave alone -/

section Frame

variable {b : Bls G} {nHeight : Int} {view view' : CStateView G} {o : CTxOut G}

theorem executeMint_tokens (h : executeMint b view program = .ok view') :
    view' = { view with tokens := view'.tokens } := by
  simp only [executeMint] at h
  split at h
  · cases h
  · split at h
    · split at h
      · cases h
      · cases h
        rfl
    · split at h
      · simp only [Except.bind_eq_ok_iff, Except.pure_eq_ok_iff] at h
        obtain ⟨_, _, _, _, rfl⟩ := h
        rfl
      · cases h

/-- The programs of tokens write tokens only. -/
theorem executeToken_tokens (h : executeToken b view o program = .ok view') :
    view' = { view with tokens := view'.tokens } := by
  unfold executeToken at h
  split at h
  · exact executeMint_tokens h
  · simp only [executeBurn] at h
    repeat' split at h
    all_goals cases h
    rfl
  · simp only [executeCreateToken, Except.bind_eq_ok_iff, Except.pure_eq_ok_iff] at h
    obtain ⟨_, _, rfl⟩ := h
    rfl
  · simp only [executeStopMint] at h
    repeat' split at h
    all_goals cases h
    rfl
  · cases h
    rfl

theorem executeName_frame (h : executeName b nHeight view o program = .ok view') :
    SameFunds view view' := by
  unfold executeName at h
  split at h
  · simp only [executeRegisterName, Except.bind_eq_ok_iff, Except.pure_eq_ok_iff] at h
    obtain ⟨_, _, rfl⟩ := h
    exact ⟨rfl, rfl⟩
  · simp only [executeUpdateNameFirst, Except.bind_eq_ok_iff] at h
    obtain ⟨_, _, h⟩ := h
    split at h
    · cases h
    · simp only [Except.bind_eq_ok_iff, Except.pure_eq_ok_iff] at h
      obtain ⟨_, _, _, _, _, _, _, _, _, _, _, _, _, _, rfl⟩ := h
      exact ⟨rfl, rfl⟩
  · simp only [executeRenewName, Except.bind_eq_ok_iff, Except.pure_eq_ok_iff] at h
    obtain ⟨_, _, _, _, _, _, rfl⟩ := h
    exact ⟨rfl, rfl⟩
  · simp only [executeUpdateName, Except.bind_eq_ok_iff, Except.pure_eq_ok_iff] at h
    obtain ⟨_, _, _, _, _, _, _, _, _, _, _, _, _, _, rfl⟩ := h
    exact ⟨rfl, rfl⟩
  · cases h
    exact .refl view

/-- **The frame of a program.** -/
theorem executeProgram_frame {fDotNav : Bool} {tx : CTransaction G} {e : CTxOut G × Nat}
    (h : (executeProgram b nHeight fDotNav tx view e).result = .ok view') :
    SameFunds view view' := by
  unfold executeProgram at h
  split at h
  · cases h
    exact .refl view
  · simp only [Traced.bind_eq_ok_iff, Traced.result_ofExcept] at h
    obtain ⟨_, _, _, _, mid, htoken, hname⟩ := h
    have hfirst : SameFunds view mid := by
      split at htoken
      · rw [executeToken_tokens htoken]
        exact ⟨rfl, rfl⟩
      · cases htoken
        exact .refl view
    refine hfirst.trans ?_
    split at hname
    · exact executeName_frame hname
    · cases hname
      exact .refl _

end Frame

/-! ## Which programs take effect -/

variable {b : Bls G} {nHeight : Int} {fDotNav : Bool} {tx : CTransaction G}
  {view view' : CStateView G} {e : CTxOut G × Nat}

/-- The output carries a program that the block has a branch for. -/
def HasProgram (b : Bls G) (view : CStateView G) (fDotNav : Bool) (o : CTxOut G)
    (program : Predicate G) : Prop :=
  o.vData.isEmpty = false ∧ Predicate.ofVch b.toCrypto o.vData = program ∧
    program.takesEffect view fDotNav = true

/-- An event of the execution is that of the program of the output. -/
theorem mem_trace_executeProgram {w : Event G}
    (h : w ∈ (executeProgram b nHeight fDotNav tx view e).trace) :
    ∃ program, HasProgram b view fDotNav e.1 program ∧ w = .execute tx e.2 program := by
  unfold executeProgram at h
  split at h
  · cases h
  · next hdata =>
    simp only [Traced.mem_trace_bind, Traced.trace_rejectIf, Traced.trace_ofExcept,
      List.not_mem_nil, false_or, or_false, and_false, exists_false, Traced.mem_trace_onlyIf,
      Traced.trace_emit, List.mem_singleton] at h
    obtain ⟨_, _, htakes, hw⟩ := h
    exact ⟨_, ⟨by simpa using hdata, rfl, htakes⟩, hw⟩

/-- A program that has a branch takes effect when the output passes. -/
theorem executeProgram_ok (h : (executeProgram b nHeight fDotNav tx view e).result = .ok view')
    (hprogram : HasProgram b view fDotNav e.1 program) :
    Event.execute tx e.2 program ∈ (executeProgram b nHeight fDotNav tx view e).trace := by
  obtain ⟨hdata, rfl, htakes⟩ := hprogram
  simp only [executeProgram, hdata, Bool.false_eq_true, if_false, Traced.bind_eq_ok_iff] at h
  obtain ⟨_, hok, _⟩ := h
  simp only [executeProgram, hdata, Bool.false_eq_true, if_false, Traced.mem_trace_bind]
  refine .inr ⟨(), hok, .inl ?_⟩
  rw [Traced.mem_trace_onlyIf]
  exact ⟨htakes, List.mem_singleton.mpr rfl⟩

end Programs

end Navcoin
