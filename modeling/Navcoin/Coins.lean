import Navcoin.Dao.View
import Navcoin.Primitives.Transaction

/-!
# The state view

`coins.h`, `ctokens/ctokens.h` and the name records of `dotnav/`: unspent outputs,
tokens, names and DAO objects as a validating function sees them through
`CStateViewCache`.  The layers of caches below the view are not part of this module:
a view is what its lookups return.
-/

namespace Navcoin

/-! ## Unspent outputs -/

structure CCoins (G : Type) where
  fCoinBase : Bool := false
  fCoinStake : Bool := false
  vout : List (CTxOut G) := []
  nHeight : Int := 0
  nVersion : BitVec 32 := 0
  deriving DecidableEq, Repr

namespace CCoins

variable {G : Type}

def isAvailable (coins : CCoins G) (nPos : UInt32) : Bool :=
  match coins.vout[nPos.toNat]? with
  | some o => !o.isNull
  | none => false

/-- `Cleanup`: spent outputs at the end are dropped. -/
def cleanup (coins : CCoins G) : CCoins G :=
  { coins with vout := (coins.vout.reverse.dropWhile CTxOut.isNull).reverse }

def clearUnspendable (coins : CCoins G) : CCoins G :=
  cleanup { coins with vout := coins.vout.map fun o =>
    if !o.hasRangeProof && o.scriptPubKey.isUnspendable then {} else o }

def fromTx (tx : CTransaction G) (nHeight : Int) : CCoins G :=
  clearUnspendable
    { fCoinBase := tx.isCoinBase, fCoinStake := tx.isCoinStake, vout := tx.vout,
      nHeight := nHeight, nVersion := tx.nVersion }

/-- `Spend`, for a position that is available. -/
def spend (coins : CCoins G) (nPos : UInt32) : CCoins G :=
  cleanup { coins with vout := coins.vout.set nPos.toNat {} }

end CCoins

/-! ## Tokens -/

structure TokenInfo (G : Type) where
  key : G
  nVersion : Int
  sName : Bytes
  sDesc : Bytes
  totalSupply : Int
  currentSupply : Int
  mapMetadata : List (UInt64 × Bytes)
  canMint : Bool
  fDirty : Bool
  deriving DecidableEq, Repr

/-- A `uint64_t` parameter used as an amount. -/
def toInt64 (n : UInt64) : Int := n.toBitVec.toInt

namespace TokenInfo

variable {G : Type}

/-- The constructor: a supply out of range becomes the largest one, and the version is
cut to 16 bits. -/
def new (key : G) (name desc : Bytes) (totalSupply nVersion : UInt64) : TokenInfo G :=
  { key, sName := name, sDesc := desc, currentSupply := 0, mapMetadata := [], canMint := true,
    fDirty := false, nVersion := (BitVec.ofNat 16 nVersion.toNat).toInt,
    totalSupply := if moneyRange (toInt64 totalSupply) then toInt64 totalSupply else maxMoney }

def isNull [Zero G] [DecidableEq G] (t : TokenInfo G) : Bool :=
  t.key == 0 && t.mapMetadata.isEmpty && t.nVersion == 0 && t.sName.isEmpty &&
    t.sDesc.isEmpty && t.totalSupply == 0 && t.currentSupply == 0 && !t.canMint && !t.fDirty

def increaseSupply (t : TokenInfo G) (amount : Int) : Option (TokenInfo G) :=
  if !t.canMint then none
  else if !moneyRange amount then none
  else if t.currentSupply + amount > t.totalSupply then none
  else if !moneyRange (t.currentSupply + amount) then none
  else some { t with currentSupply := t.currentSupply + amount }

def decreaseSupply (t : TokenInfo G) (amount : Int) : Option (TokenInfo G) :=
  if !moneyRange amount then none
  else if !moneyRange (t.currentSupply - amount) then none
  else some { t with currentSupply := t.currentSupply - amount }

def stopMinting (t : TokenInfo G) : Option (TokenInfo G) :=
  if !t.canMint then none else some { t with canMint := false }

end TokenInfo

/-! ## Names -/

structure NameRecordValue where
  height : UInt64
  nVersion : UInt32 := 0
  deriving DecidableEq, Repr

def NameRecordValue.isNull (r : NameRecordValue) : Bool :=
  r.height == 0xffffffffffffffff && r.nVersion == 0xffffffff

structure NameDataValue where
  key : Bytes
  value : Bytes
  subdomain : Bytes := []
  deriving DecidableEq, Repr

def NameDataValue.isNull (d : NameDataValue) : Bool :=
  d.key.isEmpty && d.value.isEmpty && d.subdomain.isEmpty

abbrev NameDataValues := List (UInt64 × NameDataValue)

/-! ## The view -/

structure CStateView (G : Type) extends DaoView where
  coins : Uint256 → Option (CCoins G) := fun _ => none
  tokens : Uint256 → Option (TokenInfo G) := fun _ => none
  nameRecords : Uint256 → Option NameRecordValue := fun _ => none
  nameData : Uint256 → NameDataValues := fun _ => []

namespace CStateView

variable {G : Type}

/-- `GetOutputFor`, with its assertion that the output is there and unspent. -/
def getOutputFor (view : CStateView G) (i : CTxIn) : Option (CTxOut G) :=
  match view.coins i.prevout.hash with
  | none => none
  | some coins => if coins.isAvailable i.prevout.n then coins.vout[i.prevout.n.toNat]? else none

def haveInputs (view : CStateView G) (tx : CTransaction G) : Bool :=
  tx.isCoinBase || tx.vin.all fun i => (view.getOutputFor i).isSome

/-- `GetValueIn`, on a view that has the inputs. -/
def getValueIn (view : CStateView G) (tx : CTransaction G) : Int :=
  if tx.isCoinBase then 0
  else (tx.vin.map fun i => ((view.getOutputFor i).map CTxOut.nValue).getD 0).sum

def getToken [Zero G] [DecidableEq G] (view : CStateView G) (id : Uint256) :
    Option (TokenInfo G) :=
  (view.tokens id).filter fun t => !t.isNull

def setToken (view : CStateView G) (id : Uint256) (t : TokenInfo G) : CStateView G :=
  { view with tokens := Function.update view.tokens id (some t) }

/-- What a `TokenModifier` leaves: a token that it changed is marked. -/
def modifyToken [DecidableEq G] (view : CStateView G) (id : Uint256) (prev token : TokenInfo G) :
    CStateView G :=
  view.setToken id (if token = prev then prev else { token with fDirty := true })

/-- `RemoveToken` leaves a null token, which counts as missing. -/
def removeToken [Zero G] [DecidableEq G] (view : CStateView G) (id : Uint256) : CStateView G :=
  if (view.getToken id).isSome then { view with tokens := Function.update view.tokens id none }
  else view

def getNameRecord (view : CStateView G) (id : Uint256) : Option NameRecordValue :=
  (view.nameRecords id).filter fun r => !r.isNull

def setNameRecord (view : CStateView G) (id : Uint256) (r : NameRecordValue) : CStateView G :=
  { view with nameRecords := Function.update view.nameRecords id (some r) }

def removeNameRecord (view : CStateView G) (id : Uint256) : CStateView G :=
  if (view.getNameRecord id).isSome then
    { view with nameRecords := Function.update view.nameRecords id none }
  else view

/-- `RemoveNameData`: every entry of the height becomes a null entry. -/
def removeNameData (view : CStateView G) (id : Uint256) (height : UInt64) : CStateView G :=
  let null : NameDataValue := { key := [], value := [] }
  let data := (view.nameData id).map fun it => if it.1 = height then (height, null) else it
  { view with nameData := Function.update view.nameData id data }

/-- `AddNameData` drops null entries of the same height, then appends. -/
def addNameData (view : CStateView G) (id : Uint256) (entry : UInt64 × NameDataValue) :
    CStateView G :=
  let kept := (view.nameData id).filter fun o => !(o.1 == entry.1 && o.2.isNull)
  { view with nameData := Function.update view.nameData id (kept ++ [entry]) }

def setCoins (view : CStateView G) (hash : Uint256) (coins : CCoins G) : CStateView G :=
  { view with coins := Function.update view.coins hash (some coins) }

/-- One input of `UpdateCoins`; the output has to be there. -/
def spendInput (view : CStateView G) (i : CTxIn) : Option (CStateView G) :=
  match view.coins i.prevout.hash with
  | none => none
  | some coins =>
    if coins.isAvailable i.prevout.n then
      some (view.setCoins i.prevout.hash (coins.spend i.prevout.n))
    else none

/-- `UpdateCoins`; `none` is a failed assertion. -/
def updateCoins [Zero G] (c : Crypto G) (view : CStateView G) (tx : CTransaction G)
    (nHeight : Int) : Option (CStateView G) :=
  let spent := if tx.isCoinBase then some view else tx.vin.foldlM spendInput view
  spent.map fun v => v.setCoins (tx.getHash c) (CCoins.fromTx tx nHeight)

/-- On a transaction that is not a coinbase, `HaveInputs` gives an output for each input. -/
theorem haveInputs_iff {view : CStateView G} {tx : CTransaction G} (h : tx.isCoinBase = false) :
    view.haveInputs tx = true ↔ ∀ i ∈ tx.vin, ∃ o, view.getOutputFor i = some o := by
  simp [haveInputs, h, Option.isSome_iff_exists]

end CStateView

end Navcoin
