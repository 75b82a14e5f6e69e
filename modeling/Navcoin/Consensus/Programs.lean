import Navcoin.Blsct.Elements

/-!
# Output programs

`consensus/programs.h`: the data of an output may hold a small program, decoded into
an action and its parameters.  Any exception while decoding makes the action `ERR`.
-/

namespace Navcoin

/-- `ProgramActions`; the wire carries an `int`, which need not be one of them. -/
inductive ProgramActions where
  | noProgram
  | err
  | createToken
  | mint
  | stopMint
  | burn
  | registerName
  | updateNameFirst
  | updateName
  | renewName
  | unknown (f : Nat)
  deriving DecidableEq, Repr

def ProgramActions.ofNat : Nat → ProgramActions
  | 0 => .noProgram
  | 1 => .err
  | 2 => .createToken
  | 3 => .mint
  | 4 => .stopMint
  | 5 => .burn
  | 6 => .registerName
  | 7 => .updateNameFirst
  | 8 => .updateName
  | 9 => .renewName
  | f => .unknown f

structure Predicate (G : Type) where
  action : ProgramActions
  vParameters : List Bytes := []
  nParameters : List UInt64 := []
  sParameters : List Bytes := []
  kParameters : List G := []
  hParameters : List Uint256 := []
  deriving DecidableEq, Repr

namespace Predicate

variable {G : Type}

/-- The parameters of `UPDATE_NAME_FIRST` and of `UPDATE_NAME`. -/
def readNameUpdate [Zero G] (c : Crypto G) (action : ProgramActions) :
    StreamReader (Predicate G) := do
  let name ← readVector
  let pk ← readG1 c
  let subdomain ← readVector
  let key ← readVector
  let value ← readVector
  pure { action, kParameters := [pk], sParameters := [name, subdomain, key, value] }

/-- `SerializationOp` when reading. -/
def unserialize [Zero G] (c : Crypto G) : StreamReader (Predicate G) := do
  let action := ProgramActions.ofNat (← serReadData 4)
  match action with
  | .createToken =>
    let id ← readG1 c
    let name ← readVector
    let v ← readUint64
    let desc ← readVector
    let supply ← readUint64
    pure { action, kParameters := [id], sParameters := [name, desc], nParameters := [v, supply] }
  | .mint =>
    let id ← readG1 c
    let amount ← readUint64
    let data ← readVector
    pure { action, kParameters := [id], nParameters := [amount], vParameters := [data] }
  | .stopMint =>
    let id ← readG1 c
    pure { action, kParameters := [id] }
  | .burn =>
    let amount ← readUint64
    let data ← readVector
    pure { action, nParameters := [amount], vParameters := [data] }
  | .registerName =>
    let hash ← readUint256
    pure { action, hParameters := [hash] }
  | .updateNameFirst => readNameUpdate c action
  | .updateName => readNameUpdate c action
  | .renewName =>
    let name ← readVector
    pure { action, sParameters := [name] }
  | _ => pure { action }

/-- The constructor from the data of an output; nothing reads the parameters of a
program whose action is `ERR`, so they are not kept. -/
def ofVch [Zero G] (c : Crypto G) (program : Bytes) : Predicate G :=
  match (unserialize c).run program with
  | .ok (p, _) => p
  | .error _ => { action := .err }

/-- The programs whose first key parameter authorises them. -/
def isKeyed (p : Predicate G) : Bool :=
  match p.action with
  | .createToken | .mint | .stopMint | .updateNameFirst | .updateName => true
  | _ => false

end Predicate

end Navcoin
