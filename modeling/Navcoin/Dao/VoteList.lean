import Navcoin.Lib.OrderedMap
import Navcoin.Primitives.Basic

/-!
# Cached votes

`CVoteList`: what a voter voted, by the height of the block and the hash of the object.  The
effective vote for an object is the one of the greatest height.  `VoteRecord` is a vote that a
block casts, as it is recorded under the hash of the block.
-/

namespace Navcoin

namespace VoteFlags

def voteYes : Int := 1
def voteNo : Int := 0
def voteAbstain : Int := -1
def voteRemove : Int := -2
def support : Int := -3
def supportRemove : Int := -4

end VoteFlags

/-- Votes by the hash of what is voted on. -/
abbrev VoteMap := OrderedMap (Prod.fst : Uint256 × Int → Uint256)

/-- `CVoteList::list` -/
abbrev CVoteList := OrderedMap (Prod.fst : Int × VoteMap → Int)

namespace CVoteList

/-- `IsNull` -/
def isNull (list : CVoteList) : Bool := list.entries.all fun it => it.2.entries.isEmpty

/-- The inner loop of `Get`, with the height of the best vote so far. -/
def considerVote (hash : Uint256) (height : Int) (best : Option (Int × Int)) (it : Uint256 × Int) :
    Option (Int × Int) :=
  if height > (best.map Prod.fst).getD 0 ∧ it.1 = hash then some (height, it.2) else best

/-- One height of the outer loop of `Get`. -/
def considerHeight (hash : Uint256) (best : Option (Int × Int)) (it : Int × VoteMap) :
    Option (Int × Int) :=
  if it.1 < (best.map Prod.fst).getD 0 then best
  else it.2.entries.foldl (considerVote hash it.1) best

/-- `Get` -/
def get (list : CVoteList) (hash : Uint256) : Option Int :=
  (list.entries.foldl (considerHeight hash) none).map Prod.snd

/-- `Set`: a vote that is already in effect is not written again. -/
def set (list : CVoteList) (height : Int) (hash : Uint256) (vote : Int) : CVoteList :=
  if list.get hash = some vote then list
  else
    let votes : VoteMap := ((list.find? height).map Prod.snd).getD ∅
    list.assign (height, votes.assign (hash, vote))

/-- `Clear(height)` -/
def clear (list : CVoteList) (height : Int) : CVoteList := list.erase height

structure ListLocals where
  ret : VoteMap := ∅
  mapCacheHeight : OrderedMap (Prod.fst : Uint256 × Int → Uint256) := ∅

/-- One vote in the loops of `GetList`. -/
def listVote (height : Int) (s : ListLocals) (it : Uint256 × Int) : ListLocals :=
  if height > ((s.mapCacheHeight.find? it.1).map Prod.snd).getD 0 then
    { ret := s.ret.assign it, mapCacheHeight := s.mapCacheHeight.assign (it.1, height) }
  else s

/-- `GetList`: the effective votes. -/
def getList (list : CVoteList) : VoteMap :=
  (list.entries.foldl (fun s (it : Int × VoteMap) => it.2.entries.foldl (listVote it.1) s)
    ({} : ListLocals)).ret

end CVoteList

/-- A vote of a block.  The numbers are `int64_t`; those of consultations are stored as
`uint64_t` and read back. -/
inductive VoteRecord where
  | proposal (hash : Uint256) (vote : Int)
  | paymentRequest (hash : Uint256) (vote : Int)
  | support (hash : Uint256)
  | consultation (hash : Uint256) (vote : Int)
  deriving DecidableEq, Repr

end Navcoin
