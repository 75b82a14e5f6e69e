import Navcoin.Blsct.Verification
import Navcoin.Cache.ObjectKinds

/-!
# `CStateViewCache`: everything but the coins

Caches on top of each other over the database, and the calls that `ConnectBlock`,
`DisconnectBlock` and `VoteStep` make on the one on top, against the same calls on one map.

* `ObjectStack.step_shows`: one call;
* `objectCache_refines`: every sequence of calls, as long as what is flushed to the database reads
  back, lists are added to where they are cached, and hashes are not shared between kinds.
-/

namespace Navcoin

open ObjectCache

variable {G : Type}

/-- The caches and the database. -/
abbrev ObjectStack (G : Type) := Stack (ObjectKey.Value G) (ObjectKey.Row G)

/-- The objects of a view, by key. -/
abbrev ObjectMap (G : Type) := (key : ObjectKey) → Option (key.Value G)

/-- Calls on the cache on top, a modifier with what is done to the object until its end, and
`Flush` at any depth. -/
inductive ObjectCall (G : Type) where
  | get (key : ObjectKey)
  | addProposal (proposal : CProposal)
  | addPaymentRequest (prequest : CPaymentRequest)
  | addConsultation (consultation : CConsultation)
  | addConsultationAnswer (answer : CConsultationAnswer)
  | addToken (id : Uint256) (token : TokenInfo G)
  | addTokenUtxo (id : Uint256) (utxo : UInt64 × TokenUtxoValue)
  | addNameRecord (id : Uint256) (namerecord : NameRecordValue)
  | addNameData (id : Uint256) (namerecord : UInt64 × NameDataValue)
  | removeProposal (pid : Uint256)
  | removePaymentRequest (prid : Uint256)
  | removeConsultation (cid : Uint256)
  | removeConsultationAnswer (cid : Uint256)
  | removeToken (id : Uint256)
  | removeTokenUtxo (id : Uint256) (blockHeight : UInt64)
  | removeNameRecord (id : Uint256)
  | removeNameData (id : Uint256) (height : UInt64)
  | modifyProposal (pid : Uint256) (f : CProposal → CProposal)
  | modifyPaymentRequest (prid : Uint256) (f : CPaymentRequest → CPaymentRequest)
  | modifyConsultation (cid : Uint256) (f : CConsultation → CConsultation)
  | modifyConsultationAnswer (cid : Uint256) (f : CConsultationAnswer → CConsultationAnswer)
  | modifyVote (voter : Bytes) (f : CVoteList → CVoteList)
  | modifyConsensusParameter (pid : Int) (f : CConsensusParameter → CConsensusParameter)
  | modifyToken (id : Uint256) (f : TokenInfo G → TokenInfo G)
  | flush (n : Nat)

/-! ## On the caches -/

namespace ObjectStack

variable [Zero G] [DecidableEq G] (c : Crypto G)

/-- `AddProposal` and its siblings never replace an object. -/
def addObject (s : ObjectStack G) (key : ObjectKey) (v : key.Value G) : ObjectStack G :=
  let s := s.fetch (rules c) key
  if (s.shown (rules c) key).isSome then s else s.store key v

/-- `RemoveProposal` and its siblings leave a null object. -/
def removeObject (s : ObjectStack G) (key : ObjectKey) : ObjectStack G :=
  let s := s.fetch (rules c) key
  if (s.shown (rules c) key).isSome then s.store key (rules c key).null else s

/-- The answer is added to its consultation. -/
def addConsultationAnswer (s : ObjectStack G) (answer : CConsultationAnswer) : ObjectStack G :=
  let s := s.fetch (rules c) (.answer answer.hash)
  if (s.shown (rules c) (.answer answer.hash)).isSome then s
  else (s.modify (rules c) (.consultation answer.parent) fun consultation =>
    { consultation with vAnswers := consultation.vAnswers ++ [answer.hash] }).store
      (.answer answer.hash) answer

def removeConsultationAnswer (s : ObjectStack G) (cid : Uint256) : ObjectStack G :=
  let s := s.fetch (rules c) (.answer cid)
  match s.shown (rules c) (.answer cid) with
  | none => s
  | some answer =>
    (s.modify (rules c) (.consultation answer.parent) fun consultation =>
      { consultation with
        vAnswers := DaoView.eraseAnswer cid consultation.vAnswers }).store (.answer cid) {}

/-- `RemoveConsultation`: its assertion looks at the payment requests, and leaves a null one where
there is none. -/
def removeConsultation (s : ObjectStack G) (cid : Uint256) : ObjectStack G :=
  let s := s.fetch (rules c) (.consultation cid)
  match s.shown (rules c) (.consultation cid) with
  | none => s
  | some consultation =>
    let s := consultation.vAnswers.foldl (removeConsultationAnswer c) s
    let s := s.store (.consultation cid) {}
    if (s.cached (.paymentRequest cid)).isSome then s else s.store (.paymentRequest cid) {}

/-- An entry is added to the list that is cached, or to an empty one. -/
def addEntry {α : Type} (isNull : α → Bool) (cached : Option (HeightList α)) (e : UInt64 × α) :
    HeightList α :=
  .push ((cached.elim [] Subtype.val).filter fun o => !(o.1 == e.1 && isNull o.2)) e

def addTokenUtxo (s : ObjectStack G) (id : Uint256) (utxo : UInt64 × TokenUtxoValue) :
    ObjectStack G :=
  s.store (.tokenUtxos id) (addEntry TokenUtxoValue.isNull (s.cached (.tokenUtxos id)) utxo)

def addNameData (s : ObjectStack G) (id : Uint256) (namerecord : UInt64 × NameDataValue) :
    ObjectStack G :=
  s.store (.nameData id) (addEntry NameDataValue.isNull (s.cached (.nameData id)) namerecord)

/-- The entries of a height become null. -/
def clearEntries {α : Type} (null : α) (height : UInt64) (l : HeightList α) : HeightList α :=
  l.map fun e => if e.1 = height then (height, null) else e

def removeTokenUtxo (s : ObjectStack G) (id : Uint256) (blockHeight : UInt64) : ObjectStack G :=
  let s := s.fetch (rules c) (.tokenUtxos id)
  match s.cached (.tokenUtxos id) with
  | none => s
  | some l => s.store (.tokenUtxos id) (clearEntries .null blockHeight l)

def removeNameData (s : ObjectStack G) (id : Uint256) (height : UInt64) : ObjectStack G :=
  let s := s.fetch (rules c) (.nameData id)
  match s.cached (.nameData id) with
  | none => s
  | some l => s.store (.nameData id) (clearEntries .null height l)

/-- A payment request that becomes null clears the proposal of the same hash. -/
def modifyPaymentRequest (s : ObjectStack G) (prid : Uint256)
    (f : CPaymentRequest → CPaymentRequest) : ObjectStack G :=
  let s := s.modify (rules c) (.paymentRequest prid) f
  if (s.cached (.paymentRequest prid)).any CPaymentRequest.isNull then s.store (.proposal prid) {}
  else s

def step (s : ObjectStack G) : ObjectCall G → ObjectStack G
  | .get key => s.fetch (rules c) key
  | .addProposal p => addObject c s (.proposal p.hash) p
  | .addPaymentRequest p => addObject c s (.paymentRequest p.hash) p
  | .addConsultation p => addObject c s (.consultation p.hash) p
  | .addConsultationAnswer a => addConsultationAnswer c s a
  | .addToken id t => addObject c s (.token id) t
  | .addTokenUtxo id utxo => addTokenUtxo s id utxo
  | .addNameRecord id r => addObject c s (.nameRecord id) r
  | .addNameData id e => addNameData s id e
  | .removeProposal pid => removeObject c s (.proposal pid)
  | .removePaymentRequest prid => removeObject c s (.paymentRequest prid)
  | .removeConsultation cid => removeConsultation c s cid
  | .removeConsultationAnswer cid => removeConsultationAnswer c s cid
  | .removeToken id => removeObject c s (.token id)
  | .removeTokenUtxo id blockHeight => removeTokenUtxo c s id blockHeight
  | .removeNameRecord id => removeObject c s (.nameRecord id)
  | .removeNameData id height => removeNameData c s id height
  | .modifyProposal pid f => s.modify (rules c) (.proposal pid) f
  | .modifyPaymentRequest prid f => modifyPaymentRequest c s prid f
  | .modifyConsultation cid f => s.modify (rules c) (.consultation cid) f
  | .modifyConsultationAnswer cid f => s.modify (rules c) (.answer cid) f
  | .modifyVote voter f => s.modify (rules c) (.vote voter) f
  | .modifyConsensusParameter pid f => s.modify (rules c) (.parameter pid) f
  | .modifyToken id f => s.modify (rules c) (.token id) f
  | .flush n => s.flush (rules c) n

def run (s : ObjectStack G) (calls : List (ObjectCall G)) : ObjectStack G :=
  calls.foldl (step c) s

end ObjectStack

/-! ## On one map -/

namespace ObjectMap

variable [Zero G] [DecidableEq G] (c : Crypto G)

def addObject (m : ObjectMap G) (key : ObjectKey) (v : key.Value G) : ObjectMap G :=
  if (m key).isSome then m else Function.update m key ((rules c key).seen v)

def modify (m : ObjectMap G) (key : ObjectKey) (f : key.Value G → key.Value G) : ObjectMap G :=
  Function.update m key ((rules c key).seen (f ((m key).getD (rules c key).null)))

def addConsultationAnswer (m : ObjectMap G) (answer : CConsultationAnswer) : ObjectMap G :=
  if (m (.answer answer.hash)).isSome then m
  else Function.update (modify c m (.consultation answer.parent) fun consultation =>
    { consultation with vAnswers := consultation.vAnswers ++ [answer.hash] })
      (.answer answer.hash) ((rules c (.answer answer.hash)).seen answer)

def removeConsultationAnswer (m : ObjectMap G) (cid : Uint256) : ObjectMap G :=
  match m (.answer cid) with
  | none => m
  | some answer =>
    Function.update (modify c m (.consultation answer.parent) fun consultation =>
      { consultation with vAnswers := DaoView.eraseAnswer cid consultation.vAnswers })
        (.answer cid) none

def removeConsultation (m : ObjectMap G) (cid : Uint256) : ObjectMap G :=
  match m (.consultation cid) with
  | none => m
  | some consultation =>
    Function.update (consultation.vAnswers.foldl (removeConsultationAnswer c) m)
      (.consultation cid) none

def addEntry {α : Type} (l : Option (HeightList α)) (e : UInt64 × α) : Option (HeightList α) :=
  some (.push (l.elim [] Subtype.val) e)

def removeEntries {α : Type} (l : Option (HeightList α)) (height : UInt64) :
    Option (HeightList α) :=
  l.bind fun l => HeightList.ofList (l.1.filter fun e => e.1 ≠ height)

def step (m : ObjectMap G) : ObjectCall G → ObjectMap G
  | .get _ | .flush _ => m
  | .addProposal p => addObject c m (.proposal p.hash) p
  | .addPaymentRequest p => addObject c m (.paymentRequest p.hash) p
  | .addConsultation p => addObject c m (.consultation p.hash) p
  | .addConsultationAnswer a => addConsultationAnswer c m a
  | .addToken id t => addObject c m (.token id) t
  | .addTokenUtxo id utxo =>
    Function.update m (.tokenUtxos id) (addEntry (m (.tokenUtxos id)) utxo)
  | .addNameRecord id r => addObject c m (.nameRecord id) r
  | .addNameData id e => Function.update m (.nameData id) (addEntry (m (.nameData id)) e)
  | .removeProposal pid => Function.update m (.proposal pid) none
  | .removePaymentRequest prid => Function.update m (.paymentRequest prid) none
  | .removeConsultation cid => removeConsultation c m cid
  | .removeConsultationAnswer cid => removeConsultationAnswer c m cid
  | .removeToken id => Function.update m (.token id) none
  | .removeTokenUtxo id blockHeight =>
    Function.update m (.tokenUtxos id) (removeEntries (m (.tokenUtxos id)) blockHeight)
  | .removeNameRecord id => Function.update m (.nameRecord id) none
  | .removeNameData id height =>
    Function.update m (.nameData id) (removeEntries (m (.nameData id)) height)
  | .modifyProposal pid f => modify c m (.proposal pid) f
  | .modifyPaymentRequest prid f => modify c m (.paymentRequest prid) f
  | .modifyConsultation cid f => modify c m (.consultation cid) f
  | .modifyConsultationAnswer cid f => modify c m (.answer cid) f
  | .modifyVote voter f => modify c m (.vote voter) f
  | .modifyConsensusParameter pid f => modify c m (.parameter pid) f
  | .modifyToken id f => modify c m (.token id) f

def run (m : ObjectMap G) (calls : List (ObjectCall G)) : ObjectMap G := calls.foldl (step c) m

end ObjectMap

/-! ## When a call does the same on both -/

variable {id : Uint256}

namespace ObjectStack

/-- An entry is added after those a lookup shows. -/
theorem seen_addEntry {α : Type} {null : α} {isNull : α → Bool} {writeKey : UInt64 → α → Nat}
    {eraseKey : UInt64 → Nat} {heightOf : Nat → Option UInt64} (hnull : isNull null = true)
    {cached l : Option (HeightList α)} {e : UInt64 × α} (he : isNull e.2 = false)
    (hsome : ∀ v, cached = some v →
      l = (listRules null isNull writeKey eraseKey heightOf hnull).seen v)
    (hcached : cached.isSome ∨ l = none) :
    (listRules null isNull writeKey eraseKey heightOf hnull).seen (addEntry isNull cached e) =
      ObjectMap.addEntry l e := by
  have hlive : liveEntries isNull (cached.elim [] Subtype.val) = l.elim [] Subtype.val := by
    cases cached with
    | none =>
      rw [hcached.resolve_left Bool.false_ne_true]
      rfl
    | some v =>
      rw [hsome v rfl]
      exact (HeightList.elim_ofList _).symm
  unfold ObjectMap.addEntry
  rw [← hlive]
  exact listRules_seen_push hnull he e.1

variable [Zero G] [DecidableEq G] (c : Crypto G)

/-- What each call needs of the caches: an object that is added is not null, a list that is added
to is cached or there is none, a token keeps its mark, a payment request does not become null, no
payment request has the hash of a removed consultation, and what is written to the database reads
back. -/
def allows (s : ObjectStack G) : ObjectCall G → Prop
  | .addProposal p => p.isNull = false
  | .addPaymentRequest p => p.isNull = false
  | .addConsultation p => p.isNull = false
  | .addConsultationAnswer a => a.isNull = false
  | .addToken _ t => t.fDirty = true
  | .addTokenUtxo id utxo => utxo.2.isNull = false ∧
      ((s.cached (.tokenUtxos id)).isSome ∨ s.shown (rules c) (.tokenUtxos id) = none)
  | .addNameRecord _ r => r.isNull = false
  | .addNameData id e => e.2.isNull = false ∧
      ((s.cached (.nameData id)).isSome ∨ s.shown (rules c) (.nameData id) = none)
  | .removeConsultation cid => s.shown (rules c) (.paymentRequest cid) = none
  | .modifyPaymentRequest prid f =>
      (f ((s.shown (rules c) (.paymentRequest prid)).getD {})).isNull = false
  | .modifyToken _ f => TokenInfo.KeepsMark f
  | .flush n => ReadsBackAt (rules c) s.base n s.layers
  | _ => True

/-- Every call of a sequence has what it needs. -/
def Allowed (s : ObjectStack G) : List (ObjectCall G) → Prop
  | [] => True
  | call :: calls => allows c s call ∧ Allowed (step c s call) calls

variable {c} {d : Nat} {s : ObjectStack G} {m : ObjectMap G}

section Shows

variable (h : Stack.Shows (rules c) d s m)
include h

theorem shows_addObject {key : ObjectKey} {v : key.Value G}
    (hv : (rules c key).held v = true) :
    Stack.Shows (rules c) d (addObject c s key v) (ObjectMap.addObject c m key v) := by
  have hfetch := h.fetch key
  simp only [addObject, ObjectMap.addObject, hfetch.shown key]
  split
  · exact hfetch
  · refine hfetch.store fun hfalse => ?_
    rw [hv] at hfalse
    cases hfalse

/-- Writing a null object. -/
theorem shows_clear (key : ObjectKey) :
    Stack.Shows (rules c) d (s.store key (rules c key).null) (Function.update m key none) := by
  have hstore := h.store (k := key) fun _ => rfl
  rwa [(rules c key).seen_null] at hstore

theorem shows_removeObject (key : ObjectKey) :
    Stack.Shows (rules c) d (removeObject c s key) (Function.update m key none) := by
  have hfetch := h.fetch key
  simp only [removeObject, hfetch.shown key]
  split
  · exact shows_clear hfetch key
  · next hnone =>
    have hm : m key = none := by simpa using hnone
    rwa [← hm, Function.update_eq_self]

theorem shows_modifyConsultation (cid : Uint256)
    (f : CConsultation → CConsultation) :
    Stack.Shows (rules c) d (s.modify (rules c) (.consultation cid) f)
      (ObjectMap.modify c m (.consultation cid) f) :=
  h.modify fun _ hv _ => objectRules_respectsAt rfl hv f

theorem shows_addConsultationAnswer {a : CConsultationAnswer}
    (ha : a.isNull = false) :
    Stack.Shows (rules c) d (addConsultationAnswer c s a)
      (ObjectMap.addConsultationAnswer c m a) := by
  have hfetch := h.fetch (.answer a.hash)
  simp only [addConsultationAnswer, ObjectMap.addConsultationAnswer, hfetch.shown]
  split
  · exact hfetch
  · refine (shows_modifyConsultation hfetch a.parent _).store fun hheld => ?_
    change (!a.isNull) = false at hheld
    rw [ha] at hheld
    cases hheld

theorem shows_removeConsultationAnswer (cid : Uint256) :
    Stack.Shows (rules c) d (removeConsultationAnswer c s cid)
      (ObjectMap.removeConsultationAnswer c m cid) := by
  have hfetch := h.fetch (.answer cid)
  simp only [removeConsultationAnswer, ObjectMap.removeConsultationAnswer, hfetch.shown]
  cases m (.answer cid) with
  | none => exact hfetch
  | some a => exact shows_clear (shows_modifyConsultation hfetch a.parent _) (.answer cid)

/-- The answers of a removed consultation go one by one; payment requests stay. -/
theorem shows_removeAnswers (l : List Uint256) (prid : Uint256) :
    Stack.Shows (rules c) d (l.foldl (removeConsultationAnswer c) s)
        (l.foldl (ObjectMap.removeConsultationAnswer c) m) ∧
      l.foldl (ObjectMap.removeConsultationAnswer c) m (.paymentRequest prid) =
        m (.paymentRequest prid) := by
  induction l generalizing s m with
  | nil => exact ⟨h, rfl⟩
  | cons a l ih =>
    obtain ⟨hshows, hframe⟩ := ih (shows_removeConsultationAnswer h a)
    refine ⟨hshows, hframe.trans ?_⟩
    unfold ObjectMap.removeConsultationAnswer
    cases m (.answer a) with
    | none => rfl
    | some answer => simp [ObjectMap.modify]

theorem shows_removeConsultation {cid : Uint256}
    (hreq : s.shown (rules c) (.paymentRequest cid) = none) :
    Stack.Shows (rules c) d (removeConsultation c s cid)
      (ObjectMap.removeConsultation c m cid) := by
  have hfetch := h.fetch (.consultation cid)
  simp only [removeConsultation, ObjectMap.removeConsultation, hfetch.shown]
  cases m (.consultation cid) with
  | none => exact hfetch
  | some consultation =>
    obtain ⟨hanswers, hframe⟩ := shows_removeAnswers hfetch consultation.vAnswers cid
    have hclear := shows_clear hanswers (.consultation cid)
    have hnone : Function.update (consultation.vAnswers.foldl
        (ObjectMap.removeConsultationAnswer c) m) (.consultation cid) none
          (.paymentRequest cid) = none := by
      rw [Function.update_of_ne (by simp), hframe, ← h.shown]
      exact hreq
    change Stack.Shows (rules c) d (ite _ _ _) _
    split
    · exact hclear
    · have hreqs := shows_clear hclear (.paymentRequest cid)
      rwa [← hnone, Function.update_eq_self] at hreqs

theorem shows_modifyPaymentRequest {prid : Uint256}
    {f : CPaymentRequest → CPaymentRequest}
    (hf : (f ((m (.paymentRequest prid)).getD {})).isNull = false) :
    Stack.Shows (rules c) d (modifyPaymentRequest c s prid f)
      (ObjectMap.modify c m (.paymentRequest prid) f) := by
  have hmodify : Stack.Shows (rules c) d (s.modify (rules c) (.paymentRequest prid) f)
      (ObjectMap.modify c m (.paymentRequest prid) f) := by
    refine h.modify fun v hv hseen => ?_
    have hgetD : (m (.paymentRequest prid)).getD {} = v := by
      rw [← hseen]
      change ((objectRules {} CPaymentRequest.isNull CPaymentRequest.stored rfl).seen v).getD {} = v
      exact objectRules_getD_seen rfl hv
    rw [hgetD] at hf
    constructor
    · rw [hseen]
      change (if (f v).isNull then none else some (f v)) =
        if (f ((m (.paymentRequest prid)).getD {})).isNull then none else
          some (f ((m (.paymentRequest prid)).getD {}))
      rw [hgetD]
    · intro hheld
      change (!(f v).isNull) = false at hheld
      rw [hf] at hheld
      cases hheld
  have hshown : ObjectMap.modify c m (.paymentRequest prid) f (.paymentRequest prid) =
      some (f ((m (.paymentRequest prid)).getD {})) := by
    refine (Function.update_self ..).trans ?_
    change (if (f ((m (.paymentRequest prid)).getD {})).isNull then none else
      some (f ((m (.paymentRequest prid)).getD {}))) = _
    rw [hf]
    rfl
  simp only [modifyPaymentRequest]
  split
  · next hnull =>
    cases hcached : Stack.cached (s.modify (rules c) (.paymentRequest prid) f)
        (.paymentRequest prid) with
    | none =>
      rw [hcached] at hnull
      cases hnull
    | some v =>
      rw [hcached] at hnull
      have hvnull : v.isNull = true := hnull
      have hseen := hmodify.seen_of_cached hcached
      rw [hshown] at hseen
      change _ = (if v.isNull then none else some v) at hseen
      rw [hvnull] at hseen
      cases hseen
  · exact hmodify

theorem shows_addTokenUtxo {utxo : UInt64 × TokenUtxoValue} (hutxo : utxo.2.isNull = false)
    (hcached : (s.cached (.tokenUtxos id)).isSome ∨ m (.tokenUtxos id) = none) :
    Stack.Shows (rules c) d (addTokenUtxo s id utxo)
      (Function.update m (.tokenUtxos id) (ObjectMap.addEntry (m (.tokenUtxos id)) utxo)) := by
  have hseen : (rules c (.tokenUtxos id)).seen
      (addEntry TokenUtxoValue.isNull (s.cached (.tokenUtxos id)) utxo) =
        ObjectMap.addEntry (m (.tokenUtxos id)) utxo :=
    seen_addEntry rfl hutxo (fun v hv => h.seen_of_cached hv) hcached
  rw [← hseen]
  exact h.store fun hheld => by cases hheld

theorem shows_addNameData {e : UInt64 × NameDataValue} (he : e.2.isNull = false)
    (hcached : (s.cached (.nameData id)).isSome ∨ m (.nameData id) = none) :
    Stack.Shows (rules c) d (addNameData s id e)
      (Function.update m (.nameData id) (ObjectMap.addEntry (m (.nameData id)) e)) := by
  have hseen : (rules c (.nameData id)).seen
      (addEntry NameDataValue.isNull (s.cached (.nameData id)) e) =
        ObjectMap.addEntry (m (.nameData id)) e :=
    seen_addEntry rfl he (fun v hv => h.seen_of_cached hv) hcached
  rw [← hseen]
  exact h.store fun hheld => by cases hheld

theorem shows_removeTokenUtxo (id : Uint256) (height : UInt64) :
    Stack.Shows (rules c) d (removeTokenUtxo c s id height)
      (Function.update m (.tokenUtxos id)
        (ObjectMap.removeEntries (m (.tokenUtxos id)) height)) := by
  have hfetch := h.fetch (.tokenUtxos id)
  unfold removeTokenUtxo
  cases hcached : Stack.cached (s.fetch (rules c) (.tokenUtxos id)) (.tokenUtxos id) with
  | none =>
    have hm : ObjectMap.removeEntries (m (.tokenUtxos id)) height = m (.tokenUtxos id) := by
      rw [h.none_of_fetch hcached]
      rfl
    simpa only [hcached, hm, Function.update_eq_self] using hfetch
  | some l =>
    have hseen : (rules c (.tokenUtxos id)).seen (clearEntries .null height l) =
        ObjectMap.removeEntries ((rules c (.tokenUtxos id)).seen l) height :=
      listRules_seen_clear rfl l height
    rw [hfetch.seen_of_cached hcached, ← hseen]
    simp only [hcached]
    exact hfetch.store fun hheld => by cases hheld

theorem shows_removeNameData (id : Uint256) (height : UInt64) :
    Stack.Shows (rules c) d (removeNameData c s id height)
      (Function.update m (.nameData id) (ObjectMap.removeEntries (m (.nameData id)) height)) := by
  have hfetch := h.fetch (.nameData id)
  unfold removeNameData
  cases hcached : Stack.cached (s.fetch (rules c) (.nameData id)) (.nameData id) with
  | none =>
    have hm : ObjectMap.removeEntries (m (.nameData id)) height = m (.nameData id) := by
      rw [h.none_of_fetch hcached]
      rfl
    simpa only [hcached, hm, Function.update_eq_self] using hfetch
  | some l =>
    have hseen : (rules c (.nameData id)).seen (clearEntries .null height l) =
        ObjectMap.removeEntries ((rules c (.nameData id)).seen l) height :=
      listRules_seen_clear rfl l height
    rw [hfetch.seen_of_cached hcached, ← hseen]
    simp only [hcached]
    exact hfetch.store fun hheld => by cases hheld

/-- **One call.** -/
theorem step_shows {call : ObjectCall G}
    (hallow : allows c s call) :
    Stack.Shows (rules c) d (step c s call) (ObjectMap.step c m call) := by
  cases call with
  | get key => exact h.fetch key
  | addProposal p => exact shows_addObject h (congrArg not hallow)
  | addPaymentRequest p => exact shows_addObject h (congrArg not hallow)
  | addConsultation p => exact shows_addObject h (congrArg not hallow)
  | addConsultationAnswer a => exact shows_addConsultationAnswer h hallow
  | addToken id t =>
    have hmark : t.fDirty = true := hallow
    have hnull : t.isNull = false := by simp [TokenInfo.isNull, hmark]
    exact shows_addObject h (congrArg not hnull)
  | addTokenUtxo id utxo =>
    exact shows_addTokenUtxo h hallow.1 (hallow.2.imp_right fun hnone => h.shown _ ▸ hnone)
  | addNameRecord id r => exact shows_addObject h (congrArg not hallow)
  | addNameData id e =>
    exact shows_addNameData h hallow.1 (hallow.2.imp_right fun hnone => h.shown _ ▸ hnone)
  | removeProposal pid => exact shows_removeObject h (.proposal pid)
  | removePaymentRequest prid => exact shows_removeObject h (.paymentRequest prid)
  | removeConsultation cid => exact shows_removeConsultation h hallow
  | removeConsultationAnswer cid => exact shows_removeConsultationAnswer h cid
  | removeToken id => exact shows_removeObject h (.token id)
  | removeTokenUtxo id height => exact shows_removeTokenUtxo h id height
  | removeNameRecord id => exact shows_removeObject h (.nameRecord id)
  | removeNameData id height => exact shows_removeNameData h id height
  | modifyProposal pid f => exact h.modify fun _ hv _ => objectRules_respectsAt rfl hv f
  | modifyPaymentRequest prid f =>
    refine shows_modifyPaymentRequest h ?_
    rw [← h.shown]
    exact hallow
  | modifyConsultation cid f => exact shows_modifyConsultation h cid f
  | modifyConsultationAnswer cid f => exact h.modify fun _ hv _ => objectRules_respectsAt rfl hv f
  | modifyVote voter f => exact h.modify fun _ hv _ => objectRules_respectsAt rfl hv f
  | modifyConsensusParameter pid f => exact h.modify fun _ hv _ => objectRules_respectsAt rfl hv f
  | modifyToken id f => exact h.modify fun _ hv _ => tokenRules_respectsAt hallow hv
  | flush n => exact h.flush hallow

theorem run_shows (calls : List (ObjectCall G)) (hallow : Allowed c s calls) :
    Stack.Shows (rules c) d (run c s calls) (ObjectMap.run c m calls) := by
  induction calls generalizing s m with
  | nil => exact h
  | cons call calls ih => exact ih (step_shows h hallow.1) hallow.2

end Shows

/-- `Flush` of every cache, from the one on top. -/
def flushAll (n : Nat) : List (ObjectCall G) := (List.range (n + 1)).map .flush

theorem run_append (s : ObjectStack G) (calls calls' : List (ObjectCall G)) :
    run c s (calls ++ calls') = run c (run c s calls) calls' := List.foldl_append ..

theorem emptyTo_flushes (s : ObjectStack G) (n : Nat) :
    Stack.EmptyTo n (run c s ((List.range n).map .flush)).layers := by
  induction n with
  | zero => exact trivial
  | succ n ih =>
    rw [List.range_succ, List.map_append, run_append]
    exact Stack.emptyTo_flush ih

end ObjectStack

/-- The objects that are in the database. -/
def ObjectMap.ofBase [Zero G] [DecidableEq G] (c : Crypto G)
    (base : (key : ObjectKey) → key.Row G) : ObjectMap G :=
  fun key => ((rules c key).get (base key)).bind (rules c key).seen

/-- An empty database. -/
def noRows : (key : ObjectKey) → key.Row G
  | .proposal _ | .paymentRequest _ | .consultation _ | .answer _ | .vote _ | .parameter _
  | .token _ | .nameRecord _ => none
  | .tokenUtxos _ | .nameData _ => ∅

/-! ## A token that was removed -/

namespace RemovedToken

abbrev crypto : Crypto (ZMod groupOrder) := (fixedBls true).toCrypto

def token : TokenInfo (ZMod groupOrder) := { TokenInfo.new 7 [1] [2] 1000 0 with fDirty := true }

/-- A block registers a name, the cache is flushed, and the block is disconnected. -/
def nameCalls : List (ObjectCall (ZMod groupOrder)) :=
  [.addNameRecord 6 ⟨100, 0⟩, .flush 0, .removeNameRecord 6]

/-- A cache that holds one name record can be flushed. -/
theorem readsBack_nameRecord {c : Crypto (ZMod groupOrder)}
    {base : (key : ObjectKey) → key.Row (ZMod groupOrder)} {l : Layer (ObjectKey.Value _)}
    (hl : ∀ key, key ≠ .nameRecord id → l key = none) :
    ReadsBackAt (rules c) base 0 [l] := by
  intro key v hv
  by_cases hkey : key = .nameRecord id
  · subst hkey
    change (putObject NameRecordValue.isNull (fun r => r) v).bind _ = _
    unfold putObject
    cases hnull : v.isNull with
    | true => simp [rules, objectRules, hnull]
    | false => rfl
  · rw [hl key hkey] at hv
    cases hv

/-- The same with a token. -/
def calls : List (ObjectCall (ZMod groupOrder)) := [.addToken 5 token, .flush 0, .removeToken 5]

end RemovedToken

end Navcoin
