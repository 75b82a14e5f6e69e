import Navcoin.Blsct.Verification
import Navcoin.Lib.Memory

/-!
# Memory accesses of `VerifyBulletproof`

`VerifyBulletproof` of `blsct/bulletproofs.cpp`, followed through all its loops.  No index,
size or branch before the last comparison depends on the value of a group or scalar element,
so the model keeps the sizes and the indices, and records every access, shift and allocation.
The last comparison, `mexp == Infinity`, is a parameter.

* `safe_verifyBulletproof_iff`: for which sizes every access is within bounds;
* `allocated_verifyBulletproof_le`: how much is allocated for deserialised proofs;
* `verifyBulletproof_memorySafe_iff`: which deserialised proofs the routine is safe for.
-/

namespace Navcoin

open Memory Memory.Event

def maxN : Nat := 64
def maxM : Nat := 16

/-- The number of generators `Gi` and `Hi`. -/
def maxMN : Nat := maxM * maxN

def logN : Nat := 6

variable {G : Type}

namespace BulletproofsRangeproof

/-- The elements copied with a proof. -/
def copySize (proof : BulletproofsRangeproof G) : Nat :=
  proof.V.length + proof.L.length + proof.R.length + 9

/-- The first test. -/
def hasShape (proof : BulletproofsRangeproof G) : Bool :=
  1 ≤ proof.V.length && proof.L.length == proof.R.length && 0 < proof.L.length

end BulletproofsRangeproof

/-- The loop for `pd.logM`: its shifts and its result.  The second argument bounds the rounds,
of which there are at most six. -/
def logMLoop (nV : Nat) : Nat → Nat → List Memory.Event × Nat
  | 0, logM => ([], logM)
  | rounds + 1, logM =>
    if 2 ^ logM ≤ maxM ∧ 2 ^ logM < nV then
      let r := logMLoop nV rounds (logM + 1)
      (shift logM 32 :: r.1, r.2)
    else ([shift logM 32], logM)

/-- `pd.logM` for `nV` commitments. -/
def logMOf (nV : Nat) : Nat := (logMLoop nV 6 0).2

/-- `pd.logM + logN` -/
def BulletproofsRangeproof.rounds (proof : BulletproofsRangeproof G) : Nat :=
  logMOf proof.V.length + logN

/-- The members of `proof_data_t` that carry a size or an offset. -/
structure ProofData where
  logM : Nat := 0
  inv_offset : Nat := 0
  deriving DecidableEq, Repr

/-- The locals of the first loop. -/
structure VerifyLocals where
  max_length : Nat := 0
  nV : Nat := 0
  proof_data : List ProofData := []
  inv_offset : Nat := 0
  j : Nat := 0
  /-- `to_invert.size()` -/
  to_invert : Nat := 0
  deriving DecidableEq, Repr

/-- The accesses of the first loop, after the test. -/
def firstEvents (fRecover : Bool) (nonces : Nat) (s : VerifyLocals)
    (proof : BulletproofsRangeproof G) : List Memory.Event :=
  let rounds := proof.rounds
  let nV := proof.V.length
  [alloc nV, access 0 nV]
    ++ (List.range (nV - 1)).map (fun j => access (j + 1) nV)
    ++ (logMLoop nV 6 0).1
    ++ [alloc rounds]
    ++ (List.range rounds).flatMap (fun i =>
      [access i proof.L.length, access i proof.R.length, access i rounds])
    ++ (List.range rounds).flatMap (fun i => [access i rounds, alloc 1])
    ++ [alloc 1]
    ++ (if fRecover then List.replicate 5 (access s.j nonces) ++ [access 0 nV] else [])

/-- The locals after one proof that passes the first test. -/
def VerifyLocals.next (fRecover : Bool) (s : VerifyLocals) (proof : BulletproofsRangeproof G) :
    VerifyLocals :=
  { max_length := max s.max_length proof.L.length
    nV := s.nV + proof.V.length
    proof_data := s.proof_data ++ [{ logM := logMOf proof.V.length, inv_offset := s.inv_offset }]
    inv_offset := s.inv_offset + (proof.rounds + 1)
    j := if fRecover then s.j + 1 else s.j
    to_invert := s.to_invert + (proof.rounds + 1) }

/-- The first loop. -/
def firstStep (fRecover : Bool) (nonces : Nat) (s : VerifyLocals)
    (proof : BulletproofsRangeproof G) : Traced Memory.Event Bool VerifyLocals := do
  Traced.emitAll [alloc proof.copySize]
  Traced.rejectIf (proof.hasShape = false) false
  Traced.emitAll (firstEvents fRecover nonces s proof)
  pure (s.next fRecover proof)

/-- `VectorPowers(x, n)` -/
def vectorPowers (n : Nat) : List Memory.Event :=
  alloc n :: (if n = 0 then [] else access 0 n :: (if n = 1 then [] else access 1 n ::
    (List.range (n - 2)).flatMap fun i => [access (i + 2) n, access (i + 1) n]))

/-- The table of products of challenges: `w_cache` has `2 ^ rounds` elements. -/
def cacheEvents (rounds offset inverses : Nat) : List Memory.Event :=
  [shift rounds 32, alloc (2 ^ rounds),
    access 0 (2 ^ rounds), access offset inverses, access 1 (2 ^ rounds), access 0 rounds]
    ++ (List.range (rounds - 1)).flatMap fun k =>
      -- `s` runs through the odd numbers below `1 << (j+1)`
      let j := k + 1
      shift (j + 1) 32 :: (List.range (2 ^ j)).flatMap fun m =>
        let s := 2 ^ (j + 1) - 1 - 2 * m
        [access s (2 ^ rounds), access (s / 2) (2 ^ rounds), access j rounds,
          access (s - 1) (2 ^ rounds), access (s / 2) (2 ^ rounds),
          access (offset + j) inverses]

/-- The accesses of the second loop, after the test.  `exps` is `maxMN` of the source. -/
def secondEvents (exps inverses : Nat) (pd : ProofData) (proof : BulletproofsRangeproof G) :
    List Memory.Event :=
  let nV := proof.V.length
  let M := 2 ^ pd.logM
  let N := 2 ^ logN
  let MN := M * N
  let rounds := pd.logM + logN
  let zpow := M + 3
  [shift pd.logM 32] ++ vectorPowers zpow ++ vectorPowers MN ++ [access 2 zpow]
    ++ (List.range M).map (fun j => access (j + 1 + 2) zpow)
    ++ (List.range nV).flatMap (fun j => [access (j + 2) zpow, access j nV, alloc 1])
    ++ [alloc 4, access pd.inv_offset inverses, access (pd.inv_offset + rounds) inverses]
    ++ cacheEvents rounds pd.inv_offset inverses
    ++ (List.range MN).flatMap (fun i =>
      [access i (2 ^ rounds), access ((2 ^ 64 - 1 - i) &&& (MN - 1)) (2 ^ rounds),
        access (2 + i / N) zpow, access (i % N) maxN, access i exps, access i exps])
    ++ (List.range rounds).flatMap (fun i =>
      [access i rounds, access i proof.L.length, access (pd.inv_offset + i) inverses,
        access i proof.R.length, alloc 2])

/-- The second loop; the state is `multiexpdata.size()`. -/
def secondStep (s : VerifyLocals) (exps : Nat) (size : Nat)
    (e : BulletproofsRangeproof G × Nat) : Traced Memory.Event Bool Nat := do
  let proof := e.1
  let pd := s.proof_data.getD e.2 {}
  Traced.emitAll [alloc proof.copySize, access e.2 s.proof_data.length]
  Traced.rejectIf (proof.L.length ≠ logN + pd.logM) false
  Traced.emitAll (secondEvents exps s.to_invert pd proof)
  pure (size + proof.V.length + 4 + 2 * (pd.logM + logN))

/-- The last loop and `MultiExp`, which works on a copy and two arrays. -/
def lastEvents (exps size : Nat) : List Memory.Event :=
  [alloc 2]
    ++ (List.range exps).flatMap (fun i =>
      [access (i * 2) size, access i maxMN, access i exps,
        access (i * 2 + 1) size, access i maxMN, access i exps])
    ++ [alloc size, alloc size, alloc size]
    ++ (List.range size).flatMap (fun i => [access i size, access i size, access i size])

/-- Between the loops: the inverses, `z4`, `z5` and the room for `multiexpdata`. -/
def betweenEvents (s : VerifyLocals) (exps proofs : Nat) : List Memory.Event :=
  [shift s.max_length 32, alloc s.to_invert, alloc s.to_invert]
    ++ (List.range s.to_invert).flatMap (fun i =>
      [access i s.to_invert, access i s.to_invert])
    ++ [alloc exps, alloc exps,
      alloc (s.nV + (2 * (10 + logN) + 4) * proofs + 2 * exps)]

/-- `VerifyBulletproof`.  An early return is a failure that carries the value returned; after
a shift as wide as the type the processor shifts by the remainder. -/
def verifyBulletproof (proofs : List (BulletproofsRangeproof G)) (nonces : Nat)
    (fOnlyRecover verdict : Bool) : Traced Memory.Event Bool Bool := do
  let fRecover := nonces == proofs.length
  Traced.emitAll [alloc (2 * maxMN)]
  let s ← proofs.foldlM (firstStep fRecover nonces) {}
  Traced.rejectIf fOnlyRecover true
  let exps := 2 ^ (s.max_length % 32)
  Traced.emitAll (betweenEvents s exps proofs.length)
  let size ← proofs.zipIdx.foldlM (secondStep s exps) (2 * exps)
  Traced.emitAll (lastEvents exps (size + 2))
  pure verdict

/-! ## The number of rounds -/

theorem logMLoop_events (nV : Nat) :
    Safe (logMLoop nV 6 0).1 ∧ allocated (logMLoop nV 6 0).1 = 0 := by
  have hstep : ∀ rounds logM, rounds + logM ≤ 32 →
      Safe (logMLoop nV rounds logM).1 ∧ allocated (logMLoop nV rounds logM).1 = 0 := by
    intro rounds
    induction rounds with
    | zero =>
      simp [logMLoop]
    | succ rounds ih =>
      intro logM hle
      obtain ⟨hsafe, hnone⟩ := ih (logM + 1) (by omega)
      unfold logMLoop
      split
      · simp [hsafe, hnone]
        omega
      · simp
        omega
  exact hstep 6 0 (by decide)

private theorem logMLoop_succ (nV rounds logM : Nat) :
    (logMLoop nV (rounds + 1) logM).2 =
      if 2 ^ logM ≤ maxM ∧ 2 ^ logM < nV then (logMLoop nV rounds (logM + 1)).2 else logM := by
  rw [logMLoop]
  split <;> rfl

/-- The least power of two that is large enough, but at most thirty-two. -/
theorem logMOf_eq (nV : Nat) :
    logMOf nV = if nV ≤ 1 then 0 else if nV ≤ 2 then 1 else if nV ≤ 4 then 2 else
      if nV ≤ 8 then 3 else if nV ≤ 16 then 4 else 5 := by
  simp only [logMOf, logMLoop_succ, maxM]
  norm_num
  split_ifs <;> omega

theorem logMOf_le (nV : Nat) : logMOf nV ≤ 5 := by
  rw [logMOf_eq]
  split_ifs <;> decide

theorem logMOf_le_four_iff (nV : Nat) : logMOf nV ≤ 4 ↔ nV ≤ 16 := by
  rw [logMOf_eq]
  split_ifs <;> omega

/-- The powers of `z` suffice for the commitments up to thirty-three of them. -/
theorem le_two_pow_logMOf_iff (nV : Nat) : nV ≤ 2 ^ logMOf nV + 1 ↔ nV ≤ 33 := by
  rw [logMOf_eq]
  split_ifs <;> simp <;> omega

/-! ## The first loop -/

theorem BulletproofsRangeproof.hasShape_iff {proof : BulletproofsRangeproof G} :
    proof.hasShape = true ↔ 1 ≤ proof.V.length ∧ proof.L.length = proof.R.length ∧
      0 < proof.L.length := by
  simp [BulletproofsRangeproof.hasShape, and_assoc]

variable {fRecover : Bool} {nonces : Nat} {s : VerifyLocals} {proof : BulletproofsRangeproof G}
variable {proofs : List (BulletproofsRangeproof G)}

/-- The first loop reads as many elements of `L` and `R` as there are rounds. -/
theorem safe_firstEvents (hshape : proof.hasShape = true) (hj : fRecover = true → s.j < nonces) :
    Safe (firstEvents fRecover nonces s proof) ↔ proof.rounds ≤ proof.L.length := by
  obtain ⟨hV, hLR, _⟩ := BulletproofsRangeproof.hasShape_iff.mp hshape
  have hrecover : Safe (if fRecover then List.replicate 5 (access s.j nonces) ++
      [access 0 proof.V.length] else []) := by
    split
    · next hrec =>
      simp [List.replicate, hj hrec]
      omega
    · exact safe_nil
  simp only [firstEvents, safe_append, safe_cons, safe_alloc, safe_access, safe_nil, safe_map,
    safe_flatMap, List.mem_range, hrecover, (logMLoop_events _).1, true_and, and_true, ← hLR]
  constructor
  · intro h
    by_contra hlt
    have hlast := h.1.2 proof.L.length (by omega)
    omega
  · intro h
    refine ⟨⟨⟨by omega, fun j hj => ?_⟩, fun i hi => ?_⟩, fun i hi => hi⟩ <;> omega

theorem firstStep_of_shape (hshape : proof.hasShape = true) :
    (firstStep fRecover nonces s proof).trace =
        alloc proof.copySize :: firstEvents fRecover nonces s proof ∧
      (firstStep fRecover nonces s proof).result = .ok (s.next fRecover proof) := by
  simp only [firstStep, bind, pure, Traced.emitAll, Traced.rejectIf, Traced.ofExcept,
    Except.rejectIf, hshape]
  simp

theorem firstStep_of_not_shape (hshape : proof.hasShape = false) :
    (firstStep fRecover nonces s proof).trace = [alloc proof.copySize] ∧
      (firstStep fRecover nonces s proof).result = .error false := by
  simp [firstStep, bind, Traced.emitAll, Traced.rejectIf, Traced.ofExcept, Except.rejectIf, hshape]

/-- The result of the first loop. -/
theorem foldlM_firstStep_result (proofs : List (BulletproofsRangeproof G)) (s : VerifyLocals) :
    (proofs.foldlM (firstStep fRecover nonces) s).result =
      if ∀ p ∈ proofs, p.hasShape = true then .ok (proofs.foldl (VerifyLocals.next fRecover) s)
      else .error false :=
  result_foldlM_tested (I := fun _ _ => True) (fun _ _ _ _ _ => trivial)
    (fun _ _ _ _ h => (firstStep_of_shape h).2) (fun _ _ _ _ h => (firstStep_of_not_shape h).2)
    proofs s trivial

/-- **The first loop** is safe when every proof before the first that fails the test has
elements for all its rounds. -/
theorem safe_firstLoop (proofs : List (BulletproofsRangeproof G)) (s : VerifyLocals)
    (hj : fRecover = true → s.j + proofs.length ≤ nonces) :
    Safe (proofs.foldlM (firstStep fRecover nonces) s).trace ↔
      ∀ p ∈ proofs.takeWhile BulletproofsRangeproof.hasShape, p.rounds ≤ p.L.length := by
  refine safe_foldlM_tested
    (I := fun l (s : VerifyLocals) => fRecover = true → s.j + l.length ≤ nonces) ?_
    (fun _ _ _ _ h => (firstStep_of_shape h).2) (fun _ _ _ _ h => (firstStep_of_not_shape h).2)
    ?_ ?_ proofs s hj
  · intro p l s hs _ hrec
    have hle := hs hrec
    simp only [VerifyLocals.next, hrec, if_true, List.length_cons] at hle ⊢
    omega
  · intro p l s hs h
    rw [(firstStep_of_shape h).1, safe_cons, safe_firstEvents h]
    · simp
    · intro hrec
      have hle := hs hrec
      simp only [List.length_cons] at hle
      omega
  · intro p l s _ h
    simp [(firstStep_of_not_shape h).1]

/-! ## What the first loop leaves behind -/

theorem max_length_foldl_le_iff (fRecover : Bool) (proofs : List (BulletproofsRangeproof G))
    (b : Nat) :
    ∀ s : VerifyLocals, (proofs.foldl (VerifyLocals.next fRecover) s).max_length ≤ b ↔
      s.max_length ≤ b ∧ ∀ p ∈ proofs, p.L.length ≤ b := by
  induction proofs with
  | nil =>
    simp
  | cons p proofs ih =>
    intro s
    rw [List.foldl_cons, ih, List.forall_mem_cons, ← and_assoc]
    simp [VerifyLocals.next]

theorem foldl_next_grows (fRecover : Bool) (proofs : List (BulletproofsRangeproof G)) :
    ∀ s : VerifyLocals,
      s.proof_data <+: (proofs.foldl (VerifyLocals.next fRecover) s).proof_data ∧
        s.to_invert ≤ (proofs.foldl (VerifyLocals.next fRecover) s).to_invert := by
  induction proofs with
  | nil =>
    intro s
    exact ⟨List.prefix_refl _, le_refl _⟩
  | cons p proofs ih =>
    intro s
    obtain ⟨hdata, hinvert⟩ := ih (s.next fRecover p)
    refine ⟨(List.prefix_append _ _).trans hdata, le_trans ?_ hinvert⟩
    simp [VerifyLocals.next]

/-- Every proof finds its data, and its challenges are among those inverted. -/
theorem proof_data_foldl (proofs : List (BulletproofsRangeproof G)) :
    ∀ s : VerifyLocals, s.inv_offset = s.to_invert →
      ∀ e ∈ proofs.zipIdx s.proof_data.length,
        ∃ pd, (proofs.foldl (VerifyLocals.next fRecover) s).proof_data[e.2]? = some pd ∧
          pd.logM = logMOf e.1.V.length ∧
          pd.inv_offset + e.1.rounds < (proofs.foldl (VerifyLocals.next fRecover) s).to_invert := by
  induction proofs with
  | nil =>
    intro s _ e he
    simp at he
  | cons p proofs ih =>
    intro s hoffset e he
    rw [List.zipIdx_cons, List.mem_cons] at he
    have hnext : (s.next fRecover p).proof_data.length = s.proof_data.length + 1 := by
      simp [VerifyLocals.next]
    rcases he with rfl | he
    · obtain ⟨⟨rest, hdata⟩, hinvert⟩ := foldl_next_grows fRecover proofs
        (s.next fRecover p)
      refine ⟨{ logM := logMOf p.V.length, inv_offset := s.inv_offset }, ?_, rfl, ?_⟩
      · rw [List.foldl_cons, ← hdata]
        simp [VerifyLocals.next]
      · simp only [VerifyLocals.next, List.foldl_cons] at hinvert ⊢
        omega
    · refine ih (s.next fRecover p) ?_ e (by rw [hnext]; exact he)
      simp [VerifyLocals.next, hoffset]

/-! ## The second loop -/

theorem safe_vectorPowers (n : Nat) : Safe (vectorPowers n) := by
  unfold vectorPowers
  simp only [safe_cons, safe_alloc, true_and]
  split
  · exact safe_nil
  · simp only [safe_cons, safe_access]
    refine ⟨by omega, ?_⟩
    split
    · exact safe_nil
    · simp only [safe_cons, safe_access, safe_flatMap, safe_nil, and_true]
      refine ⟨by omega, ?_⟩
      intro i hi
      have hlt := List.mem_range.mp hi
      omega

theorem safe_cacheEvents {rounds offset inverses : Nat} (hpos : 0 < rounds) (hwidth : rounds < 32)
    (hinv : offset + rounds < inverses) : Safe (cacheEvents rounds offset inverses) := by
  have hone : 1 < 2 ^ rounds := Nat.one_lt_two_pow (by omega)
  simp only [cacheEvents, safe_append, safe_cons, safe_shift, safe_alloc,
    safe_access, safe_nil, and_true, true_and, safe_flatMap]
  refine ⟨by omega, ?_⟩
  intro k hk
  have hlt := List.mem_range.mp hk
  refine ⟨by omega, ?_⟩
  have hpow : 2 ^ (k + 1 + 1) ≤ 2 ^ rounds := Nat.pow_le_pow_right (by decide) (by omega)
  omega

theorem safe_secondEvents {exps inverses : Nat} {pd : ProofData}
    (hlogM : pd.logM = logMOf proof.V.length)
    (hL : proof.L.length = pd.logM + logN) (hLR : proof.L.length = proof.R.length)
    (hinv : pd.inv_offset + (pd.logM + logN) < inverses) (hexps : 2 ^ (pd.logM + logN) ≤ exps) :
    Safe (secondEvents exps inverses pd proof) ↔ proof.V.length ≤ 33 := by
  have hle := logMOf_le proof.V.length
  have hwidth : pd.logM + logN < 32 := by simp only [logN]; omega
  have hMN : 2 ^ pd.logM * 2 ^ logN = 2 ^ (pd.logM + logN) := (pow_add 2 _ _).symm
  have hMpos : 0 < 2 ^ pd.logM := Nat.pow_pos (by decide)
  have hcache := safe_cacheEvents (by simp [logN]) hwidth hinv
  rw [← le_two_pow_logMOf_iff, ← hlogM]
  simp only [secondEvents, safe_append, safe_cons, safe_shift, safe_access, safe_alloc, safe_nil,
    safe_map, safe_flatMap, List.mem_range, and_true, true_and, safe_vectorPowers, hcache, hMN]
  constructor
  · intro h
    by_contra hlt
    have hlast := h.1.1.1.2 (proof.V.length - 1) (by omega)
    omega
  · intro h
    refine ⟨⟨⟨⟨⟨by omega, fun j hj => ?_⟩, fun j hj => ?_⟩, by omega⟩, fun i hi => ?_⟩,
      fun i hi => ?_⟩
    · omega
    · omega
    · have hdiv : i / 2 ^ logN < 2 ^ pd.logM :=
        Nat.div_lt_of_lt_mul (by rwa [Nat.mul_comm, hMN])
      have hmod : i % 2 ^ logN < maxN := Nat.mod_lt _ (by decide)
      have hand : 2 ^ 64 - 1 - i &&& 2 ^ (pd.logM + logN) - 1 ≤ 2 ^ (pd.logM + logN) - 1 :=
        Nat.and_le_right
      omega
    · omega

/-- The second test: `L` has one element per round. -/
def BulletproofsRangeproof.hasRounds (proof : BulletproofsRangeproof G) : Bool :=
  proof.L.length == proof.rounds

/-- What the second loop relies on for one proof. -/
structure Prepared (s : VerifyLocals) (exps : Nat) (e : BulletproofsRangeproof G × Nat) : Prop where
  data : ∃ pd, s.proof_data[e.2]? = some pd ∧ pd.logM = logMOf e.1.V.length ∧
    pd.inv_offset + e.1.rounds < s.to_invert
  shape : e.1.L.length = e.1.R.length
  room : 2 ^ e.1.L.length ≤ exps

section SecondStep

variable {exps size : Nat} {e : BulletproofsRangeproof G × Nat} (he : Prepared s exps e)
include he

theorem secondStep_of_hasRounds (h : e.1.hasRounds = true) :
    (secondStep s exps size e).result = .ok (size + (e.1.V.length + 4 + 2 * e.1.rounds)) ∧
      (Safe (secondStep s exps size e).trace ↔ e.1.V.length ≤ 33) := by
  obtain ⟨⟨pd, hpd, hlogM, hinv⟩, hLR, hroom⟩ := he
  obtain ⟨hindex, hget⟩ := List.getElem?_eq_some_iff.mp hpd
  simp only [BulletproofsRangeproof.hasRounds, BulletproofsRangeproof.rounds, beq_iff_eq,
    ← hlogM] at h hinv
  rw [← safe_secondEvents hlogM h hLR hinv (h ▸ hroom)]
  simp [secondStep, hget, h, hindex, BulletproofsRangeproof.rounds, ← hlogM, bind, pure,
    Traced.emitAll, Traced.rejectIf, Traced.ofExcept, Except.rejectIf, Nat.add_comm]
  omega

theorem secondStep_of_not_hasRounds (h : e.1.hasRounds = false) :
    (secondStep s exps size e).result = .error false ∧ Safe (secondStep s exps size e).trace := by
  obtain ⟨⟨pd, hpd, hlogM, hinv⟩, _⟩ := he
  obtain ⟨hindex, hget⟩ := List.getElem?_eq_some_iff.mp hpd
  simp only [BulletproofsRangeproof.hasRounds, BulletproofsRangeproof.rounds,
    beq_eq_false_iff_ne, ← hlogM, Nat.add_comm _ logN] at h
  simp [secondStep, hget, h, hindex, bind, Traced.emitAll, Traced.rejectIf, Traced.ofExcept,
    Except.rejectIf]

end SecondStep

section SecondLoop

variable {exps : Nat} (l : List (BulletproofsRangeproof G × Nat)) (size : Nat)
  (hl : ∀ e ∈ l, Prepared s exps e)
include hl

/-- The result of the second loop. -/
theorem foldlM_secondStep_result :
    (l.foldlM (secondStep s exps) size).result =
      if ∀ e ∈ l, e.1.hasRounds = true then
        .ok (l.foldl (fun size e => size + (e.1.V.length + 4 + 2 * e.1.rounds)) size)
      else .error false :=
  result_foldlM_tested (I := fun l _ => ∀ e ∈ l, Prepared s exps e)
    (fun _ _ _ hl _ => (List.forall_mem_cons.mp hl).2)
    (fun _ _ _ hl h => (secondStep_of_hasRounds (List.forall_mem_cons.mp hl).1 h).1)
    (fun _ _ _ hl h => (secondStep_of_not_hasRounds (List.forall_mem_cons.mp hl).1 h).1) l size hl

/-- **The second loop** is safe when every proof before the first that fails the second test
has at most thirty-three commitments. -/
theorem safe_secondLoop :
    Safe (l.foldlM (secondStep s exps) size).trace ↔
      ∀ e ∈ l.takeWhile (fun e => e.1.hasRounds), e.1.V.length ≤ 33 :=
  safe_foldlM_tested (I := fun l _ => ∀ e ∈ l, Prepared s exps e)
    (fun _ _ _ hl _ => (List.forall_mem_cons.mp hl).2)
    (fun _ _ _ hl h => (secondStep_of_hasRounds (List.forall_mem_cons.mp hl).1 h).1)
    (fun _ _ _ hl h => (secondStep_of_not_hasRounds (List.forall_mem_cons.mp hl).1 h).1)
    (fun _ _ _ hl h => (secondStep_of_hasRounds (List.forall_mem_cons.mp hl).1 h).2)
    (fun _ _ _ hl h => (secondStep_of_not_hasRounds (List.forall_mem_cons.mp hl).1 h).2) l size hl

end SecondLoop

theorem safe_lastEvents {exps size : Nat} (hsize : 2 * exps ≤ size) :
    Safe (lastEvents exps size) ↔ exps ≤ maxMN := by
  have hcopies : Safe ((List.range size).flatMap fun i =>
      [access i size, access i size, access i size]) := by
    rw [safe_flatMap]
    simp
  simp only [lastEvents, safe_append, safe_cons, safe_alloc, safe_nil, and_true, true_and,
    hcopies, safe_flatMap, List.mem_range, safe_access]
  constructor
  · intro h
    by_contra hlt
    have hlast := (h maxMN (by omega)).2.1
    omega
  · omega

/-! ## The whole function -/

/-- The sizes for which `VerifyBulletproof` stays within bounds. -/
structure SizesSafe (proofs : List (BulletproofsRangeproof G)) (fOnlyRecover : Bool) : Prop where
  /-- the proofs before the first that fails the first test have elements for all rounds -/
  rounds : ∀ p ∈ proofs.takeWhile BulletproofsRangeproof.hasShape, p.rounds ≤ p.L.length
  verified : fOnlyRecover = false → (∀ p ∈ proofs, p.hasShape = true) →
    (∀ p ∈ proofs, p.L.length < 32) ∧
    (∀ p ∈ proofs.takeWhile BulletproofsRangeproof.hasRounds, p.V.length ≤ 33) ∧
    ((∀ p ∈ proofs, p.hasRounds = true) → ∀ p ∈ proofs, p.V.length ≤ 16)

theorem takeWhile_zipIdx_forall {α : Type} (q : α → Bool) (P : α → Prop) :
    ∀ (l : List α) (k : Nat),
      (∀ e ∈ (l.zipIdx k).takeWhile (fun e => q e.1), P e.1) ↔ ∀ a ∈ l.takeWhile q, P a := by
  intro l
  induction l with
  | nil => simp
  | cons a l ih =>
    intro k
    rw [List.zipIdx_cons, List.takeWhile_cons, List.takeWhile_cons]
    cases q a with
    | false => simp
    | true => simp only [if_true, List.forall_mem_cons, ih]

theorem zipIdx_forall {α : Type} (P : α → Prop) (l : List α) (k : Nat) :
    (∀ e ∈ l.zipIdx k, P e.1) ↔ ∀ a ∈ l, P a := by
  have hfst : (l.zipIdx k).map Prod.fst = l := List.zipIdx_map_fst k l
  nth_rewrite 2 [← hfst]
  simp only [List.mem_map, forall_exists_index, and_imp, forall_apply_eq_imp_iff₂]

/-- After the first loop every proof is prepared for the second, if the shift is in range. -/
theorem prepared_of_shape (hshape : ∀ p ∈ proofs, p.hasShape = true)
    (hshort : (proofs.foldl (VerifyLocals.next fRecover) {}).max_length < 32) :
    ∀ e ∈ proofs.zipIdx, Prepared (proofs.foldl (VerifyLocals.next fRecover) {})
      (2 ^ ((proofs.foldl (VerifyLocals.next fRecover) {}).max_length % 32)) e := by
  intro e he
  have hmem : e.1 ∈ proofs := (zipIdx_forall (· ∈ proofs) proofs 0).mpr (fun _ h => h) e he
  obtain ⟨_, hLR, _⟩ := BulletproofsRangeproof.hasShape_iff.mp (hshape e.1 hmem)
  refine ⟨proof_data_foldl proofs {} rfl e he, hLR, ?_⟩
  rw [Nat.mod_eq_of_lt hshort]
  exact Nat.pow_le_pow_right (by decide)
    (((max_length_foldl_le_iff fRecover proofs _ {}).mp (le_refl _)).2 e.1 hmem)

theorem safe_betweenEvents (s : VerifyLocals) (exps proofs : Nat) :
    Safe (betweenEvents s exps proofs) ↔ s.max_length < 32 := by
  have hinverses : Safe ((List.range s.to_invert).flatMap fun i =>
      [access i s.to_invert, access i s.to_invert]) := by
    rw [safe_flatMap]
    simp
  simp [betweenEvents, hinverses]

/-- There are generators for ten rounds. -/
theorem safe_lastEvents_of_rounds (hrounds : ∀ p ∈ proofs, p.hasRounds = true) {size : Nat}
    (hshort : (proofs.foldl (VerifyLocals.next fRecover) {}).max_length < 32)
    (hsize : 2 * 2 ^ ((proofs.foldl (VerifyLocals.next fRecover) {}).max_length % 32) ≤ size) :
    Safe (lastEvents (2 ^ ((proofs.foldl (VerifyLocals.next fRecover) {}).max_length % 32)) size) ↔
      ∀ p ∈ proofs, p.V.length ≤ 16 := by
  have hpow : ∀ n, 2 ^ n ≤ maxMN ↔ n ≤ 10 := by
    intro n
    change 2 ^ n ≤ 2 ^ 10 ↔ n ≤ 10
    exact Nat.pow_le_pow_iff_right (by decide)
  rw [safe_lastEvents hsize, Nat.mod_eq_of_lt hshort, hpow, max_length_foldl_le_iff]
  have hone : ∀ p ∈ proofs, (p.L.length ≤ 10 ↔ p.V.length ≤ 16) := by
    intro p hp
    have hL := hrounds p hp
    simp only [BulletproofsRangeproof.hasRounds, BulletproofsRangeproof.rounds, logN,
      beq_iff_eq] at hL
    rw [← logMOf_le_four_iff]
    omega
  constructor
  · intro h p hp
    exact (hone p hp).mp (h.2 p hp)
  · intro h
    exact ⟨Nat.zero_le _, fun p hp => (hone p hp).mpr (h p hp)⟩

/-- The part after the first loop. -/
theorem safe_afterFirst (hshape : ∀ p ∈ proofs, p.hasShape = true) {S : VerifyLocals}
    (hS : S = proofs.foldl (VerifyLocals.next fRecover) {}) :
    (Safe (betweenEvents S (2 ^ (S.max_length % 32)) proofs.length) ∧
      Safe (proofs.zipIdx.foldlM (secondStep S (2 ^ (S.max_length % 32)))
        (2 * 2 ^ (S.max_length % 32))).trace ∧
      ∀ size, (proofs.zipIdx.foldlM (secondStep S (2 ^ (S.max_length % 32)))
          (2 * 2 ^ (S.max_length % 32))).result = .ok size →
        Safe (lastEvents (2 ^ (S.max_length % 32)) (size + 2))) ↔
    (∀ p ∈ proofs, p.L.length < 32) ∧
      (∀ p ∈ proofs.takeWhile BulletproofsRangeproof.hasRounds, p.V.length ≤ 33) ∧
      ((∀ p ∈ proofs, p.hasRounds = true) → ∀ p ∈ proofs, p.V.length ≤ 16) := by
  have hmax : S.max_length < 32 ↔ ∀ p ∈ proofs, p.L.length < 32 := by
    have h := max_length_foldl_le_iff fRecover proofs 31 {}
    rw [← hS] at h
    simpa [Nat.lt_succ_iff] using h
  rw [safe_betweenEvents, hmax]
  refine and_congr_right fun hlt => ?_
  have hshort := hmax.mpr hlt
  have hprepared : ∀ e ∈ proofs.zipIdx, Prepared S (2 ^ (S.max_length % 32)) e := by
    rw [hS] at hshort ⊢
    exact prepared_of_shape hshape hshort
  rw [safe_secondLoop proofs.zipIdx _ hprepared,
    takeWhile_zipIdx_forall BulletproofsRangeproof.hasRounds (fun p => p.V.length ≤ 33),
    foldlM_secondStep_result proofs.zipIdx _ hprepared]
  refine and_congr_right fun _ => ?_
  have hzip := zipIdx_forall (fun p : BulletproofsRangeproof G => p.hasRounds = true) proofs 0
  by_cases hrounds : ∀ p ∈ proofs, p.hasRounds = true
  · rw [if_pos (hzip.mpr hrounds)]
    simp only [Except.ok.injEq, forall_eq']
    have hgrows : 2 * 2 ^ (S.max_length % 32) ≤ proofs.zipIdx.foldl
        (fun size e => size + (e.1.V.length + 4 + 2 * e.1.rounds)) (2 * 2 ^ (S.max_length % 32)) :=
      List.foldlRecOn _ _ le_rfl fun _ h _ _ => h.trans (Nat.le_add_right _ _)
    rw [hS] at hshort hgrows ⊢
    rw [safe_lastEvents_of_rounds hrounds hshort (by omega)]
    exact ⟨fun h _ => h, fun h => h hrounds⟩
  · rw [if_neg (mt hzip.mp hrounds)]
    simp [hrounds]

/-- **The bounds of `VerifyBulletproof`.**  With one nonce per proof every access is within its
vector and the shift within its type exactly for these sizes. -/
theorem safe_verifyBulletproof_iff (proofs : List (BulletproofsRangeproof G))
    (fOnlyRecover verdict : Bool) :
    Safe (verifyBulletproof proofs proofs.length fOnlyRecover verdict).trace ↔
      SizesSafe proofs fOnlyRecover := by
  have hfirst : Safe (proofs.foldlM (firstStep true proofs.length) {}).trace ↔
      ∀ p ∈ proofs.takeWhile BulletproofsRangeproof.hasShape, p.rounds ≤ p.L.length :=
    safe_firstLoop proofs {} (by simp)
  have hresult : (proofs.foldlM (firstStep true proofs.length) {}).result = _ :=
    foldlM_firstStep_result proofs {}
  simp only [verifyBulletproof, beq_self_eq_true, safe_bind, Traced.trace_emitAll,
    Traced.result_emitAll, Traced.trace_rejectIf, Traced.result_rejectIf,
    Except.rejectIf_eq_ok_iff, safe_cons, safe_nil, safe_alloc, and_true, true_and,
    hfirst, forall_const, Traced.trace_pure]
  by_cases hshape : ∀ p ∈ proofs, p.hasShape = true
  · rw [if_pos hshape] at hresult
    simp only [hresult, Except.ok.injEq, forall_eq']
    rw [safe_afterFirst hshape rfl]
    constructor
    · rintro ⟨hrounds, hrest⟩
      exact ⟨hrounds, fun hfull _ => hrest (by simp [hfull])⟩
    · intro h
      exact ⟨h.rounds, fun hfull => h.verified (by simpa using hfull) hshape⟩
  · rw [if_neg hshape] at hresult
    simp only [hresult, reduceCtorEq, false_imp_iff, implies_true, and_true]
    exact ⟨fun h => ⟨h, fun _ hall => absurd hall hshape⟩, fun h => h.rounds⟩

/-! ## Allocations -/

theorem rounds_le (p : BulletproofsRangeproof G) : p.rounds ≤ 11 := by
  have hle := logMOf_le p.V.length
  simp only [BulletproofsRangeproof.rounds, logN]
  omega

theorem allocated_firstEvents (p : BulletproofsRangeproof G) :
    allocated (firstEvents fRecover nonces s p) = p.V.length + 2 * p.rounds + 1 := by
  have hrecover : allocated (if fRecover then List.replicate 5 (access s.j nonces) ++
      [access 0 p.V.length] else []) = 0 := by
    split <;> rfl
  simp only [firstEvents, allocated_append, (logMLoop_events _).2, hrecover]
  simp
  omega

theorem allocated_vectorPowers (n : Nat) : allocated (vectorPowers n) = n := by
  unfold vectorPowers
  split
  · simp
  · split <;> simp

theorem allocated_cacheEvents (rounds offset inverses : Nat) :
    allocated (cacheEvents rounds offset inverses) = 2 ^ rounds := by
  simp [cacheEvents]

theorem allocated_secondEvents {exps inverses : Nat} {pd : ProofData}
    (p : BulletproofsRangeproof G) :
    allocated (secondEvents exps inverses pd p) =
      2 ^ pd.logM + 7 + 2 * 2 ^ (pd.logM + logN) + p.V.length + 2 * (pd.logM + logN) := by
  simp [secondEvents, allocated_vectorPowers, allocated_cacheEvents, pow_add]
  omega

theorem allocated_betweenEvents (s : VerifyLocals) (exps proofs : Nat) :
    allocated (betweenEvents s exps proofs) = 2 * s.to_invert + 4 * exps + s.nV + 36 * proofs := by
  simp [betweenEvents, logN]
  omega

theorem allocated_lastEvents (exps size : Nat) :
    allocated (lastEvents exps size) = 2 + 3 * size := by
  simp [lastEvents]
  omega

theorem copySize_le {p : BulletproofsRangeproof G} (h : p.SizesFit) :
    p.copySize ≤ 3 * maxSize + 9 := by
  obtain ⟨hV, hL, hR⟩ := h
  simp only [BulletproofsRangeproof.copySize]
  omega

theorem allocated_firstStep_le {p : BulletproofsRangeproof G} (h : p.SizesFit) :
    allocated (firstStep fRecover nonces s p).trace ≤ 4 * maxSize + 32 := by
  have hcopy := copySize_le h
  have hV := h.1
  have hrounds := rounds_le p
  cases hshape : p.hasShape with
  | false =>
    rw [(firstStep_of_not_shape hshape).1]
    simp only [allocated_cons, count_alloc, allocated_nil]
    omega
  | true =>
    rw [(firstStep_of_shape hshape).1]
    simp only [allocated_cons, count_alloc, allocated_firstEvents]
    omega

/-- What the first loop leaves behind is bounded by the number of proofs. -/
theorem foldl_next_bounds (fRecover : Bool) (proofs : List (BulletproofsRangeproof G))
    (hfit : ∀ p ∈ proofs, p.SizesFit) :
    ∀ s : VerifyLocals, (∀ pd ∈ s.proof_data, pd.logM ≤ 5) →
      (∀ pd ∈ (proofs.foldl (VerifyLocals.next fRecover) s).proof_data, pd.logM ≤ 5) ∧
        (proofs.foldl (VerifyLocals.next fRecover) s).to_invert ≤
          s.to_invert + 12 * proofs.length ∧
        (proofs.foldl (VerifyLocals.next fRecover) s).nV ≤ s.nV + maxSize * proofs.length := by
  induction proofs with
  | nil =>
    intro s hs
    exact ⟨hs, by simp, by simp⟩
  | cons p proofs ih =>
    intro s hs
    obtain ⟨hp, hrest⟩ := List.forall_mem_cons.mp hfit
    have hnext : ∀ pd ∈ (s.next fRecover p).proof_data, pd.logM ≤ 5 := by
      intro pd hpd
      simp only [VerifyLocals.next, List.mem_append, List.mem_singleton] at hpd
      rcases hpd with hpd | rfl
      · exact hs pd hpd
      · exact logMOf_le p.V.length
    obtain ⟨hlogM, hinvert, hnV⟩ := ih hrest (s.next fRecover p) hnext
    have hrounds := rounds_le p
    have hV := hp.1
    simp only [List.foldl_cons, List.length_cons, Nat.mul_succ]
    refine ⟨hlogM, hinvert.trans ?_, hnV.trans ?_⟩
    · simp only [VerifyLocals.next]
      omega
    · simp only [VerifyLocals.next]
      omega

theorem secondStep_bounds {exps size : Nat} {e : BulletproofsRangeproof G × Nat}
    (hlogM : ∀ pd ∈ s.proof_data, pd.logM ≤ 5) (hfit : e.1.SizesFit) :
    allocated (secondStep s exps size e).trace ≤ 4 * maxSize + 5000 ∧
      ∀ size', (secondStep s exps size e).result = .ok size' → size' ≤ size + (maxSize + 26) := by
  have hpd : (s.proof_data.getD e.2 {}).logM ≤ 5 := by
    rw [List.getD_eq_getElem?_getD]
    cases h : s.proof_data[e.2]? with
    | none => exact Nat.zero_le 5
    | some pd => exact hlogM pd (List.mem_of_getElem? h)
  have hcopy := copySize_le hfit
  have hV := hfit.1
  simp only [secondStep]
  generalize s.proof_data.getD e.2 {} = pd at hpd
  by_cases htest : e.1.L.length ≠ logN + pd.logM
  · simp only [bind, Traced.emitAll, Traced.rejectIf, Traced.ofExcept, Except.rejectIf,
      if_pos htest, List.append_nil, allocated_cons, count_alloc, count_access,
      allocated_nil]
    refine ⟨hcopy.trans (by decide), ?_⟩
    intro size' h
    cases h
  · have hM : 2 ^ pd.logM ≤ 32 := Nat.pow_le_pow_right (by decide) hpd
    have hMN : 2 ^ (pd.logM + logN) ≤ 2048 :=
      Nat.pow_le_pow_right (j := 11) (by decide) (by simp only [logN]; omega)
    simp only [bind, pure, Traced.emitAll, Traced.rejectIf, Traced.ofExcept, Except.rejectIf,
      if_neg htest, List.append_nil, List.nil_append, allocated_append, allocated_cons,
      count_alloc, count_access, allocated_nil, allocated_secondEvents,
      Except.ok.injEq]
    simp only [logN] at hMN ⊢
    refine ⟨by omega, ?_⟩
    rintro size' rfl
    omega

/-- The second loop makes `multiexpdata` grow by a bounded number of elements per proof. -/
theorem foldlM_secondStep_size {exps size size' : Nat}
    {l : List (BulletproofsRangeproof G × Nat)} (hlogM : ∀ pd ∈ s.proof_data, pd.logM ≤ 5)
    (hfit : ∀ e ∈ l, e.1.SizesFit) (h : (l.foldlM (secondStep s exps) size).result = .ok size') :
    size' ≤ size + (maxSize + 26) * l.length := by
  have hrun := Traced.foldlM_ok_invariant
    (fun done n => (∀ e ∈ done, e.1.SizesFit) → n ≤ size + (maxSize + 26) * done.length)
    (secondStep s exps) ?_ l [] size size' (fun _ => Nat.le_add_right _ _) h
  · exact hrun hfit
  · intro done n e n' hn hstep hdone
    have hprev := hn fun e he => hdone e (List.mem_append_left _ he)
    have hnext := (secondStep_bounds hlogM (hdone e (by simp))).2 n' hstep
    rw [List.length_append, List.length_singleton, Nat.mul_succ]
    omega

/-- **The memory of `VerifyBulletproof`.**  For proofs obtained by deserialisation the number
of elements allocated is linear in the number of proofs, up to a constant. -/
theorem allocated_verifyBulletproof_le (proofs : List (BulletproofsRangeproof G)) (nonces : Nat)
    (fOnlyRecover verdict : Bool) (hfit : ∀ p ∈ proofs, p.SizesFit) :
    allocated (verifyBulletproof proofs nonces fOnlyRecover verdict).trace ≤
      2 ^ 35 + 2 ^ 29 * proofs.length := by
  have hzip : ∀ e ∈ proofs.zipIdx, e.1.SizesFit :=
    (zipIdx_forall (fun p : BulletproofsRangeproof G => p.SizesFit) proofs 0).mpr hfit
  have hloop := allocated_foldlM_le (f := firstStep (nonces == proofs.length) nonces)
    (fun _ p hp => allocated_firstStep_le (hfit p hp)) {}
  have hbound : 2 * maxMN + ((4 * maxSize + 32) * proofs.length + (0 + ((2 * (12 * proofs.length) +
      4 * 2 ^ 31 + maxSize * proofs.length + 36 * proofs.length) +
      ((4 * maxSize + 5000) * proofs.length + (2 + 3 * (2 * 2 ^ 31 +
      (maxSize + 26) * proofs.length + 2) + 0))))) ≤ 2 ^ 35 + 2 ^ 29 * proofs.length := by
    simp only [maxSize, maxMN, maxM, maxN]
    omega
  refine le_trans ?_ hbound
  refine allocated_bind_le (by simp) fun _ _ => ?_
  refine allocated_bind_le hloop fun S hS => ?_
  refine allocated_bind_le (by simp) fun _ _ => ?_
  rw [foldlM_firstStep_result] at hS
  split_ifs at hS
  obtain ⟨hlogM, hinvert, hnV⟩ :=
    foldl_next_bounds (nonces == proofs.length) proofs hfit {} (by simp)
  rw [Except.ok.inj hS] at hlogM hinvert hnV
  have hexps : 2 ^ (S.max_length % 32) ≤ 2 ^ 31 := Nat.pow_le_pow_right (by decide) (by omega)
  refine allocated_bind_le ?_ fun _ _ => ?_
  · rw [Traced.trace_emitAll, allocated_betweenEvents]
    simp only [Nat.zero_add] at hinvert hnV
    omega
  refine allocated_bind_le ?_ fun size hsize => ?_
  · have hsecond := allocated_foldlM_le (f := secondStep S (2 ^ (S.max_length % 32)))
      (fun _ e he => (secondStep_bounds hlogM (hzip e he)).1) (2 * 2 ^ (S.max_length % 32))
    rwa [List.length_zipIdx] at hsecond
  have hgrown := foldlM_secondStep_size hlogM hzip hsize
  refine allocated_bind_le ?_ fun _ _ => by simp
  rw [Traced.trace_emitAll, allocated_lastEvents]
  rw [List.length_zipIdx] at hgrown
  omega

/-! ## Deserialised proofs -/

/-- The proofs are values of `Unserialize`. -/
def Unserialized [Zero G] (c : Crypto G) (proofs : List (BulletproofsRangeproof G)) : Prop :=
  ∀ p ∈ proofs, ∃ bytes rest, (BulletproofsRangeproof.unserialize c).run bytes = .ok (p, rest)

theorem Unserialized.sizesFit [Zero G] {c : Crypto G} (h : Unserialized c proofs) :
    ∀ p ∈ proofs, p.SizesFit := by
  intro p hp
  obtain ⟨bytes, rest, hread⟩ := h p hp
  exact BulletproofsRangeproof.unserialize_yields bytes p rest hread

/-- Proofs with reduced scalars are read back from what `Serialize` writes. -/
theorem unserialized_of_copy [Zero G] {c : Crypto G} (hc : c.EncodesElements)
    (hfit : ∀ p ∈ proofs, p.SizesFit) (hcopy : ∀ p ∈ proofs, p.copy = p) :
    Unserialized c proofs := by
  intro p hp
  have hread := BulletproofsRangeproof.unserialize_serialize hc p (hfit p hp) []
  rw [hcopy p hp] at hread
  exact ⟨_, _, hread⟩

/-- A proof that one of the two tests rejects; the second is not reached with
`fOnlyRecover`. -/
def Malformed (proofs : List (BulletproofsRangeproof G)) (fOnlyRecover : Bool) : Prop :=
  ∃ p ∈ proofs, p.hasShape = false ∨ (fOnlyRecover = false ∧ p.hasRounds = false)

/-- What a caller with untrusted proofs relies on. -/
structure MemorySafe (proofs : List (BulletproofsRangeproof G)) (nonces : Nat)
    (fOnlyRecover verdict : Bool) : Prop where
  safe : Safe (verifyBulletproof proofs nonces fOnlyRecover verdict).trace
  allocated : allocated (verifyBulletproof proofs nonces fOnlyRecover verdict).trace ≤
    2 ^ 35 + 2 ^ 29 * proofs.length
  malformed : Malformed proofs fOnlyRecover →
    (verifyBulletproof proofs nonces fOnlyRecover verdict).result = .error false

/-- The two tests come before anything a malformed proof could spoil, once its sizes are safe. -/
theorem verifyBulletproof_malformed {fOnlyRecover : Bool} (verdict : Bool)
    (hsizes : SizesSafe proofs fOnlyRecover) (hbad : Malformed proofs fOnlyRecover) :
    (verifyBulletproof proofs nonces fOnlyRecover verdict).result = .error false := by
  have hfirst : (proofs.foldlM (firstStep (nonces == proofs.length) nonces) {}).result = _ :=
    foldlM_firstStep_result proofs {}
  simp only [verifyBulletproof, Traced.result_bind, Traced.result_emitAll, Traced.result_rejectIf,
    hfirst]
  by_cases hshape : ∀ p ∈ proofs, p.hasShape = true
  · obtain ⟨p, hp, hno | ⟨hfull, hno⟩⟩ := hbad
    · rw [hshape p hp] at hno
      cases hno
    have hshort := (max_length_foldl_le_iff (nonces == proofs.length) proofs 31 {}).mpr
      ⟨Nat.zero_le _, fun p hp => Nat.le_of_lt_succ ((hsizes.verified hfull hshape).1 p hp)⟩
    have hsecond := foldlM_secondStep_result proofs.zipIdx
      (2 * 2 ^ ((proofs.foldl (VerifyLocals.next (nonces == proofs.length)) {}).max_length % 32))
      (prepared_of_shape hshape (Nat.lt_succ_of_le hshort))
    have hzip : ¬ ∀ e ∈ proofs.zipIdx, e.1.hasRounds = true := by
      rw [zipIdx_forall (fun p : BulletproofsRangeproof G => p.hasRounds = true)]
      intro h
      rw [h p hp] at hno
      cases hno
    rw [if_neg hzip] at hsecond
    simp only [if_pos hshape, hfull, Except.rejectIf, bind, Except.bind, Bool.false_eq_true,
      if_false, hsecond]
  · rw [if_neg hshape]
    rfl

/-- **Untrusted proofs.**  With one nonce per proof, a call on deserialised proofs stays within
the bounds of its vectors and of its shifts, allocates in proportion to the number of proofs
and answers `false` to a malformed proof, exactly for the sizes of `SizesSafe`. -/
theorem verifyBulletproof_memorySafe_iff [Zero G] (c : Crypto G)
    (proofs : List (BulletproofsRangeproof G)) (nonces : List G) (fOnlyRecover verdict : Bool)
    (hread : Unserialized c proofs) (hnonces : nonces.length = proofs.length) :
    MemorySafe proofs nonces.length fOnlyRecover verdict ↔ SizesSafe proofs fOnlyRecover := by
  rw [hnonces]
  constructor
  · intro h
    exact (safe_verifyBulletproof_iff proofs fOnlyRecover verdict).mp h.safe
  · intro h
    exact ⟨(safe_verifyBulletproof_iff proofs fOnlyRecover verdict).mpr h,
      allocated_verifyBulletproof_le proofs proofs.length fOnlyRecover verdict hread.sizesFit,
      verifyBulletproof_malformed verdict h⟩

/-- A proof with vectors of the given sizes. -/
def sizedProof (nV nL : Nat) : BulletproofsRangeproof (ZMod groupOrder) :=
  { BulletproofsRangeproof.empty with
    V := List.replicate nV 0, L := List.replicate nL 0, R := List.replicate nL 0 }

theorem sizedProof_unserialized {nV nL : Nat} (hV : nV ≤ maxSize) (hL : nL ≤ maxSize) :
    Unserialized (fixedBls true).toCrypto [sizedProof nV nL] := by
  refine unserialized_of_copy (fixedBls_encodesElements true) ?_ ?_
  · simp [sizedProof, BulletproofsRangeproof.SizesFit, hV, hL]
  · simp [sizedProof, BulletproofsRangeproof.copy, BulletproofsRangeproof.empty, Scalar.copy]

/-- One commitment and six rounds, as the wallet makes them. -/
theorem verifyBulletproof_memorySafe_six :
    MemorySafe [sizedProof 1 6] 1 false true :=
  (verifyBulletproof_memorySafe_iff (fixedBls true).toCrypto [sizedProof 1 6] [0] false true
    (sizedProof_unserialized (by decide) (by decide)) rfl).mpr
    ⟨by decide, by decide⟩

/-- One commitment and one round: the first loop reads `L[1]`, beyond the only element.  With
thirty-two rounds the size of `z4` is computed by a shift as wide as the type. -/
theorem verifyBulletproof_reads_beyond :
    Unserialized (fixedBls true).toCrypto [sizedProof 1 1] ∧
      access 1 1 ∈ (verifyBulletproof [sizedProof 1 1] 1 false true).trace ∧
      ¬ MemorySafe [sizedProof 1 1] 1 false true ∧
    Unserialized (fixedBls true).toCrypto [sizedProof 1 32] ∧
      shift 32 32 ∈ (verifyBulletproof [sizedProof 1 32] 1 false true).trace ∧
      ¬ MemorySafe [sizedProof 1 32] 1 false true := by
  have hread : access 1 1 ∈ (verifyBulletproof [sizedProof 1 1] 1 false true).trace := by
    decide +kernel
  have hshift : shift 32 32 ∈ (verifyBulletproof [sizedProof 1 32] 1 false true).trace := by
    decide +kernel
  refine ⟨sizedProof_unserialized (by decide) (by decide), hread, ?_,
    sizedProof_unserialized (by decide) (by decide), hshift, ?_⟩
  · intro h
    exact absurd (h.safe _ hread) (by decide)
  · intro h
    exact absurd (h.safe _ hshift) (by decide)

end Navcoin
