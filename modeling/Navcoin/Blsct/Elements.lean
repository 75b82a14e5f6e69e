import Navcoin.Primitives.Serialize

/-!
# Curve elements on the wire and the range proof record

`Crypto` collects what the node takes from the curve library and from the hash
function: nothing below looks inside it.  `BulletproofsRangeproof` is the record of
`blsct/bulletproofs.h` with its stream format.

* `unserialize_serialize`: a proof whose vectors are within `MAX_SIZE` is read back,
  its scalars reduced as every copy of a `Scalar` is.
-/

namespace Navcoin

/-- The curve library and the hash function. -/
structure Crypto (G : Type) where
  /-- `G1Element::Serialize` -/
  serialize : G → Bytes
  /-- `G1Element::FromBytes`, or the text of the exception it throws -/
  fromBytes : Bytes → Except String G
  /-- `CHashWriter::GetHash` of the bytes written to it -/
  hash : Bytes → Uint256
  /-- the value generator `H` of `BulletproofsRangeproof::GetGenerators` -/
  valueGen : TokenId → G

/-- What is assumed of the element encoding: 48 bytes, and they parse back. -/
structure Crypto.EncodesElements {G : Type} (c : Crypto G) : Prop where
  length_serialize : ∀ p, (c.serialize p).length = 48
  fromBytes_serialize : ∀ p, c.fromBytes (c.serialize p) = .ok p

variable {G : Type}

def writeG1 (c : Crypto G) (p : G) : Bytes := writeVector (c.serialize p)

/-- Bytes that do not parse leave the element as it was constructed, at infinity. -/
def readG1 [Zero G] (c : Crypto G) : StreamReader G :=
  (fun v => (c.fromBytes v).toOption.getD 0) <$> readVector

theorem readG1_writeG1 [Zero G] {c : Crypto G} (hc : c.EncodesElements) (p : G) :
    RoundTrip (readG1 c) (writeG1 c p) p := by
  have hlen : (c.serialize p).length ≤ maxSize := by
    rw [hc.length_serialize]
    decide
  have hread := (readVector_writeVector hlen).map fun v => (c.fromBytes v).toOption.getD 0
  rwa [hc.fromBytes_serialize] at hread

/-- `Scalar::GetVch` as a byte vector: 32 bytes, most significant first. -/
def writeScalar (s : Scalar) : Bytes := writeVector (toBE 32 s)

/-- `Scalar::SetVch` takes the bytes as they are. -/
def readScalar : StreamReader Scalar := ofBE <$> readVector

theorem readScalar_writeScalar {s : Scalar} (h : s < groupOrder) :
    RoundTrip readScalar (writeScalar s) s := by
  have hfits : s < 256 ^ 32 := h.trans (by decide)
  have hlen : (toBE 32 s).length ≤ maxSize := by
    rw [length_toBE]
    decide
  have hread := (readVector_writeVector hlen).map ofBE
  rwa [ofBE_toBE_of_lt hfits] at hread

/-! ## The range proof -/

structure BulletproofsRangeproof (G : Type) where
  V : List G
  L : List G
  R : List G
  A : G
  S : G
  T1 : G
  T2 : G
  taux : Scalar
  mu : Scalar
  a : Scalar
  b : Scalar
  t : Scalar
  deriving DecidableEq, Repr

namespace BulletproofsRangeproof

/-- The default constructor: no commitments, elements at infinity, scalars zero. -/
def empty [Zero G] : BulletproofsRangeproof G :=
  ⟨[], [], [], 0, 0, 0, 0, 0, 0, 0, 0, 0⟩

/-- The copy constructor, which copies every scalar. -/
def copy (p : BulletproofsRangeproof G) : BulletproofsRangeproof G :=
  { p with taux := p.taux.copy, mu := p.mu.copy, a := p.a.copy, b := p.b.copy, t := p.t.copy }

@[simp] theorem copy_copy (p : BulletproofsRangeproof G) : p.copy.copy = p.copy := by
  simp [copy]

def writeElements (c : Crypto G) (v : List G) : Bytes :=
  writeCompactSize v.length ++ v.flatMap (writeG1 c)

def readElements [Zero G] (c : Crypto G) : StreamReader (List G) := do
  let size ← readCompactSize
  Reader.repeat (readG1 c) size

def serialize (c : Crypto G) (p : BulletproofsRangeproof G) : Bytes :=
  writeElements c p.V ++ (writeElements c p.L ++ (writeElements c p.R ++
    (writeG1 c p.A ++ (writeG1 c p.S ++ (writeG1 c p.T1 ++ (writeG1 c p.T2 ++
      (writeScalar p.taux ++ (writeScalar p.mu ++ (writeScalar p.a ++
        (writeScalar p.b ++ writeScalar p.t))))))))))

def unserialize [Zero G] (c : Crypto G) : StreamReader (BulletproofsRangeproof G) := do
  let V ← readElements c
  let L ← readElements c
  let R ← readElements c
  let A ← readG1 c
  let S ← readG1 c
  let T1 ← readG1 c
  let T2 ← readG1 c
  let taux ← readScalar
  let mu ← readScalar
  let a ← readScalar
  let b ← readScalar
  let t ← readScalar
  pure ⟨V, L, R, A, S, T1, T2, taux, mu, a, b, t⟩

/-- The vectors of the proof are within the size a stream admits. -/
def SizesFit (p : BulletproofsRangeproof G) : Prop :=
  p.V.length ≤ maxSize ∧ p.L.length ≤ maxSize ∧ p.R.length ≤ maxSize

instance (p : BulletproofsRangeproof G) : Decidable p.SizesFit :=
  inferInstanceAs (Decidable (_ ∧ _ ∧ _))

variable [Zero G] {c : Crypto G}

theorem readElements_writeElements (hc : c.EncodesElements) {v : List G}
    (h : v.length ≤ maxSize) : RoundTrip (readElements c) (writeElements c v) v :=
  (readCompactSize_writeCompactSize h).bind
    (RoundTrip.repeat v fun p _ => readG1_writeG1 hc p)

theorem readElements_refused {v : List G} (h : maxSize < v.length) :
    Refused (readElements c) (writeElements c v) :=
  ((readCompactSize_refused h).append _).bind _

theorem readElements_yields : Yields (readElements c) fun v => v.length ≤ maxSize :=
  readCompactSize_yields.bind fun _ hsize bs v rest hrun =>
    (Yields.length_repeat (readG1 c) _ bs v rest hrun).trans_le hsize

/-- A proof obtained by deserialisation is within the size a stream admits. -/
theorem unserialize_yields : Yields (unserialize c) SizesFit := by
  refine readElements_yields.bind fun V hV => readElements_yields.bind fun L hL =>
    readElements_yields.bind fun R hR => ?_
  iterate 9 refine Yields.bind_any fun _ => ?_
  exact Yields.pure ⟨hV, hL, hR⟩

theorem unserialize_serialize (hc : c.EncodesElements) (p : BulletproofsRangeproof G)
    (h : p.SizesFit) : RoundTrip (unserialize c) (p.copy.serialize c) p.copy := by
  obtain ⟨hV, hL, hR⟩ := h
  have elems := fun v hv => readElements_writeElements (v := v) hc hv
  have elem := fun q => readG1_writeG1 hc q
  have scalar := fun s : Scalar => readScalar_writeScalar s.copy_lt
  exact (elems _ hV).bind <| (elems _ hL).bind <| (elems _ hR).bind <|
    (elem _).bind <| (elem _).bind <| (elem _).bind <| (elem _).bind <|
    (scalar _).bind <| (scalar _).bind <| (scalar _).bind <| (scalar _).bind <|
    (scalar _).bind_pure _

theorem unserialize_refused (hc : c.EncodesElements) (p : BulletproofsRangeproof G)
    (h : ¬ p.SizesFit) : Refused (unserialize c) (p.serialize c) := by
  have elems := fun v hv => readElements_writeElements (v := v) hc hv
  by_cases hV : p.V.length ≤ maxSize
  · by_cases hL : p.L.length ≤ maxSize
    · have hR : maxSize < p.R.length := by
        by_contra hR
        exact h ⟨hV, hL, by omega⟩
      exact (elems _ hV).bind_refused <| (elems _ hL).bind_refused <|
        ((readElements_refused hR).append _).bind _
    · exact (elems _ hV).bind_refused <|
        ((readElements_refused (by omega)).append _).bind _
  · exact ((readElements_refused (by omega)).append _).bind _

end BulletproofsRangeproof

end Navcoin
