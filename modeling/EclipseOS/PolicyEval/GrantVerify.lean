import EclipseOS.PolicyEval.GrantCodec

/-! # Verifying a grant

A grant is parsed only once the signature over its exact bytes has verified, and
its validity window is checked only after that. -/

namespace EclipseOS.PolicyEval

open Foundation Cbor

/-- `VerifyingKey::verify`: which signatures a key accepts over which bytes. -/
class SignatureCheck where
  verifies : FixedBytes 32 → Bytes → FixedBytes 64 → Bool

/-- The check that goes with the key that signs everything alike. -/
@[reducible] def soleSignature : SignatureCheck where
  verifies _ _ signature := signature = zeroBytes 64

inductive VerifyError where
  | malformed (error : Cbor.Error)
  | wrongAlgorithm
  | unknownKey
  | unprotectedHeaderNotEmpty
  | badSignature
  | expired
  | notYetValid
  deriving DecidableEq

instance : FromCbor VerifyError := ⟨.malformed⟩

/-- Tolerated clock disagreement between issue and verification. It applies to
`issued` only. -/
def clockSkewMs : UInt64 := 2000

def saturatingAdd (left right : UInt64) : UInt64 :=
  if left.toNat + right.toNat < 2 ^ 64 then left + right else 0xffffffffffffffff

namespace Grant

/-- Expiry is exact: a grant that expired a millisecond ago is not usable. -/
def isValidAt (grant : Grant) (now : UInt64) : Except VerifyError Unit :=
  if now ≥ grant.expiresMs then
    .error .expired
  else if grant.issuedMs > saturatingAdd now clockSkewMs then
    .error .notYetValid
  else
    .ok ()

/-- `is_valid_at(now).is_ok()`. -/
def validAt (grant : Grant) (now : UInt64) : Bool := (grant.isValidAt now).isOk

theorem validAt_iff {grant : Grant} {now : UInt64} :
    grant.validAt now ↔
      now < grant.expiresMs ∧ grant.issuedMs ≤ saturatingAdd now clockSkewMs := by
  unfold validAt isValidAt
  split
  · rename_i expired
    simp [Except.isOk, Except.toBool, UInt64.not_lt.mpr expired]
  · rename_i running
    split
    · rename_i early
      simp [Except.isOk, Except.toBool, UInt64.not_le.mpr early]
    · rename_i started
      simpa [Except.isOk, Except.toBool] using
        ⟨UInt64.not_le.mp running, UInt64.not_lt.mp started⟩

theorem isValidAt_eq_ok {grant : Grant} {now : UInt64} :
    grant.isValidAt now = .ok () ↔ grant.validAt now := by
  unfold validAt
  cases grant.isValidAt now <;> simp [Except.isOk, Except.toBool]

end Grant

/-! ## Reading the envelope -/

structure Protected where
  alg : Option Int64
  kid : Option Digest

/-- An entry not understood is still signed, and may change what the signature
means. -/
def Protected.read (label : Int64) (fields : Protected) : Read VerifyError Protected :=
  if label = labelAlg then do
    return { fields with alg := some (← i64) }
  else if label = labelKid then do
    return { fields with kid := some (← byteArray 32) }
  else
    throw (.malformed .type)

def Protected.readEach : Nat → Protected → Read VerifyError Protected
  | 0, fields => return fields
  | n + 1, fields => do
    let fields ← Protected.read (← intKey) fields
    Protected.readEach n fields

def Protected.readMap : Read VerifyError Protected := do
  let fields ← Protected.readEach (← mapBegin) ⟨none, none⟩
  mapEnd
  return fields

def readProtected (header : Bytes) : Except VerifyError (Int64 × Digest) := do
  let fields ← decodeAll Protected.readMap header
  match fields.alg, fields.kid with
  | none, _ => throw .wrongAlgorithm
  | _, none => throw .unknownKey
  | some alg, some kid => return (alg, kid)

/-- The unprotected header is signed by nothing, so it must be empty. -/
def readUnprotected : Read VerifyError Unit := do
  if (← mapBegin) ≠ 0 then
    throw .unprotectedHeaderNotEmpty
  mapEnd

/-- The protected header, the payload and the signature. -/
def readCose : Read VerifyError (Bytes × Bytes × FixedBytes 64) := do
  if (← arrayLen) ≠ 4 then
    throw (.malformed .type)
  let header ← bytes
  readUnprotected
  let payload ← bytes
  let signature ← byteArray 64
  return (header, payload, signature)

theorem Protected.run_readEach {label : Int64} {before after : Protected} {value : Bytes}
    {frame : Frame} {outer : List Frame} (n : Nat) (rest : Bytes)
    (remaining : frame.left ≠ 0) (fresh : ¬frame.previous.any (Writer.i64 label ≤ ·))
    (step : Accepts (Protected.read label before) (outer.length + 1) after value) :
    (readEach (n + 1) before).run ⟨Writer.i64 label ++ (value ++ rest), frame :: outer⟩ =
      (readEach n after).run
        ⟨rest, ⟨some (Writer.i64 label), frame.left - 1⟩ :: outer⟩ := by
  have unfolded (reader : Reader) : (readEach (n + 1) before).run reader =
      intKey.run reader >>= fun named =>
        (Protected.read named.1 before).run named.2 >>= fun stepped =>
          (readEach n stepped.1).run stepped.2 :=
    rfl
  rw [unfolded, run_intKey _ remaining fresh]
  change (Protected.read label before).run _ >>= _ = _
  rw [step rest (⟨some (Writer.i64 label), frame.left - 1⟩ :: outer) rfl]
  rfl

theorem accepts_readUnprotected {depth : Nat} (room : depth < maxMapDepth) :
    Accepts readUnprotected depth () MapBuilder.new.finish := by
  intro rest maps depthEqual
  have opened : (mapBegin : Read VerifyError Nat).run ⟨Writer.map 0 ++ rest, maps⟩ =
      .ok (0, ⟨rest, ⟨none, 0⟩ :: maps⟩) :=
    run_mapBegin (by decide) rest (depthEqual ▸ room)
  have bytes : MapBuilder.new.finish = Writer.map 0 := rfl
  rw [bytes, readUnprotected, StateT.run_bind, opened]
  rfl

theorem decode_coseSign1 {header payload : Bytes} (headerShort : header.length < 2 ^ 64)
    (payloadShort : payload.length < 2 ^ 64) (signature : FixedBytes 64) :
    decodeAll readCose (coseSign1 header payload signature) =
      .ok (header, payload, signature) := by
  have four : Accepts (arrayLen : Read VerifyError Nat) 0 4 (Writer.array 4) :=
    accepts_arrayLen.mpr ⟨rfl, by decide⟩
  have headerRead : Accepts (bytes : Read VerifyError Bytes) 0 header (Writer.bytes header) :=
    accepts_bytes.mpr ⟨rfl, headerShort⟩
  have payloadRead : Accepts (bytes : Read VerifyError Bytes) 0 payload (Writer.bytes payload) :=
    accepts_bytes.mpr ⟨rfl, payloadShort⟩
  have signatureRead : Accepts (byteArray 64 : Read VerifyError (FixedBytes 64)) 0 signature
      (Writer.bytes signature.val) :=
    accepts_byteArray.mpr ⟨rfl, by decide⟩
  have bytes : coseSign1 header payload signature = Writer.array 4 ++ (Writer.bytes header ++
      (MapBuilder.new.finish ++ (Writer.bytes payload ++ (Writer.bytes signature.val ++ [])))) := by
    simp [coseSign1]
  rw [bytes, decodeAll, readCose, Reader.new]
  simp only [StateT.run_bind, four _ [] rfl, ok_bind, ne_eq, not_true, if_false,
    headerRead _ [] rfl, accepts_readUnprotected (by decide) _ [] rfl, payloadRead _ [] rfl,
    signatureRead _ [] rfl]
  rfl

section Header

variable [Blake3]

theorem protectedHeader_eq (key : FixedBytes 32) :
    protectedHeader key = Writer.map 2 ++ (Writer.i64 labelAlg ++ (Writer.i64 algEddsa ++
      (Writer.i64 labelKid ++ (Writer.bytes (keyId key).val ++ [])))) := by
  have sorted : [(Writer.i64 labelAlg, Writer.i64 algEddsa),
      (Writer.i64 labelKid, Writer.bytes (keyId key).val)].insertionSort MapBuilder.KeyLe =
      [(Writer.i64 labelAlg, Writer.i64 algEddsa),
        (Writer.i64 labelKid, Writer.bytes (keyId key).val)] := by
    have ordered : MapBuilder.KeyLe (Writer.i64 labelAlg, Writer.i64 algEddsa)
        (Writer.i64 labelKid, Writer.bytes (keyId key).val) := by
      show Writer.i64 labelAlg ≤ Writer.i64 labelKid
      decide
    simp [List.insertionSort, ordered]
  simp only [protectedHeader, MapBuilder.finish, MapBuilder.insertInt, MapBuilder.new,
    List.nil_append, List.cons_append, sorted]
  simp [Writer.map]

theorem decode_protectedHeader (key : FixedBytes 32) :
    decodeAll Protected.readMap (protectedHeader key) =
      .ok ⟨some algEddsa, some (keyId key)⟩ := by
  have alg : Accepts (Protected.read labelAlg ⟨none, none⟩) 1 ⟨some algEddsa, none⟩
      (Writer.i64 algEddsa) := by
    rw [← List.append_nil (Writer.i64 algEddsa)]
    exact (accepts_i64 algEddsa).bind (accepts_pure.mpr ⟨rfl, rfl⟩)
  have kid : Accepts (Protected.read labelKid ⟨some algEddsa, none⟩) 1
      ⟨some algEddsa, some (keyId key)⟩ (Writer.bytes (keyId key).val) := by
    rw [← List.append_nil (Writer.bytes (keyId key).val)]
    exact (accepts_byteArray.mpr ⟨rfl, by decide⟩ : Accepts (byteArray 32) 1 (keyId key) _).bind
      (accepts_pure.mpr ⟨rfl, rfl⟩)
  have opened (rest : Bytes) : (mapBegin : Read VerifyError Nat).run
      (Reader.new (Writer.map 2 ++ rest)) = .ok (2, ⟨rest, [⟨none, 2⟩]⟩) :=
    run_mapBegin (by decide) rest (by decide)
  rw [protectedHeader_eq, decodeAll, Protected.readMap]
  simp only [StateT.run_bind, opened, ok_bind]
  rw [Protected.run_readEach 1 _ (by decide) (by decide) alg,
    Protected.run_readEach 0 _ (by decide) (by decide) kid]
  rfl

theorem readProtected_protectedHeader (key : FixedBytes 32) :
    readProtected (protectedHeader key) = .ok (algEddsa, keyId key) := by
  rw [readProtected, decode_protectedHeader]
  rfl

theorem length_protectedHeader (key : FixedBytes 32) : (protectedHeader key).length = 38 := by
  have map : (Writer.map 2).length = 1 := by decide
  have algLabel : (Writer.i64 labelAlg).length = 1 := by decide
  have alg : (Writer.i64 algEddsa).length = 1 := by decide
  have kidLabel : (Writer.i64 labelKid).length = 1 := by decide
  have kid : (Writer.bytes (keyId key).val).length = 34 := by
    have head : (Writer.head majorBytes 32).length = 2 := by decide
    rw [Writer.bytes, List.length_append, (keyId key).property, head]
  rw [protectedHeader_eq, List.length_append, List.length_append, List.length_append,
    List.length_append, List.length_append, map, algLabel, alg, kidLabel, kid]
  rfl

end Header

section Verify

variable [Blake3] [SignatureCheck]

def Grant.verify (cose : Bytes) (key : FixedBytes 32) (now : UInt64) :
    Except VerifyError Grant := do
  let (header, payload, signature) ← decodeAll readCose cose
  let (alg, kid) ← readProtected header
  if alg ≠ algEddsa then
    throw .wrongAlgorithm
  if kid ≠ keyId key then
    throw .unknownKey
  if ¬SignatureCheck.verifies key (sigStructure header payload) signature then
    throw .badSignature
  let grant ← (Grant.decode payload).mapError .malformed
  grant.isValidAt now
  return grant

theorem Grant.verify_coseSign1 {grant : Grant} {key : FixedBytes 32}
    {signature : FixedBytes 64} {now : UInt64} (short : grant.encode.length < 2 ^ 64)
    (signed : SignatureCheck.verifies key (sigStructure (protectedHeader key) grant.encode)
      signature)
    (valid : grant.validAt now) :
    Grant.verify (coseSign1 (protectedHeader key) grant.encode signature) key now =
      .ok grant := by
  have headerShort : (protectedHeader key).length < 2 ^ 64 := by
    rw [length_protectedHeader]
    decide
  simp only [Grant.verify, decode_coseSign1 headerShort short, ok_bind,
    readProtected_protectedHeader, ne_eq, not_true, if_false, signed,
    Grant.decode_encode short, Except.mapError]
  rw [Grant.isValidAt_eq_ok.mpr valid]
  rfl

end Verify

end EclipseOS.PolicyEval
