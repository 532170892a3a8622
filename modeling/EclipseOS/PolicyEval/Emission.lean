import EclipseOS.PolicyEval.Audit
import EclipseOS.PolicyEval.Cbor.Framed
import EclipseOS.PolicyEval.Cbor.Trees

/-! # Emissions

The one message a source sends to have a record written. Every field the encoder
always writes is required of the decoder, so an emission has one encoding. -/

namespace EclipseOS.PolicyEval

open Foundation Cbor

inductive EmissionError where
  | cbor (error : Cbor.Error)
  | shape
  deriving DecidableEq

instance : FromCbor EmissionError := ⟨.cbor⟩

namespace Emission

/-- The only emission version this build speaks. -/
def version : UInt64 := 1

/-- `to_be_bytes` of a chain id. -/
def chainIdBytes (chainId : BitVec 128) : Bytes := bigEndian 16 chainId.toNat

def encode (emission : Emission) : Bytes :=
  MapBuilder.new
    |>.insert "body" emission.body
    |>.insertOpt "chain_id" (emission.chainId.map fun chain => Writer.bytes (chainIdBytes chain))
    |>.insertOpt "grant_id" (emission.grantId.map fun grant => Writer.bytes grant.val)
    |>.insert "kind" (Writer.text emission.kind.asStr)
    |>.insert "principal" (Writer.text emission.principal)
    |>.insertOpt "req_id" (emission.reqId.map Writer.u64)
    |>.insertOpt "serial" (emission.serial.map Writer.u64)
    |>.insertOpt "task_id" (emission.taskId.map fun task => Writer.bytes task.val)
    |>.insert "v" (Writer.u64 version)
    |>.finish

end Emission

structure EmissionFields where
  kind : Option Kind
  principal : Option String
  body : Option Bytes
  v : Option UInt64
  grantId : Option Ulid
  taskId : Option Ulid
  chainId : Option (BitVec 128)
  reqId : Option UInt64
  serial : Option UInt64

/-- A kind this build does not know is a shape error. -/
def readKind : Read EmissionError Kind := do
  okOr (Kind.parse (← text)) .shape

namespace EmissionFields

def initial : EmissionFields := ⟨none, none, none, none, none, none, none, none, none⟩

def read (key : String) (fields : EmissionFields) : Read EmissionError EmissionFields :=
  match key with
  | "body" => return { fields with body := some (← spanned skip).2 }
  | "chain_id" =>
    return { fields with chainId := some (BitVec.ofNat 128 (ofBigEndian (← byteArray 16).val)) }
  | "grant_id" => return { fields with grantId := some (← byteArray 16) }
  | "kind" => return { fields with kind := some (← readKind) }
  | "principal" => return { fields with principal := some (← text) }
  | "req_id" => return { fields with reqId := some (← u64) }
  | "serial" => return { fields with serial := some (← u64) }
  | "task_id" => return { fields with taskId := some (← byteArray 16) }
  | "v" => return { fields with v := some (← u64) }
  | _ => throw .shape

def emission (fields : EmissionFields) : Except EmissionError Emission :=
  if fields.v ≠ some Emission.version then
    .error .shape
  else
    match fields.kind, fields.principal, fields.body with
    | some kind, some principal, some body =>
      if principalOk principal then
        .ok ⟨kind, principal, fields.grantId, fields.taskId, fields.chainId, fields.reqId,
          fields.serial, body⟩
      else
        .error .shape
    | _, _, _ => .error .shape

end EmissionFields

def Emission.decode (bytes : Bytes) : Except EmissionError Emission := do
  (← decodeAll (readMap .initial EmissionFields.read) bytes).emission

/-! ## What the decoder accepts -/

namespace Emission

variable {encoding : Bytes}

theorem chainIdBytes_of (value : FixedBytes 16) :
    chainIdBytes (BitVec.ofNat 128 (ofBigEndian value.val)) = value.val := by
  have small := ofBigEndian_lt value.val
  rw [value.property] at small
  have kept : (BitVec.ofNat 128 (ofBigEndian value.val)).toNat = ofBigEndian value.val :=
    (BitVec.toNat_ofNat _ _).trans (Nat.mod_eq_of_lt small)
  have exact := bigEndian_ofBigEndian value.val
  rw [value.property] at exact
  rw [chainIdBytes, kept, exact]

theorem ofBigEndian_chainIdBytes (chain : BitVec 128) :
    BitVec.ofNat 128 (ofBigEndian (chainIdBytes chain)) = chain := by
  have small : chain.toNat < 256 ^ 16 := chain.isLt
  rw [chainIdBytes, ofBigEndian_bigEndian, Nat.mod_eq_of_lt small, BitVec.ofNat_toNat,
    BitVec.setWidth_eq]

end Emission

instance : Local readKind := by
  unfold readKind
  infer_instance

theorem accepts_readKind {depth : Nat} {kind : Kind} {encoding : Bytes} :
    Accepts readKind depth kind encoding ↔ encoding = Writer.text kind.asStr := by
  simp only [readKind, accepts_bind, accepts_text, accepts_okOr, Kind.parse_eq_some]
  constructor
  · rintro ⟨_, _, _, rfl, ⟨rfl, -⟩, rfl, rfl⟩
    exact List.append_nil _
  · rintro rfl
    exact ⟨_, _, [], (List.append_nil _).symm, ⟨rfl, by cases kind <;> decide⟩, rfl, rfl⟩

namespace EmissionFields

instance local_read (key : String) (fields : EmissionFields) : Local (read key fields) := by
  unfold read
  split <;> infer_instance

def schema : Schema EmissionFields :=
  [("v", fun fields => fields.v.map Writer.u64),
    ("body", fun fields => fields.body),
    ("kind", fun fields => fields.kind.map fun kind => Writer.text kind.asStr),
    ("req_id", fun fields => fields.reqId.map Writer.u64),
    ("serial", fun fields => fields.serial.map Writer.u64),
    ("task_id", fun fields => fields.taskId.map fun task => Writer.bytes task.val),
    ("chain_id", fun fields =>
      fields.chainId.map fun chain => Writer.bytes (Emission.chainIdBytes chain)),
    ("grant_id", fun fields => fields.grantId.map fun grant => Writer.bytes grant.val),
    ("principal", fun fields => fields.principal.map Writer.text)]

theorem schema_ascend : NamesAscend (schema.map Prod.fst) := by
  show NamesAscend ["v", "body", "kind", "req_id", "serial", "task_id", "chain_id", "grant_id",
    "principal"]
  decide

structure Fit (fields : EmissionFields) : Prop where
  principal : ∀ principal ∈ fields.principal, (utf8 principal).length < 2 ^ 64
  body : ∀ body ∈ fields.body, Item 1 body

theorem accepts_fields {fields : EmissionFields} {encoding : Bytes} :
    Accepts (readMap initial read) 0 fields encoding ↔
      encoding = mapBytes (presentRows (schema.rows fields)) ∧ fields.Fit := by
  refine Iff.trans (accepts_record schema_ascend (by decide) ?_ (by simp [schema, initial])
    (show initial.Fit from ⟨by simp [initial], by simp [initial]⟩) ?_)
    (and_congr_right fun _ => and_iff_right (by decide))
  · intro name before after value accepts
    unfold read at accepts
    split at accepts
    · rcases accepts_store.mp accepts with ⟨⟨_, body⟩, read, rfl⟩
      rcases accepts_spanned.mp read with ⟨rfl, item⟩
      exact ⟨by simp [schema, Schema.Stores], fun fit =>
        { fit with body := by simpa using accepts_skip.mp item }⟩
    · rcases accepts_store.mp accepts with ⟨chainId, read, rfl⟩
      rcases accepts_byteArray.mp read with ⟨rfl, -⟩
      exact ⟨by simp [schema, Schema.Stores, Emission.chainIdBytes_of], fun fit => { fit with }⟩
    · rcases accepts_store.mp accepts with ⟨grantId, read, rfl⟩
      rcases accepts_byteArray.mp read with ⟨rfl, -⟩
      exact ⟨by simp [schema, Schema.Stores], fun fit => { fit with }⟩
    · rcases accepts_store.mp accepts with ⟨kind, read, rfl⟩
      rcases accepts_readKind.mp read with rfl
      exact ⟨by simp [schema, Schema.Stores], fun fit => { fit with }⟩
    · rcases accepts_store.mp accepts with ⟨principal, read, rfl⟩
      rcases accepts_text.mp read with ⟨rfl, fits⟩
      exact ⟨by simp [schema, Schema.Stores], fun fit => { fit with principal := by simpa }⟩
    · rcases accepts_store.mp accepts with ⟨reqId, read, rfl⟩
      rcases accepts_u64.mp read with rfl
      exact ⟨by simp [schema, Schema.Stores], fun fit => { fit with }⟩
    · rcases accepts_store.mp accepts with ⟨serial, read, rfl⟩
      rcases accepts_u64.mp read with rfl
      exact ⟨by simp [schema, Schema.Stores], fun fit => { fit with }⟩
    · rcases accepts_store.mp accepts with ⟨taskId, read, rfl⟩
      rcases accepts_byteArray.mp read with ⟨rfl, -⟩
      exact ⟨by simp [schema, Schema.Stores], fun fit => { fit with }⟩
    · rcases accepts_store.mp accepts with ⟨v, read, rfl⟩
      rcases accepts_u64.mp read with rfl
      exact ⟨by simp [schema, Schema.Stores], fun fit => { fit with }⟩
    · exact absurd accepts not_accepts_throw
  · rintro ⟨kind, principal, body, v, grantId, taskId, chainId, reqId, serial⟩ fit
    refine Rows.store (fun v => EmissionFields.mk none none none v none none none none none)
      (fun v _ => accepts_store.mpr ⟨v, accepts_u64.mpr rfl, rfl⟩) ?_
    refine Rows.storeBytes (fun body => EmissionFields.mk none none body v none none none none none)
      (fun body found => accepts_store.mpr
        ⟨((), body), accepts_spanned.mpr ⟨rfl, accepts_skip.mpr (fit.body body found)⟩, rfl⟩) ?_
    refine Rows.store (fun kind => EmissionFields.mk kind none body v none none none none none)
      (fun kind _ => accepts_store.mpr ⟨kind, accepts_readKind.mpr rfl, rfl⟩) ?_
    refine Rows.store (fun reqId => EmissionFields.mk kind none body v none none none reqId none)
      (fun reqId _ => accepts_store.mpr ⟨reqId, accepts_u64.mpr rfl, rfl⟩) ?_
    refine Rows.store (fun serial => EmissionFields.mk kind none body v none none none reqId serial)
      (fun serial _ => accepts_store.mpr ⟨serial, accepts_u64.mpr rfl, rfl⟩) ?_
    refine Rows.store (fun taskId => EmissionFields.mk kind none body v none taskId none reqId serial)
      (fun taskId _ => accepts_store.mpr ⟨taskId, accepts_byteArray.mpr ⟨rfl, by decide⟩, rfl⟩) ?_
    refine Rows.store (fun chainId => EmissionFields.mk kind none body v none taskId chainId reqId serial)
      (fun chainId _ => accepts_store.mpr
        ⟨⟨Emission.chainIdBytes chainId, bigEndian_length _ _⟩,
          accepts_byteArray.mpr ⟨rfl, by decide⟩, by simp [Emission.ofBigEndian_chainIdBytes]⟩) ?_
    refine Rows.store (fun grantId => EmissionFields.mk kind none body v grantId taskId chainId reqId serial)
      (fun grantId _ => accepts_store.mpr ⟨grantId, accepts_byteArray.mpr ⟨rfl, by decide⟩, rfl⟩) ?_
    refine Rows.store (fun principal => EmissionFields.mk kind principal body v grantId taskId chainId reqId serial)
      (fun principal found => accepts_store.mpr
        ⟨principal, accepts_text.mpr ⟨rfl, fit.principal principal found⟩, rfl⟩) ?_
    exact .nil

end EmissionFields

namespace Emission

def fields (emission : Emission) : EmissionFields :=
  ⟨emission.kind, emission.principal, emission.body, version, emission.grantId, emission.taskId,
    emission.chainId, emission.reqId, emission.serial⟩

theorem emission_eq_ok {found : EmissionFields} {emission : Emission} :
    found.emission = .ok emission ↔ found = emission.fields ∧ principalOk emission.principal := by
  rcases found with ⟨_ | kind, _ | principal, _ | body, _ | v, grantId, taskId, chainId, reqId, serial⟩ <;>
    rcases emission with ⟨kind', principal', grantId', taskId', chainId', reqId', serial', body'⟩ <;>
    simp [EmissionFields.emission, fields]
  grind

theorem fields_fit {emission : Emission} (ok : principalOk emission.principal)
    (item : Item 1 emission.body) : emission.fields.Fit := by
  constructor
  · rintro _ ⟨⟩
    exact lt_of_le_of_lt (length_of_principalOk ok) (by decide)
  · rintro _ ⟨⟩
    exact item

theorem encode_eq (emission : Emission) :
    emission.encode = mapBytes (presentRows (EmissionFields.schema.rows emission.fields)) := by
  simp only [encode, MapBuilder.new_eq_ofRows, MapBuilder.insert_ofRows,
    MapBuilder.insertOpt_ofRows, List.nil_append, List.cons_append]
  exact Schema.finish_of_order EmissionFields.schema_ascend [1, 6, 7, 2, 8, 3, 4, 5, 0]
    (by decide) rfl

/-- The decoder accepts the encodings of the emissions with a well-formed principal
and a body of one item, and nothing else. -/
theorem decode_eq_ok {bytes : Bytes} {emission : Emission} :
    decode bytes = .ok emission ↔
      bytes = emission.encode ∧ principalOk emission.principal ∧ Item 1 emission.body := by
  have unfolded : decode bytes = .ok emission ↔ ∃ found,
      Accepts (readMap .initial EmissionFields.read) 0 found bytes ∧
        found.emission = .ok emission := by
    rw [decode]
    constructor
    · intro success
      rcases ok_of_bind_ok success with ⟨found, isRead, checked⟩
      exact ⟨found, decodeAll_eq_ok.mp isRead, checked⟩
    · rintro ⟨found, accepts, checked⟩
      rw [decodeAll_eq_ok.mpr accepts]
      exact checked
  simp only [unfolded, emission_eq_ok, EmissionFields.accepts_fields, encode_eq]
  constructor
  · rintro ⟨_, ⟨rfl, fit⟩, rfl, ok⟩
    exact ⟨rfl, ok, fit.body _ rfl⟩
  · rintro ⟨rfl, ok, item⟩
    exact ⟨_, ⟨rfl, fields_fit ok item⟩, rfl, ok⟩

theorem fields_injective : Function.Injective fields := by
  rintro ⟨kind, principal, grantId, taskId, chainId, reqId, serial, body⟩
    ⟨kind', principal', grantId', taskId', chainId', reqId', serial', body'⟩ same
  cases same
  rfl

theorem eq_of_decode_encode {emission found : Emission} (fit : emission.fields.Fit)
    (decoded : decode emission.encode = .ok found) : found = emission := by
  rcases decode_eq_ok.mp decoded with ⟨written, ok, item⟩
  have first := EmissionFields.accepts_fields.mpr ⟨found.encode_eq, fields_fit ok item⟩
  have second := EmissionFields.accepts_fields.mpr ⟨emission.encode_eq, fit⟩
  exact fields_injective (first.unique [] [] second (by rw [written])).1

end Emission

end EclipseOS.PolicyEval

/-! ## Nesting

How deep the items are nested that are skipped. Maps spend the depth that is allowed,
and arrays do not. -/

namespace EclipseOS.PolicyEval

open Foundation Cbor

/-- What is skipped of these inputs is nested no deeper than a constant, and skipping it
recurses no deeper either. -/
def NestingBounded (inputs : Set Bytes) : Prop :=
  ∃ most, ∀ depth (tree : Tree), tree.Canonical → tree.encode ∈ inputs →
    Accepts (skip : Read Cbor.Error Unit) depth () tree.encode →
    tree.nesting ≤ most ∧
      Accepts (skipWithin (most + 1) : Read Cbor.Error Unit) depth () tree.encode

/-- The arrays of these inputs' items are nested no deeper than a constant. -/
def ArraysBounded (inputs : Set Bytes) : Prop :=
  ∃ most, ∀ tree : Tree, tree.Skippable 0 → tree.encode ∈ inputs → tree.arrayNesting ≤ most

/-- Nesting is bounded if the nesting of arrays is. -/
theorem nestingBounded_iff (inputs : Set Bytes) : NestingBounded inputs ↔ ArraysBounded inputs := by
  constructor
  · intro ⟨most, bounded⟩
    refine ⟨most, ?_⟩
    intro tree skippable member
    have accepts : Accepts (skip : Read Cbor.Error Unit) 0 () tree.encode :=
      Tree.accepts_skip_iff.mpr ⟨tree, rfl, skippable⟩
    have total := (bounded 0 tree skippable.canonical member accepts).1
    exact tree.arrayNesting_le.trans total
  · intro ⟨most, bounded⟩
    refine ⟨most + maxMapDepth, ?_⟩
    intro depth tree canonical member accepts
    have skippable := Tree.skippable_of_accepts canonical accepts
    have arrays := bounded tree (skippable.mono (Nat.zero_le depth)) member
    have total : tree.nesting ≤ most + maxMapDepth :=
      skippable.nesting_le.trans (Nat.add_le_add_right arrays maxMapDepth)
    have levels : tree.levels ≤ most + maxMapDepth + 1 :=
      tree.levels_le.trans (Nat.add_le_add_right total 1)
    exact ⟨total, skippable.accepts_skipWithin levels⟩

/-! ## Arrays in arrays -/

def arrays : Nat → Tree
  | 0 => .null
  | n + 1 => .array [arrays n]

theorem arrays_weigh (own : Tree → Nat) (n : Nat) :
    (arrays (n + 1)).weigh own = own (arrays (n + 1)) + (arrays n).weigh own := by
  rw [Tree.weigh_eq]
  simp [arrays, Tree.parts, Tree.weighItems]

theorem arrays_nesting (n : Nat) : (arrays n).nesting = n := by
  induction n with
  | zero => rfl
  | succ n induction =>
    rw [Tree.nesting, arrays_weigh, ← Tree.nesting, induction]
    exact Nat.add_comm 1 n

theorem arrays_levels (n : Nat) : (arrays n).levels = n + 1 := by
  induction n with
  | zero => rfl
  | succ n induction => rw [Tree.levels, arrays_weigh, ← Tree.levels, induction, Nat.add_comm]

theorem arrays_skippable (depth n : Nat) : (arrays n).Skippable depth := by
  induction n with
  | zero => exact Tree.skippable_iff.mpr ⟨trivial, trivial, nofun, nofun⟩
  | succ n induction =>
    refine Tree.skippable_iff.mpr ⟨?_, trivial, nofun, ?_⟩
    · show 1 < 2 ^ 64
      decide
    · intro part member
      cases List.mem_singleton.mp member
      exact induction

def arraysEmission (n : Nat) : Emission :=
  ⟨.policy, "human", none, none, none, none, none, (arrays n).encode⟩

/-- No constant bounds the nesting of what is skipped, nor of what is a message's body, nor
how deep skipping recurses. -/
theorem nesting_unbounded :
    ¬NestingBounded Set.univ ∧
      (¬∃ most, ∀ bytes emission (tree : Tree), Emission.decode bytes = .ok emission →
        tree.Canonical → emission.body = tree.encode → tree.nesting ≤ most) ∧
      ¬∃ most, ∀ encoding, Accepts (skip : Read Cbor.Error Unit) 0 () encoding →
        Accepts (skipWithin most : Read Cbor.Error Unit) 0 () encoding := by
  have accepts (depth n : Nat) : Accepts (skip : Read Cbor.Error Unit) depth () (arrays n).encode :=
    Tree.accepts_skip_iff.mpr ⟨arrays n, rfl, arrays_skippable depth n⟩
  refine ⟨?_, ?_, ?_⟩
  · intro ⟨most, bounded⟩
    have within := bounded 0 (arrays (most + 1)) (arrays_skippable 0 _).canonical trivial
      (accepts 0 _)
    rw [arrays_nesting] at within
    omega
  · intro ⟨most, bounded⟩
    have human : principalOk "human" = true := by decide
    have decoded : Emission.decode (arraysEmission (most + 1)).encode =
        .ok (arraysEmission (most + 1)) :=
      Emission.decode_eq_ok.mpr ⟨rfl, human, accepts_skip.mp (accepts 1 _)⟩
    have within := bounded _ _ (arrays (most + 1)) decoded (arrays_skippable 0 _).canonical rfl
    rw [arrays_nesting] at within
    omega
  · intro ⟨most, recursion⟩
    obtain ⟨tree, same, skippable, levels⟩ :=
      Tree.exists_tree_of_skipWithin (recursion _ (accepts 0 most))
    rw [Tree.encode_inj skippable.canonical (arrays_skippable 0 most).canonical same,
      arrays_levels] at levels
    omega

end EclipseOS.PolicyEval
