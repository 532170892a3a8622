import EclipseOS.PolicyEval.Cbor.Framed
import EclipseOS.PolicyEval.Grant

/-! # The grant codec

A payload that is short enough to be framed decodes to the grant it was written
for. -/

namespace EclipseOS.PolicyEval

open Foundation Cbor

section Short

variable {depth : Nat}

theorem accepts_text_of_short {text : String} (short : (Writer.text text).length < 2 ^ 64) :
    Accepts (Cbor.text : Read Cbor.Error String) depth text (Writer.text text) :=
  accepts_text.mpr ⟨rfl, lt_of_le_of_lt (length_le_text text) short⟩

theorem length_text_pos (text : String) : 0 < (Writer.text text).length := by
  rw [Writer.text, List.length_append]
  exact Nat.add_pos_left (Writer.head_length_pos _ _) _

theorem length_mapBytes_pos (rows : List (String × Bytes)) : 0 < (mapBytes rows).length := by
  rw [mapBytes, List.length_append]
  exact Nat.add_pos_left (Writer.head_length_pos _ _) _

theorem accepts_arrayOf {α : Type} {read : Read Cbor.Error α} {encode : α → Bytes}
    {items : List α} (pos : ∀ item, 0 < (encode item).length)
    (accepts : ∀ item, (encode item).length < 2 ^ 64 → Accepts read depth item (encode item))
    (short : (arrayOf encode items).length < 2 ^ 64) :
    Accepts (arrayItems read) depth items (arrayOf encode items) := by
  have enough : items.length ≤ (items.flatMap encode).length := by
    clear short
    induction items with
    | nil => simp
    | cons item items induction =>
      have first := pos item
      simp only [List.flatMap_cons, List.length_append, List.length_cons]
      omega
  have few : items.length < 2 ^ 64 := by
    have whole := short
    rw [arrayOf, List.length_append] at whole
    omega
  refine Accepts.arrayItems (fun item member => accepts item ?_) few
  exact lt_of_le_of_lt (length_le_arrayOf member) short

theorem Cbor.Accepts.built {σ α : Type} {read : Read Cbor.Error σ} (found : σ)
    {build : σ → Except Cbor.Error α} {value : α} {encoding : Bytes}
    (accepts : Accepts read depth found encoding) (builds : build found = .ok value) :
    Accepts (read >>= fun found => orThrow (build found)) depth value encoding := by
  have whole : Accepts (read >>= fun found => orThrow (build found)) depth value
      (encoding ++ []) := accepts.bind (accepts_orThrow.mpr ⟨builds, rfl⟩)
  rwa [List.append_nil] at whole

end Short

section Codec

variable {depth : Nat}

/-! ## Capabilities -/

instance CapabilityFields.local_read (key : String) (fields : CapabilityFields) :
    Local (read key fields) := by
  unfold read
  split <;> infer_instance

instance : Local readCapability := by
  unfold readCapability
  infer_instance

def Capability.schema : Schema Capability :=
  [("name", fun capability => some (Writer.text capability.name)),
    ("quota", fun capability => capability.quota.map Writer.text),
    ("scopes", fun capability => some (arrayOf Writer.text capability.scopes))]

theorem Capability.schema_ascend : NamesAscend (Capability.schema.map Prod.fst) := by
  show NamesAscend ["name", "quota", "scopes"]
  decide

theorem encodeCapability_eq (capability : Capability) :
    encodeCapability capability = mapBytes (presentRows (Capability.schema.rows capability)) := by
  simp only [encodeCapability, MapBuilder.new_eq_ofRows, MapBuilder.insert_ofRows,
    MapBuilder.insertOpt_ofRows, List.nil_append, List.cons_append]
  exact Schema.finish Capability.schema_ascend (List.Perm.refl _)

theorem accepts_readCapability (room : depth < maxMapDepth) {capability : Capability}
    (short : (encodeCapability capability).length < 2 ^ 64) :
    Accepts readCapability depth capability (encodeCapability capability) := by
  rw [encodeCapability_eq] at short ⊢
  have small : ∀ name value, (name, some value) ∈ Capability.schema.rows capability →
      value.length < 2 ^ 64 :=
    fun name value member => lt_of_le_of_lt (length_le_record member) short
  rcases capability with ⟨name, scopes, quota⟩
  refine Accepts.built ⟨some name, quota, scopes⟩
    (.record Capability.schema_ascend (by decide) room ?_) rfl
  have named := small "name" (Writer.text name) (by simp [Capability.schema, Schema.rows])
  have listed := small "scopes" (arrayOf Writer.text scopes)
    (by simp [Capability.schema, Schema.rows])
  refine .cons (accepts_store.mpr ⟨name, accepts_text_of_short named, rfl⟩) ?_
  refine Rows.store (fun quota => CapabilityFields.mk (some name) quota []) ?_ ?_
  · intro found same
    have quoted := small "quota" (Writer.text found) (by simp_all [Capability.schema, Schema.rows])
    exact accepts_store.mpr ⟨found, accepts_text_of_short quoted, rfl⟩
  refine .cons (accepts_store.mpr ⟨scopes, ?_, rfl⟩) .nil
  exact accepts_arrayOf length_text_pos (fun _ => accepts_text_of_short) listed

/-! ## Constraints -/

instance RateFields.local_read (key : String) (fields : RateFields) :
    Local (read key fields) := by
  unfold read
  split <;> infer_instance

instance : Local readRate := by
  unfold readRate
  infer_instance

def Grant.Rate.schema : Schema Grant.Rate :=
  [("count", fun rate => some (Writer.u64 rate.count.toUInt64)),
    ("event", fun rate => some (Writer.text rate.event)),
    ("per_ms", fun rate => some (Writer.u64 rate.perMs))]

theorem Grant.Rate.schema_ascend : NamesAscend (Grant.Rate.schema.map Prod.fst) := by
  show NamesAscend ["count", "event", "per_ms"]
  decide

theorem encodeRate_eq (rate : Grant.Rate) :
    encodeRate rate = mapBytes (presentRows (Grant.Rate.schema.rows rate)) := by
  simp only [encodeRate, MapBuilder.new_eq_ofRows, MapBuilder.insert_ofRows,
    List.nil_append, List.cons_append]
  exact Schema.finish Grant.Rate.schema_ascend (List.Perm.refl _)

theorem accepts_readRate (room : depth < maxMapDepth) {rate : Grant.Rate}
    (short : (encodeRate rate).length < 2 ^ 64) :
    Accepts readRate depth rate (encodeRate rate) := by
  rw [encodeRate_eq] at short ⊢
  have inRows : ("event", some (Writer.text rate.event)) ∈ Grant.Rate.schema.rows rate := by
    simp [Grant.Rate.schema, Schema.rows]
  have event := lt_of_le_of_lt (length_le_record inRows) short
  refine Accepts.built ⟨some rate.count, some rate.event, some rate.perMs⟩
    (.record Grant.Rate.schema_ascend (by decide) room ?_) rfl
  refine .cons (accepts_store.mpr ⟨rate.count, accepts_u32.mpr rfl, rfl⟩) ?_
  refine .cons (accepts_store.mpr ⟨rate.event, accepts_text_of_short event, rfl⟩) ?_
  exact .cons (accepts_store.mpr ⟨rate.perMs, accepts_u64.mpr rfl, rfl⟩) .nil

instance Constraints.local_read (key : String) (constraints : Constraints) :
    Local (read key constraints) := by
  unfold read
  split <;> infer_instance

instance : Local readConstraints := by
  unfold readConstraints
  infer_instance

def Constraints.schema : Schema Constraints :=
  [("rates", fun constraints => some (arrayOf encodeRate constraints.rates)),
    ("prompt_budget", fun constraints =>
      constraints.promptBudget.map fun budget => Writer.u64 budget.toUInt64)]

theorem Constraints.schema_ascend : NamesAscend (Constraints.schema.map Prod.fst) := by
  show NamesAscend ["rates", "prompt_budget"]
  decide

theorem encodeConstraints_eq (constraints : Constraints) :
    encodeConstraints constraints =
      mapBytes (presentRows (Constraints.schema.rows constraints)) := by
  simp only [encodeConstraints, MapBuilder.new_eq_ofRows, MapBuilder.insert_ofRows,
    MapBuilder.insertOpt_ofRows, List.nil_append, List.cons_append]
  exact Schema.finish_of_order Constraints.schema_ascend [1, 0] (by decide) rfl

theorem accepts_readConstraints (room : depth + 1 < maxMapDepth) {constraints : Constraints}
    (short : (encodeConstraints constraints).length < 2 ^ 64) :
    Accepts readConstraints depth constraints (encodeConstraints constraints) := by
  rw [encodeConstraints_eq] at short ⊢
  have inRows : ("rates", some (arrayOf encodeRate constraints.rates)) ∈
      Constraints.schema.rows constraints := by simp [Constraints.schema, Schema.rows]
  have listed := lt_of_le_of_lt (length_le_record inRows) short
  have rates : Accepts (arrayItems readRate) (depth + 1) constraints.rates
      (arrayOf encodeRate constraints.rates) :=
    accepts_arrayOf (fun rate => encodeRate_eq rate ▸ length_mapBytes_pos _)
      (fun _ => accepts_readRate room) listed
  refine .record Constraints.schema_ascend (by decide) (Nat.lt_of_succ_lt room) ?_
  refine .cons (accepts_store.mpr ⟨constraints.rates, rates, rfl⟩) ?_
  refine Rows.store (fun budget => Constraints.mk constraints.rates budget) ?_
    (show Rows _ _ _ (presentRows []) _ from .nil)
  intro budget _
  exact accepts_store.mpr ⟨budget, accepts_u32.mpr rfl, rfl⟩

/-! ## The payload -/

instance GrantFields.local_read (key : String) (fields : GrantFields) :
    Local (read key fields) := by
  unfold read
  split <;> infer_instance

instance : Local Grant.read := by
  unfold Grant.read
  infer_instance

def Grant.schema : Schema Grant :=
  [("id", fun grant => some (Writer.bytes grant.id.val)),
    ("issued", fun grant => some (Writer.u64 grant.issuedMs)),
    ("issuer", fun grant => some (Writer.text grant.issuer)),
    ("expires", fun grant => some (Writer.u64 grant.expiresMs)),
    ("task_id", fun grant => some (Writer.bytes grant.taskId.val)),
    ("principal", fun grant => some (Writer.text grant.principal)),
    ("unattended", fun grant => some (Writer.bool grant.unattended)),
    ("constraints", fun grant => some (encodeConstraints grant.constraints)),
    ("capabilities", fun grant => some (arrayOf encodeCapability grant.capabilities))]

theorem Grant.schema_ascend : NamesAscend (Grant.schema.map Prod.fst) := by
  show NamesAscend ["id", "issued", "issuer", "expires", "task_id", "principal",
    "unattended", "constraints", "capabilities"]
  decide

theorem Grant.encode_eq (grant : Grant) :
    grant.encode = mapBytes (presentRows (Grant.schema.rows grant)) := by
  simp only [Grant.encode, MapBuilder.new_eq_ofRows, MapBuilder.insert_ofRows,
    List.nil_append, List.cons_append]
  exact Schema.finish_of_order Grant.schema_ascend [8, 7, 3, 0, 1, 2, 5, 4, 6]
    (by decide) rfl

theorem Grant.decode_encode {grant : Grant} (short : grant.encode.length < 2 ^ 64) :
    Grant.decode grant.encode = .ok grant := by
  rw [Grant.decode, decodeAll_eq_ok]
  rw [Grant.encode_eq] at short ⊢
  have small : ∀ name value, (name, some value) ∈ Grant.schema.rows grant →
      value.length < 2 ^ 64 :=
    fun name value member => lt_of_le_of_lt (length_le_record member) short
  rcases grant with ⟨id, principal, issued, expires, issuer, taskId, capabilities, constraints,
    unattended⟩
  have issuerShort := small "issuer" (Writer.text issuer) (by simp [schema, Schema.rows])
  have principalShort := small "principal" (Writer.text principal)
    (by simp [schema, Schema.rows])
  have constraintsShort := small "constraints" (encodeConstraints constraints)
    (by simp [schema, Schema.rows])
  have capabilitiesShort := small "capabilities" (arrayOf encodeCapability capabilities)
    (by simp [schema, Schema.rows])
  have listed : Accepts (arrayItems readCapability) 1 capabilities
      (arrayOf encodeCapability capabilities) :=
    accepts_arrayOf (fun capability => encodeCapability_eq capability ▸ length_mapBytes_pos _)
      (fun _ => accepts_readCapability (by decide)) capabilitiesShort
  refine Accepts.built ⟨some id, some taskId, some principal, some issuer, some issued,
    some expires, some unattended, capabilities, constraints⟩
    (.record schema_ascend (by decide) (by decide) ?_) rfl
  refine .cons (accepts_store.mpr ⟨id, accepts_byteArray.mpr ⟨rfl, by decide⟩, rfl⟩) ?_
  refine .cons (accepts_store.mpr ⟨issued, accepts_u64.mpr rfl, rfl⟩) ?_
  refine .cons (accepts_store.mpr ⟨issuer, accepts_text_of_short issuerShort, rfl⟩) ?_
  refine .cons (accepts_store.mpr ⟨expires, accepts_u64.mpr rfl, rfl⟩) ?_
  refine .cons (accepts_store.mpr ⟨taskId, accepts_byteArray.mpr ⟨rfl, by decide⟩, rfl⟩) ?_
  refine .cons (accepts_store.mpr ⟨principal, accepts_text_of_short principalShort, rfl⟩) ?_
  refine .cons (accepts_store.mpr ⟨unattended, accepts_bool.mpr rfl, rfl⟩) ?_
  refine .cons (accepts_store.mpr ⟨constraints,
    accepts_readConstraints (by decide) constraintsShort, rfl⟩) ?_
  exact .cons (accepts_store.mpr ⟨capabilities, listed, rfl⟩) .nil

end Codec

end EclipseOS.PolicyEval
