import EclipseOS.PolicyEval.Cbor.Delimited
import EclipseOS.PolicyEval.Cbor.Entries
import EclipseOS.PolicyEval.GrantCodec

/-! # The bytes of a grant

The reader starts its lists out empty, so a payload that leaves one out decodes
to the same grant as one that spells it. Apart from that a grant has one
encoding. -/

namespace EclipseOS.PolicyEval

open Foundation Cbor

variable {depth : Nat} {encoding : Bytes}

/-! ## Capabilities -/

structure CapabilitySpelling where
  name : Option String
  quota : Option String
  scopes : Option (List String)

namespace CapabilitySpelling

def fields (spelling : CapabilitySpelling) : CapabilityFields :=
  ⟨spelling.name, spelling.quota, spelling.scopes.getD []⟩

def schema : Schema CapabilitySpelling :=
  [("name", fun spelling => spelling.name.map Writer.text),
    ("quota", fun spelling => spelling.quota.map Writer.text),
    ("scopes", fun spelling => spelling.scopes.map (arrayOf Writer.text))]

def bytes (spelling : CapabilitySpelling) : Bytes := mapBytes (presentRows (schema.rows spelling))

theorem schema_ascend : NamesAscend (schema.map Prod.fst) := by
  show NamesAscend ["name", "quota", "scopes"]
  decide

structure Fit (spelling : CapabilitySpelling) : Prop where
  name : ∀ name ∈ spelling.name, (utf8 name).length < 2 ^ 64
  quota : ∀ quota ∈ spelling.quota, (utf8 quota).length < 2 ^ 64
  scopes : ∀ scopes ∈ spelling.scopes,
    scopes.length < 2 ^ 64 ∧ ∀ scope ∈ scopes, (utf8 scope).length < 2 ^ 64

theorem accepts_scopes {scopes : List String} :
    Accepts (arrayItems text : Read Cbor.Error (List String)) depth scopes encoding ↔
      encoding = arrayOf Writer.text scopes ∧ scopes.length < 2 ^ 64 ∧
        ∀ scope ∈ scopes, (utf8 scope).length < 2 ^ 64 :=
  accepts_arrayItems fun _ _ => accepts_text

theorem accepts_fields {found : CapabilityFields} :
    Accepts (readMap ⟨none, none, []⟩ CapabilityFields.read) depth found encoding ↔
      depth < maxMapDepth ∧ ∃ spelling : CapabilitySpelling, spelling.fields = found ∧
        spelling.Fit ∧ encoding = spelling.bytes := by
  refine accepts_record_view fields Fit ⟨none, none, none⟩ schema_ascend (by decide) ?_ (by simp [schema]) ⟨by simp, by simp, by simp⟩ ?_
  · intro key before after value fit unset accepts
    unfold CapabilityFields.read at accepts
    split at accepts
    · rcases accepts_store.mp accepts with ⟨name, read, rfl⟩
      rcases accepts_text.mp read with ⟨rfl, fits⟩
      exact ⟨{ before with name := some name }, rfl, { fit with name := by simpa },
        by simp [schema, Schema.Stores]⟩
    · rcases accepts_store.mp accepts with ⟨quota, read, rfl⟩
      rcases accepts_text.mp read with ⟨rfl, fits⟩
      exact ⟨{ before with quota := some quota }, rfl, { fit with quota := by simpa },
        by simp [schema, Schema.Stores]⟩
    · rcases accepts_store.mp accepts with ⟨scopes, read, rfl⟩
      rcases accepts_scopes.mp read with ⟨rfl, fits⟩
      have first : before.scopes = none := by simpa [schema] using unset
      exact ⟨{ before with scopes := some scopes }, by simp [fields, first],
        { fit with scopes := by simpa }, by simp [schema, Schema.Stores]⟩
    · exact absurd accepts not_accepts_throw
  · rintro ⟨name, quota, scopes⟩ fit
    refine Rows.store (fun name => CapabilityFields.mk name none []) (fun name found =>
      accepts_store.mpr ⟨name, accepts_text.mpr ⟨rfl, fit.name name found⟩, rfl⟩) ?_
    refine Rows.store (fun quota => CapabilityFields.mk name quota []) (fun quota found =>
      accepts_store.mpr ⟨quota, accepts_text.mpr ⟨rfl, fit.quota quota found⟩, rfl⟩) ?_
    refine Rows.store (fun scopes => CapabilityFields.mk name quota (scopes.getD []))
      (fun scopes found => accepts_store.mpr ⟨scopes, accepts_scopes.mpr
        ⟨rfl, fit.scopes scopes found⟩, by simp⟩) ?_
    exact .nil

theorem rows_framed {spelling : CapabilitySpelling} (short : spelling.bytes.length < 2 ^ 64) :
    ∀ row ∈ presentRows (schema.rows spelling), Framed row.2 := by
  refine Framed.presentRows ?_ short
  simp only [schema, List.forall_mem_cons, Option.mem_def, Option.map_eq_some_iff]
  refine ⟨?_, ?_, ?_, by simp⟩ <;> rintro _ ⟨found, -, rfl⟩ short
  · exact .ofText short
  · exact .ofText short
  · exact .ofArray (fun scope member =>
      .ofText (lt_of_le_of_lt (length_le_arrayOf member) short)) short

theorem hasScopes_iff {spelling : CapabilitySpelling} (short : spelling.bytes.length < 2 ^ 64) :
    HasKey spelling.bytes "scopes" ↔ spelling.scopes.isSome := by
  have member : ("scopes", fun spelling : CapabilitySpelling =>
      spelling.scopes.map (arrayOf Writer.text)) ∈ schema := by simp [schema]
  refine (hasKey_record schema_ascend (rows_framed short) short member).trans ?_
  rw [Option.isSome_map]

end CapabilitySpelling

/-- How `encode` spells a capability. -/
def Capability.spelling (capability : Capability) : CapabilitySpelling :=
  ⟨capability.name, capability.quota, capability.scopes⟩

theorem Capability.bytes_spelling (capability : Capability) :
    capability.spelling.bytes = encodeCapability capability := by
  rw [encodeCapability_eq]
  rfl

theorem capability_eq_ok {found : CapabilityFields} {capability : Capability} :
    found.capability = .ok capability ↔
      found = ⟨capability.name, capability.quota, capability.scopes⟩ := by
  rcases found with ⟨_ | name, quota, scopes⟩ <;> rcases capability with ⟨name', scopes', quota'⟩
  · simp [CapabilityFields.capability]
  · simp only [CapabilityFields.capability, Except.ok.injEq, Capability.mk.injEq,
      CapabilityFields.mk.injEq, Option.some.injEq]
    grind

theorem accepts_readCapability_iff {capability : Capability} :
    Accepts readCapability depth capability encoding ↔
      depth < maxMapDepth ∧ ∃ spelling : CapabilitySpelling, spelling.fields =
        ⟨capability.name, capability.quota, capability.scopes⟩ ∧ spelling.Fit ∧
        encoding = spelling.bytes := by
  rw [readCapability, accepts_built fun _ _ => capability_eq_ok, CapabilitySpelling.accepts_fields]

theorem framed_of_accepts_readCapability {capability : Capability}
    (accepts : Accepts readCapability depth capability encoding)
    (short : encoding.length < 2 ^ 64) : Framed encoding := by
  rcases accepts_readCapability_iff.mp accepts with ⟨-, spelling, -, -, rfl⟩
  exact .ofMap (CapabilitySpelling.rows_framed short) short

theorem encodeCapability_eq_iff {capability : Capability}
    (accepts : Accepts readCapability depth capability encoding)
    (short : encoding.length < 2 ^ 64) :
    encoding = encodeCapability capability ↔ HasKey encoding "scopes" := by
  rcases accepts_readCapability_iff.mp accepts with ⟨-, ⟨name, quota, scopes⟩, same, -, rfl⟩
  constructor
  · intro written
    rw [← Capability.bytes_spelling] at written
    rw [written] at short ⊢
    exact (CapabilitySpelling.hasScopes_iff short).mpr rfl
  · intro hasKey
    have present := (CapabilitySpelling.hasScopes_iff short).mp hasKey
    cases scopes with
    | none => cases present
    | some scopes =>
      cases same
      exact capability.bytes_spelling

theorem encodeCapability_framed {capability : Capability}
    (short : (encodeCapability capability).length < 2 ^ 64) : Framed (encodeCapability capability) := by
  rw [← Capability.bytes_spelling] at short ⊢
  exact .ofMap (CapabilitySpelling.rows_framed short) short

/-- The bytes are an array whose parts all have their scopes. -/
def ScopesSpelled (encoding : Bytes) : Prop :=
  ∃ parts, encoding = arrayOf id parts ∧ (∀ part ∈ parts, Framed part) ∧
    ∀ part ∈ parts, HasKey part "scopes"

section Capabilities

variable {capabilities : List Capability} {parts : List Bytes}

theorem length_le_of_part {part : Bytes} (member : part ∈ parts) :
    part.length ≤ (arrayOf id parts).length :=
  show (id part).length ≤ (arrayOf id parts).length from length_le_arrayOf member

theorem parts_framed (items : List.Forall₂ (Accepts readCapability depth) capabilities parts)
    (short : (arrayOf id parts).length < 2 ^ 64) : ∀ part ∈ parts, Framed part := by
  have shortParts : ∀ part ∈ parts, part.length < 2 ^ 64 := fun part member =>
    lt_of_le_of_lt (length_le_of_part member) short
  clear short
  induction items with
  | nil => simp
  | cons accepts _ induction =>
    rw [List.forall_mem_cons] at shortParts ⊢
    exact ⟨framed_of_accepts_readCapability accepts shortParts.1, induction shortParts.2⟩

theorem parts_eq_iff (items : List.Forall₂ (Accepts readCapability depth) capabilities parts)
    (short : ∀ part ∈ parts, part.length < 2 ^ 64) :
    parts = capabilities.map encodeCapability ↔ ∀ part ∈ parts, HasKey part "scopes" := by
  induction items with
  | nil => simp
  | cons accepts _ induction =>
    rw [List.forall_mem_cons] at short
    rw [List.map_cons, List.cons.injEq, List.forall_mem_cons,
      encodeCapability_eq_iff accepts short.1, induction short.2]

theorem framed_of_accepts_capabilities
    (accepts : Accepts (arrayItems readCapability) depth capabilities encoding)
    (short : encoding.length < 2 ^ 64) : Framed encoding := by
  rcases accepts_arrayItems_parts.mp accepts with ⟨parts, rfl, -, items⟩
  exact .ofArray (parts_framed items short) short

theorem arrayOf_map {α : Type} (encode : α → Bytes) (items : List α) :
    arrayOf id (items.map encode) = arrayOf encode items := by
  simp [arrayOf, List.flatMap]

theorem encodeCapabilities_eq_iff
    (accepts : Accepts (arrayItems readCapability) depth capabilities encoding)
    (short : encoding.length < 2 ^ 64) :
    encoding = arrayOf encodeCapability capabilities ↔ ScopesSpelled encoding := by
  rcases accepts_arrayItems_parts.mp accepts with ⟨parts, rfl, -, items⟩
  have framed := parts_framed items short
  have shortParts : ∀ part ∈ parts, part.length < 2 ^ 64 := fun part member =>
    lt_of_le_of_lt (length_le_of_part member) short
  rw [← arrayOf_map encodeCapability]
  constructor
  · intro written
    have writtenFramed : ∀ part ∈ capabilities.map encodeCapability, Framed part := by
      intro part member
      rcases List.mem_map.mp member with ⟨capability, -, rfl⟩
      have within := length_le_of_part member
      exact encodeCapability_framed (lt_of_le_of_lt (written ▸ within) short)
    have sameParts := arrayOf_inj framed writtenFramed short written
    exact ⟨parts, rfl, framed, (parts_eq_iff items shortParts).mp sameParts⟩
  · rintro ⟨others, same, othersFramed, spelled⟩
    rw [← arrayOf_inj framed othersFramed short same] at spelled
    rw [(parts_eq_iff items shortParts).mpr spelled]

end Capabilities

/-! ## Constraints -/

namespace RateFields

def schema : Schema RateFields :=
  [("count", fun fields => fields.count.map fun count => Writer.u64 count.toUInt64),
    ("event", fun fields => fields.event.map Writer.text),
    ("per_ms", fun fields => fields.perMs.map Writer.u64)]

theorem schema_ascend : NamesAscend (schema.map Prod.fst) := by
  show NamesAscend ["count", "event", "per_ms"]
  decide

theorem accepts_fields {fields : RateFields} :
    Accepts (readMap ⟨none, none, none⟩ read) depth fields encoding ↔
      encoding = mapBytes (presentRows (schema.rows fields)) ∧ depth < maxMapDepth ∧
        ∀ event ∈ fields.event, (utf8 event).length < 2 ^ 64 := by
  apply accepts_record schema_ascend (by decide)
  · intro name before after value accepts
    unfold read at accepts
    split at accepts
    · rcases accepts_store.mp accepts with ⟨count, read, rfl⟩
      rcases accepts_u32.mp read with rfl
      exact ⟨by simp [schema, Schema.Stores], id⟩
    · rcases accepts_store.mp accepts with ⟨event, read, rfl⟩
      rcases accepts_text.mp read with ⟨rfl, fits⟩
      exact ⟨by simp [schema, Schema.Stores], fun _ => by simpa⟩
    · rcases accepts_store.mp accepts with ⟨perMs, read, rfl⟩
      rcases accepts_u64.mp read with rfl
      exact ⟨by simp [schema, Schema.Stores], id⟩
    · exact absurd accepts not_accepts_throw
  · simp [schema]
  · simp
  · rintro ⟨count, event, perMs⟩ fit
    refine Rows.store (fun count => RateFields.mk count none none) (fun count _ =>
      accepts_store.mpr ⟨count, accepts_u32.mpr rfl, rfl⟩) ?_
    refine Rows.store (fun event => RateFields.mk count event none) (fun event found =>
      accepts_store.mpr ⟨event, accepts_text.mpr ⟨rfl, fit event found⟩, rfl⟩) ?_
    refine Rows.store (fun perMs => RateFields.mk count event perMs) (fun perMs _ =>
      accepts_store.mpr ⟨perMs, accepts_u64.mpr rfl, rfl⟩) ?_
    exact .nil

end RateFields

theorem RateFields.rate_eq_ok {found : RateFields} {rate : Grant.Rate} :
    found.rate = .ok rate ↔ found = ⟨rate.count, rate.event, rate.perMs⟩ := by
  rcases found with ⟨_ | count, _ | event, _ | perMs⟩ <;> rcases rate with ⟨event', count', perMs'⟩ <;>
    simp [RateFields.rate]
  grind

theorem accepts_readRate_iff {rate : Grant.Rate} :
    Accepts readRate depth rate encoding ↔
      encoding = encodeRate rate ∧ depth < maxMapDepth ∧ (utf8 rate.event).length < 2 ^ 64 := by
  rw [readRate, accepts_built fun _ _ => RateFields.rate_eq_ok, RateFields.accepts_fields, encodeRate_eq]
  simp only [Option.mem_some_iff, forall_eq']
  rfl

theorem encodeRate_framed {rate : Grant.Rate} (short : (encodeRate rate).length < 2 ^ 64) :
    Framed (encodeRate rate) := by
  rw [encodeRate_eq] at short ⊢
  refine .ofMap (Framed.presentRows ?_ short) short
  simp only [Grant.Rate.schema, List.forall_mem_cons, Option.mem_some_iff]
  refine ⟨?_, ?_, ?_, by simp⟩ <;> rintro _ rfl short
  · exact .ofU64 _
  · exact .ofText short
  · exact .ofU64 _

/-- What the bytes of a constraints block spell. -/
structure ConstraintsSpelling where
  rates : Option (List Grant.Rate)
  promptBudget : Option UInt32

namespace ConstraintsSpelling

def constraints (spelling : ConstraintsSpelling) : Constraints :=
  ⟨spelling.rates.getD [], spelling.promptBudget⟩

def schema : Schema ConstraintsSpelling :=
  [("rates", fun spelling => spelling.rates.map (arrayOf encodeRate)),
    ("prompt_budget", fun spelling =>
      spelling.promptBudget.map fun budget => Writer.u64 budget.toUInt64)]

def bytes (spelling : ConstraintsSpelling) : Bytes := mapBytes (presentRows (schema.rows spelling))

theorem schema_ascend : NamesAscend (schema.map Prod.fst) := by
  show NamesAscend ["rates", "prompt_budget"]
  decide

/-- The rates the reader takes inside `depth` maps. -/
def Fit (depth : Nat) (spelling : ConstraintsSpelling) : Prop :=
  ∀ rates ∈ spelling.rates, rates.length < 2 ^ 64 ∧
    ∀ rate ∈ rates, depth < maxMapDepth ∧ (utf8 rate.event).length < 2 ^ 64

theorem accepts_rates {rates : List Grant.Rate} :
    Accepts (arrayItems readRate) depth rates encoding ↔
      encoding = arrayOf encodeRate rates ∧ rates.length < 2 ^ 64 ∧
        ∀ rate ∈ rates, depth < maxMapDepth ∧ (utf8 rate.event).length < 2 ^ 64 :=
  accepts_arrayItems fun _ _ => accepts_readRate_iff

theorem accepts_constraints {found : Constraints} :
    Accepts readConstraints depth found encoding ↔
      depth < maxMapDepth ∧ ∃ spelling : ConstraintsSpelling, spelling.constraints = found ∧
        spelling.Fit (depth + 1) ∧ encoding = spelling.bytes := by
  refine accepts_record_view constraints (Fit (depth + 1)) ⟨none, none⟩ schema_ascend (by decide) ?_ (by simp [schema]) (by simp [Fit]) ?_
  · intro key before after value fit unset accepts
    unfold Constraints.read at accepts
    split at accepts
    · rcases accepts_store.mp accepts with ⟨budget, read, rfl⟩
      rcases accepts_u32.mp read with rfl
      exact ⟨{ before with promptBudget := some budget }, rfl, fit,
        by simp [schema, Schema.Stores]⟩
    · rcases accepts_store.mp accepts with ⟨rates, read, rfl⟩
      rcases accepts_rates.mp read with ⟨rfl, fits⟩
      have first : before.rates = none := by simpa [schema] using unset
      exact ⟨{ before with rates := some rates }, by simp [constraints, first],
        by simpa [Fit] using fits, by simp [schema, Schema.Stores]⟩
    · exact absurd accepts not_accepts_throw
  · rintro ⟨rates, budget⟩ fit
    refine Rows.store (fun rates => Constraints.mk (rates.getD []) none) (fun rates found =>
      accepts_store.mpr ⟨rates, accepts_rates.mpr ⟨rfl, fit rates found⟩, by simp⟩) ?_
    refine Rows.store (fun budget => Constraints.mk (rates.getD []) budget) (fun budget _ =>
      accepts_store.mpr ⟨budget, accepts_u32.mpr rfl, rfl⟩) ?_
    exact .nil

theorem rows_framed {spelling : ConstraintsSpelling} (short : spelling.bytes.length < 2 ^ 64) :
    ∀ row ∈ presentRows (schema.rows spelling), Framed row.2 := by
  refine Framed.presentRows ?_ short
  simp only [schema, List.forall_mem_cons, Option.mem_def, Option.map_eq_some_iff]
  refine ⟨?_, ?_, by simp⟩ <;> rintro _ ⟨found, -, rfl⟩ short
  · exact .ofArray (fun rate member =>
      encodeRate_framed (lt_of_le_of_lt (length_le_arrayOf member) short)) short
  · exact .ofU64 _

theorem hasRates_iff {spelling : ConstraintsSpelling} (short : spelling.bytes.length < 2 ^ 64) :
    HasKey spelling.bytes "rates" ↔ spelling.rates.isSome := by
  have member : ("rates", fun spelling : ConstraintsSpelling =>
      spelling.rates.map (arrayOf encodeRate)) ∈ schema := by simp [schema]
  refine (hasKey_record schema_ascend (rows_framed short) short member).trans ?_
  rw [Option.isSome_map]

end ConstraintsSpelling

/-- How `encode` spells constraints. -/
def Constraints.spelling (constraints : Constraints) : ConstraintsSpelling :=
  ⟨constraints.rates, constraints.promptBudget⟩

theorem Constraints.bytes_spelling (constraints : Constraints) :
    constraints.spelling.bytes = encodeConstraints constraints := by
  rw [encodeConstraints_eq]
  rfl

theorem framed_of_accepts_readConstraints {constraints : Constraints}
    (accepts : Accepts readConstraints depth constraints encoding)
    (short : encoding.length < 2 ^ 64) : Framed encoding := by
  rcases ConstraintsSpelling.accepts_constraints.mp accepts with ⟨-, spelling, -, -, rfl⟩
  exact .ofMap (ConstraintsSpelling.rows_framed short) short

/-- The bytes of constraints are the ones they are written with if they have the rates. -/
theorem encodeConstraints_eq_iff {constraints : Constraints}
    (accepts : Accepts readConstraints depth constraints encoding)
    (short : encoding.length < 2 ^ 64) :
    encoding = encodeConstraints constraints ↔ HasKey encoding "rates" := by
  rcases ConstraintsSpelling.accepts_constraints.mp accepts with ⟨-, ⟨rates, budget⟩, same, -, rfl⟩
  constructor
  · intro written
    rw [← Constraints.bytes_spelling] at written
    rw [written] at short ⊢
    exact (ConstraintsSpelling.hasRates_iff short).mpr rfl
  · intro hasKey
    have present := (ConstraintsSpelling.hasRates_iff short).mp hasKey
    cases rates with
    | none => cases present
    | some rates =>
      cases same
      exact Constraints.bytes_spelling ⟨rates, budget⟩

/-! ## The payload -/

/-- What the bytes of a grant spell. The two fields with defaults come with the bytes
they were read from. -/
structure GrantSpelling where
  id : Option Ulid
  taskId : Option Ulid
  principal : Option String
  issuer : Option String
  issued : Option UInt64
  expires : Option UInt64
  unattended : Option Bool
  capabilities : Option (List Capability × Bytes)
  constraints : Option (Constraints × Bytes)

namespace GrantSpelling

def fields (spelling : GrantSpelling) : GrantFields :=
  ⟨spelling.id, spelling.taskId, spelling.principal, spelling.issuer, spelling.issued,
    spelling.expires, spelling.unattended, (spelling.capabilities.map Prod.fst).getD [],
    (spelling.constraints.map Prod.fst).getD .default⟩

def schema : Schema GrantSpelling :=
  [("id", fun spelling => spelling.id.map fun id => Writer.bytes id.val),
    ("issued", fun spelling => spelling.issued.map Writer.u64),
    ("issuer", fun spelling => spelling.issuer.map Writer.text),
    ("expires", fun spelling => spelling.expires.map Writer.u64),
    ("task_id", fun spelling => spelling.taskId.map fun id => Writer.bytes id.val),
    ("principal", fun spelling => spelling.principal.map Writer.text),
    ("unattended", fun spelling => spelling.unattended.map Writer.bool),
    ("constraints", fun spelling => spelling.constraints.map Prod.snd),
    ("capabilities", fun spelling => spelling.capabilities.map Prod.snd)]

def bytes (spelling : GrantSpelling) : Bytes := mapBytes (presentRows (schema.rows spelling))

theorem schema_ascend : NamesAscend (schema.map Prod.fst) := by
  show NamesAscend ["id", "issued", "issuer", "expires", "task_id", "principal",
    "unattended", "constraints", "capabilities"]
  decide

structure Fit (spelling : GrantSpelling) : Prop where
  principal : ∀ principal ∈ spelling.principal, (utf8 principal).length < 2 ^ 64
  issuer : ∀ issuer ∈ spelling.issuer, (utf8 issuer).length < 2 ^ 64
  constraints : ∀ found ∈ spelling.constraints, Accepts readConstraints 1 found.1 found.2
  capabilities : ∀ found ∈ spelling.capabilities,
    Accepts (arrayItems readCapability) 1 found.1 found.2

theorem accepts_fields {found : GrantFields} :
    Accepts (readMap .initial GrantFields.read) 0 found encoding ↔
      ∃ spelling : GrantSpelling, spelling.fields = found ∧ spelling.Fit ∧
        encoding = spelling.bytes := by
  refine Iff.trans (accepts_record_view fields Fit
    ⟨none, none, none, none, none, none, none, none, none⟩ schema_ascend (by decide) ?_
    (by simp [schema]) ⟨by simp, by simp, by simp, by simp⟩ ?_) (and_iff_right (by decide))
  · intro key before after value fit unset accepts
    unfold GrantFields.read at accepts
    split at accepts
    · rcases accepts_store.mp accepts with ⟨capabilities, read, rfl⟩
      have first : before.capabilities = none := by simpa [schema] using unset
      exact ⟨{ before with capabilities := some (capabilities, value) }, by simp [fields, first],
        { fit with capabilities := by simpa }, by simp [schema, Schema.Stores]⟩
    · rcases accepts_store.mp accepts with ⟨constraints, read, rfl⟩
      exact ⟨{ before with constraints := some (constraints, value) }, rfl,
        { fit with constraints := by simpa }, by simp [schema, Schema.Stores]⟩
    · rcases accepts_store.mp accepts with ⟨expires, read, rfl⟩
      rcases accepts_u64.mp read with rfl
      exact ⟨{ before with expires := some expires }, rfl, { fit with },
        by simp [schema, Schema.Stores]⟩
    · rcases accepts_store.mp accepts with ⟨id, read, rfl⟩
      rcases accepts_byteArray.mp read with ⟨rfl, -⟩
      exact ⟨{ before with id := some id }, rfl, { fit with }, by simp [schema, Schema.Stores]⟩
    · rcases accepts_store.mp accepts with ⟨issued, read, rfl⟩
      rcases accepts_u64.mp read with rfl
      exact ⟨{ before with issued := some issued }, rfl, { fit with },
        by simp [schema, Schema.Stores]⟩
    · rcases accepts_store.mp accepts with ⟨issuer, read, rfl⟩
      rcases accepts_text.mp read with ⟨rfl, fits⟩
      exact ⟨{ before with issuer := some issuer }, rfl, { fit with issuer := by simpa },
        by simp [schema, Schema.Stores]⟩
    · rcases accepts_store.mp accepts with ⟨principal, read, rfl⟩
      rcases accepts_text.mp read with ⟨rfl, fits⟩
      exact ⟨{ before with principal := some principal }, rfl, { fit with principal := by simpa },
        by simp [schema, Schema.Stores]⟩
    · rcases accepts_store.mp accepts with ⟨taskId, read, rfl⟩
      rcases accepts_byteArray.mp read with ⟨rfl, -⟩
      exact ⟨{ before with taskId := some taskId }, rfl, { fit with },
        by simp [schema, Schema.Stores]⟩
    · rcases accepts_store.mp accepts with ⟨unattended, read, rfl⟩
      rcases accepts_bool.mp read with rfl
      exact ⟨{ before with unattended := some unattended }, rfl, { fit with },
        by simp [schema, Schema.Stores]⟩
    · exact absurd accepts not_accepts_throw
  · rintro ⟨id, taskId, principal, issuer, issued, expires, unattended, capabilities, constraints⟩
      fit
    refine Rows.store (fun id => GrantFields.mk id none none none none none none [] .default)
      (fun id _ => accepts_store.mpr ⟨id, accepts_byteArray.mpr ⟨rfl, by decide⟩, rfl⟩) ?_
    refine Rows.store (fun issued => GrantFields.mk id none none none issued none none [] .default)
      (fun issued _ => accepts_store.mpr ⟨issued, accepts_u64.mpr rfl, rfl⟩) ?_
    refine Rows.store (fun issuer => GrantFields.mk id none none issuer issued none none []
      .default) (fun issuer found =>
        accepts_store.mpr ⟨issuer, accepts_text.mpr ⟨rfl, fit.issuer issuer found⟩, rfl⟩) ?_
    refine Rows.store (fun expires => GrantFields.mk id none none issuer issued expires none []
      .default) (fun expires _ => accepts_store.mpr ⟨expires, accepts_u64.mpr rfl, rfl⟩) ?_
    refine Rows.store (fun taskId => GrantFields.mk id taskId none issuer issued expires none []
      .default) (fun taskId _ =>
        accepts_store.mpr ⟨taskId, accepts_byteArray.mpr ⟨rfl, by decide⟩, rfl⟩) ?_
    refine Rows.store (fun principal => GrantFields.mk id taskId principal issuer issued expires
      none [] .default) (fun principal found => accepts_store.mpr
        ⟨principal, accepts_text.mpr ⟨rfl, fit.principal principal found⟩, rfl⟩) ?_
    refine Rows.store (fun unattended => GrantFields.mk id taskId principal issuer issued expires
      unattended [] .default) (fun unattended _ =>
        accepts_store.mpr ⟨unattended, accepts_bool.mpr rfl, rfl⟩) ?_
    refine Rows.store (fun constraints : Option (Constraints × Bytes) =>
      GrantFields.mk id taskId principal issuer issued expires unattended []
        ((constraints.map Prod.fst).getD .default)) (fun found isFound =>
          accepts_store.mpr ⟨found.1, fit.constraints found isFound, rfl⟩) ?_
    refine Rows.store (fun capabilities : Option (List Capability × Bytes) =>
      GrantFields.mk id taskId principal issuer issued expires unattended
        ((capabilities.map Prod.fst).getD []) ((constraints.map Prod.fst).getD .default))
      (fun found isFound => accepts_store.mpr ⟨found.1, fit.capabilities found isFound, by simp⟩) ?_
    exact .nil

theorem rows_framed {spelling : GrantSpelling}
    (constraints : ∀ found ∈ spelling.constraints, found.2.length < 2 ^ 64 → Framed found.2)
    (capabilities : ∀ found ∈ spelling.capabilities, found.2.length < 2 ^ 64 → Framed found.2)
    (short : spelling.bytes.length < 2 ^ 64) :
    ∀ row ∈ presentRows (schema.rows spelling), Framed row.2 := by
  refine Framed.presentRows ?_ short
  simp only [schema, List.forall_mem_cons, Option.mem_def, Option.map_eq_some_iff]
  refine ⟨?_, ?_, ?_, ?_, ?_, ?_, ?_, ?_, ?_, by simp⟩ <;> rintro _ ⟨found, isFound, rfl⟩ short
  · exact .ofBytes (by rw [found.property]; decide)
  · exact .ofU64 _
  · exact .ofText short
  · exact .ofU64 _
  · exact .ofBytes (by rw [found.property]; decide)
  · exact .ofText short
  · exact (show Item 0 _ from Delimited.bool.item found short).framed
  · exact constraints found isFound short
  · exact capabilities found isFound short

theorem Fit.rows_framed {spelling : GrantSpelling} (fit : spelling.Fit)
    (short : spelling.bytes.length < 2 ^ 64) :
    ∀ row ∈ presentRows (schema.rows spelling), Framed row.2 :=
  GrantSpelling.rows_framed
    (fun found isFound => framed_of_accepts_readConstraints (fit.constraints found isFound))
    (fun found isFound => framed_of_accepts_capabilities (fit.capabilities found isFound)) short

end GrantSpelling

namespace Grant

def fields (grant : Grant) : GrantFields :=
  ⟨grant.id, grant.taskId, grant.principal, grant.issuer, grant.issuedMs, grant.expiresMs,
    grant.unattended, grant.capabilities, grant.constraints⟩

/-- How `encode` spells a grant. -/
def spelling (grant : Grant) : GrantSpelling :=
  ⟨grant.id, grant.taskId, grant.principal, grant.issuer, grant.issuedMs, grant.expiresMs,
    grant.unattended, some (grant.capabilities, arrayOf encodeCapability grant.capabilities),
    some (grant.constraints, encodeConstraints grant.constraints)⟩

theorem bytes_spelling (grant : Grant) : grant.spelling.bytes = grant.encode := by
  rw [encode_eq]
  rfl

theorem fields_eq_ok {found : GrantFields} {grant : Grant} :
    found.grant = .ok grant ↔ found = grant.fields := by
  constructor
  · intro built
    rcases found with ⟨id, taskId, principal, issuer, issued, expires, unattended, capabilities,
      constraints⟩
    unfold GrantFields.grant at built
    dsimp only at built
    split at built
    · cases built
      rfl
    · cases built
  · rintro rfl
    rfl

theorem decode_eq_ok_iff {payload : Bytes} {grant : Grant} :
    decode payload = .ok grant ↔ ∃ spelling : GrantSpelling, spelling.fields = grant.fields ∧
      spelling.Fit ∧ payload = spelling.bytes := by
  rw [decode, decodeAll_eq_ok, Grant.read, accepts_built fun _ _ => fields_eq_ok]
  exact GrantSpelling.accepts_fields

/-- Every list of the payload is there: its capabilities, the scopes of each, and the
rates of its constraints. -/
structure SpelledOut (payload : Bytes) : Prop where
  capabilities : ∃ capabilities, HasEntry payload "capabilities" capabilities ∧
    ScopesSpelled capabilities
  constraints : ∃ constraints, HasEntry payload "constraints" constraints ∧
    HasKey constraints "rates"

theorem spelledOut_iff {spelling : GrantSpelling}
    (framed : ∀ row ∈ presentRows (GrantSpelling.schema.rows spelling), Framed row.2)
    (short : spelling.bytes.length < 2 ^ 64) :
    SpelledOut spelling.bytes ↔
      (∃ found ∈ spelling.capabilities, ScopesSpelled found.2) ∧
        ∃ found ∈ spelling.constraints, HasKey found.2 "rates" := by
  have capabilities : ("capabilities", fun spelling : GrantSpelling =>
      spelling.capabilities.map Prod.snd) ∈ GrantSpelling.schema := by simp [GrantSpelling.schema]
  have constraints : ("constraints", fun spelling : GrantSpelling =>
      spelling.constraints.map Prod.snd) ∈ GrantSpelling.schema := by simp [GrantSpelling.schema]
  have hasCapabilities := hasEntry_record GrantSpelling.schema_ascend framed short capabilities
  have hasConstraints := hasEntry_record GrantSpelling.schema_ascend framed short constraints
  constructor
  · rintro ⟨⟨value, hasValue, spelled⟩, other, hasOther, rates⟩
    rcases Option.map_eq_some_iff.mp ((hasCapabilities value).mp hasValue) with ⟨found, isFound, rfl⟩
    rcases Option.map_eq_some_iff.mp ((hasConstraints other).mp hasOther) with ⟨block, isBlock, rfl⟩
    exact ⟨⟨found, isFound, spelled⟩, block, isBlock, rates⟩
  · rintro ⟨⟨found, isFound, spelled⟩, block, isBlock, rates⟩
    exact ⟨⟨_, (hasCapabilities _).mpr (Option.map_eq_some_iff.mpr ⟨found, isFound, rfl⟩), spelled⟩,
      _, (hasConstraints _).mpr (Option.map_eq_some_iff.mpr ⟨block, isBlock, rfl⟩), rates⟩

theorem spelling_framed {grant : Grant} (short : grant.spelling.bytes.length < 2 ^ 64) :
    ∀ row ∈ presentRows (GrantSpelling.schema.rows grant.spelling), Framed row.2 := by
  refine GrantSpelling.rows_framed ?_ ?_ short <;> rintro _ ⟨⟩ short
  · rw [← Constraints.bytes_spelling] at short ⊢
    exact .ofMap (ConstraintsSpelling.rows_framed short) short
  · exact .ofArray (fun capability member =>
      encodeCapability_framed (lt_of_le_of_lt (length_le_arrayOf member) short)) short

section Payload

variable {spelling : GrantSpelling} {grant : Grant} (sameFields : spelling.fields = grant.fields)
  (fit : spelling.Fit) (short : spelling.bytes.length < 2 ^ 64)

include sameFields fit short

theorem capabilities_spelled_iff {found : List Capability × Bytes}
    (isFound : spelling.capabilities = some found) :
    found.2 = arrayOf encodeCapability grant.capabilities ↔ ScopesSpelled found.2 := by
  have same : found.1 = grant.capabilities := by
    simpa [GrantSpelling.fields, isFound, fields] using congrArg GrantFields.capabilities sameFields
  have inRows : ("capabilities", some found.2) ∈ GrantSpelling.schema.rows spelling := by
    simp [GrantSpelling.schema, Schema.rows, isFound]
  have within : found.2.length ≤ spelling.bytes.length := length_le_record inRows
  rw [← same]
  exact encodeCapabilities_eq_iff (fit.capabilities found isFound) (lt_of_le_of_lt within short)

theorem constraints_spelled_iff {found : Constraints × Bytes}
    (isFound : spelling.constraints = some found) :
    found.2 = encodeConstraints grant.constraints ↔ HasKey found.2 "rates" := by
  have same : found.1 = grant.constraints := by
    simpa [GrantSpelling.fields, isFound, fields] using congrArg GrantFields.constraints sameFields
  have inRows : ("constraints", some found.2) ∈ GrantSpelling.schema.rows spelling := by
    simp [GrantSpelling.schema, Schema.rows, isFound]
  have within : found.2.length ≤ spelling.bytes.length := length_le_record inRows
  rw [← same]
  exact encodeConstraints_eq_iff (fit.constraints found isFound) (lt_of_le_of_lt within short)

theorem bytes_eq_iff : grant.spelling.bytes = spelling.bytes ↔ SpelledOut spelling.bytes := by
  have framed := fit.rows_framed short
  rw [spelledOut_iff framed short]
  constructor
  · intro written
    have writtenShort : grant.spelling.bytes.length < 2 ^ 64 := written ▸ short
    have sameRows := mapBytes_inj (spelling_framed writtenShort) framed writtenShort written
    have entries := Delimited.fields_of_presentRows GrantSpelling.schema_ascend sameRows
    simp only [GrantSpelling.schema, List.forall_mem_cons] at entries
    rcases entries with ⟨-, -, -, -, -, -, -, hasConstraints, hasCapabilities, -⟩
    rcases Option.map_eq_some_iff.mp hasCapabilities.symm with ⟨found, isFound, isCapabilities⟩
    rcases Option.map_eq_some_iff.mp hasConstraints.symm with ⟨block, isBlock, isConstraints⟩
    exact ⟨⟨found, isFound, (capabilities_spelled_iff sameFields fit short isFound).mp isCapabilities⟩,
      block, isBlock, (constraints_spelled_iff sameFields fit short isBlock).mp isConstraints⟩
  · rintro ⟨⟨found, isFound, scopes⟩, block, isBlock, rates⟩
    have capabilities := (capabilities_spelled_iff sameFields fit short isFound).mpr scopes
    have constraints := (constraints_spelled_iff sameFields fit short isBlock).mpr rates
    rcases spelling with ⟨id, taskId, principal, issuer, issued, expires, unattended, _, _⟩
    rcases found with ⟨listed, listedBytes⟩
    rcases block with ⟨constrained, constrainedBytes⟩
    cases isFound
    cases isBlock
    rcases grant with ⟨id', principal', issued', expires', issuer', taskId', capabilities',
      constraints', unattended'⟩
    cases sameFields
    subst capabilities constraints
    rfl

end Payload

/-- Every grant decodes from its encoding. A payload that decodes is the grant's
encoding exactly if its lists are all spelled out. -/
theorem payload_exact_iff (grant : Grant) :
    (grant.encode.length < 2 ^ 64 → decode grant.encode = .ok grant) ∧
    ∀ payload : Bytes, payload.length < 2 ^ 64 → decode payload = .ok grant →
      (grant.encode = payload ↔ SpelledOut payload) := by
  refine ⟨decode_encode, fun payload short decoded => ?_⟩
  rcases decode_eq_ok_iff.mp decoded with ⟨spelling, sameFields, fit, rfl⟩
  rw [← bytes_spelling]
  exact bytes_eq_iff sameFields fit short

def bare : Grant := ⟨zeroBytes 16, "human", 0, 1, "policyd", zeroBytes 16, [], .default, false⟩

theorem payload_exact_bare :
    decode bare.encode = .ok bare ∧ (bare.encode = bare.encode ↔ SpelledOut bare.encode) := by
  have short : bare.encode.length < 2 ^ 64 := by decide +kernel
  have decoded := (payload_exact_iff bare).1 short
  exact ⟨decoded, (payload_exact_iff bare).2 _ short decoded⟩

/-- The same grant without its capabilities and constraints. -/
def terse : GrantSpelling := { bare.spelling with capabilities := none, constraints := none }

/-- Two payloads decode to the grant of nothing. -/
theorem terse_decodes_to_bare : decode terse.bytes = .ok bare ∧ bare.encode ≠ terse.bytes := by
  constructor
  · refine decode_eq_ok_iff.mpr ⟨terse, rfl, ⟨?_, ?_, ?_, ?_⟩, rfl⟩ <;> rintro _ ⟨⟩ <;> decide
  · intro same
    exact absurd (congrArg List.length same) (by decide +kernel)

end Grant

end EclipseOS.PolicyEval
