import EclipseOS.PolicyEval.Task

/-! # Grants

The signed statement of what a principal may do inside one task, and its wire
form: COSE_Sign1 over canonical CBOR. -/

namespace EclipseOS.PolicyEval

open Foundation Cbor

def algEddsa : Int64 := -8

def labelAlg : Int64 := 1

def labelKid : Int64 := 4

def sigContext : String := "Signature1"

structure Capability where
  name : String
  scopes : List String
  quota : Option String
  deriving DecidableEq

/-- One `rate` line inside `constraints`. -/
structure Grant.Rate where
  event : String
  count : UInt32
  perMs : UInt64
  deriving DecidableEq

structure Constraints where
  rates : List Grant.Rate
  promptBudget : Option UInt32
  deriving DecidableEq

def Constraints.default : Constraints := ⟨[], none⟩

structure Grant where
  id : Ulid
  principal : String
  issuedMs : UInt64
  expiresMs : UInt64
  issuer : String
  taskId : Ulid
  capabilities : List Capability
  constraints : Constraints
  unattended : Bool
  deriving DecidableEq

/-- The ceiling on an unattended grant's lifetime: one hour. -/
def unattendedMaxMs : UInt64 := 3600000

/-! ## Encoding -/

def encodeCapability (capability : Capability) : Bytes :=
  MapBuilder.new
    |>.insert "name" (Writer.text capability.name)
    |>.insertOpt "quota" (capability.quota.map Writer.text)
    |>.insert "scopes" (arrayOf Writer.text capability.scopes)
    |>.finish

def encodeRate (rate : Grant.Rate) : Bytes :=
  MapBuilder.new
    |>.insert "count" (Writer.u64 rate.count.toUInt64)
    |>.insert "event" (Writer.text rate.event)
    |>.insert "per_ms" (Writer.u64 rate.perMs)
    |>.finish

def encodeConstraints (constraints : Constraints) : Bytes :=
  MapBuilder.new
    |>.insertOpt "prompt_budget"
      (constraints.promptBudget.map fun budget => Writer.u64 budget.toUInt64)
    |>.insert "rates" (arrayOf encodeRate constraints.rates)
    |>.finish

def Grant.encode (grant : Grant) : Bytes :=
  MapBuilder.new
    |>.insert "capabilities" (arrayOf encodeCapability grant.capabilities)
    |>.insert "constraints" (encodeConstraints grant.constraints)
    |>.insert "expires" (Writer.u64 grant.expiresMs)
    |>.insert "id" (Writer.bytes grant.id.val)
    |>.insert "issued" (Writer.u64 grant.issuedMs)
    |>.insert "issuer" (Writer.text grant.issuer)
    |>.insert "principal" (Writer.text grant.principal)
    |>.insert "task_id" (Writer.bytes grant.taskId.val)
    |>.insert "unattended" (Writer.bool grant.unattended)
    |>.finish

/-! ## Decoding -/

structure CapabilityFields where
  name : Option String
  quota : Option String
  scopes : List String

def CapabilityFields.read (key : String) (fields : CapabilityFields) :
    Read Cbor.Error CapabilityFields :=
  match key with
  | "name" => return { fields with name := some (← text) }
  | "quota" => return { fields with quota := some (← text) }
  | "scopes" => return { fields with scopes := fields.scopes ++ (← arrayItems text) }
  | _ => fail .type

def CapabilityFields.capability (fields : CapabilityFields) : Except Cbor.Error Capability :=
  match fields.name with
  | some name => .ok ⟨name, fields.scopes, fields.quota⟩
  | none => .error .type

def readCapability : Read Cbor.Error Capability := do
  orThrow (← readMap ⟨none, none, []⟩ CapabilityFields.read).capability

structure RateFields where
  count : Option UInt32
  event : Option String
  perMs : Option UInt64

def RateFields.read (key : String) (fields : RateFields) : Read Cbor.Error RateFields :=
  match key with
  | "count" => return { fields with count := some (← u32) }
  | "event" => return { fields with event := some (← text) }
  | "per_ms" => return { fields with perMs := some (← u64) }
  | _ => fail .type

def RateFields.rate (fields : RateFields) : Except Cbor.Error Grant.Rate :=
  match fields.count, fields.event, fields.perMs with
  | some count, some event, some perMs => .ok ⟨event, count, perMs⟩
  | _, _, _ => .error .type

def readRate : Read Cbor.Error Grant.Rate := do
  orThrow (← readMap ⟨none, none, none⟩ RateFields.read).rate

def Constraints.read (key : String) (constraints : Constraints) :
    Read Cbor.Error Constraints :=
  match key with
  | "prompt_budget" => return { constraints with promptBudget := some (← u32) }
  | "rates" =>
    return { constraints with
      rates := constraints.rates ++ (← arrayItems readRate) }
  | _ => fail .type

def readConstraints : Read Cbor.Error Constraints := readMap .default Constraints.read

structure GrantFields where
  id : Option Ulid
  taskId : Option Ulid
  principal : Option String
  issuer : Option String
  issued : Option UInt64
  expires : Option UInt64
  unattended : Option Bool
  capabilities : List Capability
  constraints : Constraints

namespace GrantFields

def initial : GrantFields := ⟨none, none, none, none, none, none, none, [], .default⟩

/-- One key of a grant. Unknown keys are refused, not skipped. -/
def read (key : String) (fields : GrantFields) : Read Cbor.Error GrantFields :=
  match key with
  | "capabilities" =>
    return { fields with
      capabilities := fields.capabilities ++ (← arrayItems readCapability) }
  | "constraints" => return { fields with constraints := ← readConstraints }
  | "expires" => return { fields with expires := some (← u64) }
  | "id" => return { fields with id := some (← byteArray 16) }
  | "issued" => return { fields with issued := some (← u64) }
  | "issuer" => return { fields with issuer := some (← text) }
  | "principal" => return { fields with principal := some (← text) }
  | "task_id" => return { fields with taskId := some (← byteArray 16) }
  | "unattended" => return { fields with unattended := some (← bool) }
  | _ => fail .type

def grant (fields : GrantFields) : Except Cbor.Error Grant :=
  match fields.id, fields.principal, fields.issued, fields.expires, fields.issuer,
    fields.taskId, fields.unattended with
  | some id, some principal, some issued, some expires, some issuer, some taskId,
      some unattended =>
      .ok ⟨id, principal, issued, expires, issuer, taskId, fields.capabilities,
        fields.constraints, unattended⟩
  | _, _, _, _, _, _, _ => .error .type

end GrantFields

def Grant.read : Read Cbor.Error Grant := do
  orThrow (← readMap .initial GrantFields.read).grant

def Grant.decode (bytes : Bytes) : Except Cbor.Error Grant := decodeAll Grant.read bytes

/-! ## Signing -/

section Signing

variable [Blake3]

def keyId (key : FixedBytes 32) : Digest := Blake3.hash key.val

def protectedHeader (key : FixedBytes 32) : Bytes :=
  MapBuilder.new
    |>.insertInt labelAlg (Writer.i64 algEddsa)
    |>.insertInt labelKid (Writer.bytes (keyId key).val)
    |>.finish

def sigStructure (header payload : Bytes) : Bytes :=
  Writer.array 4 ++ Writer.text sigContext ++ Writer.bytes header ++ Writer.bytes [] ++
    Writer.bytes payload

def coseSign1 (header payload : Bytes) (signature : FixedBytes 64) : Bytes :=
  Writer.array 4 ++ Writer.bytes header ++ MapBuilder.new.finish ++ Writer.bytes payload ++
    Writer.bytes signature.val

end Signing

end EclipseOS.PolicyEval
