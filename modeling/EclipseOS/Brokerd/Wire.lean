import EclipseOS.Brokerd.Crash
import EclipseOS.PolicyEval.Cbor.Slots

/-! # The broker's packets

One canonical map a packet. A request carries `op` and the fields its operation takes,
all from one flat table; a response carries `r`. -/

namespace EclipseOS.Brokerd.Wire

open Foundation PolicyEval Cbor

inductive WireError where
  | wire
  deriving DecidableEq

instance : FromCbor WireError := ⟨fun _ => .wire⟩

/-- `ok_or(WireError)?`. -/
def need {α : Type} : Option α → Except WireError α
  | some value => .ok value
  | none => .error .wire

def texts (most : Nat) : Read WireError (List String) := do
  let n ← arrayLen
  if most < n then throw .wire else collect n text

/-! ## Records as listed -/

/-- A record's metadata as listed: no value, ever. -/
structure MetaView where
  name : String
  id : Ulid
  kind : String
  boundTo : List String
  modes : List String
  requiresPrompt : Bool
  rotationCounter : UInt64
  deriving DecidableEq

namespace MetaView

def encode (view : MetaView) : Bytes :=
  MapBuilder.new
    |>.insert "name" (Writer.text view.name)
    |>.insert "id" (Writer.bytes view.id.val)
    |>.insert "kind" (Writer.text view.kind)
    |>.insert "bound" (arrayOf Writer.text view.boundTo)
    |>.insert "modes" (arrayOf Writer.text view.modes)
    |>.insert "prompt" (Writer.bool view.requiresPrompt)
    |>.insert "rc" (Writer.u64 view.rotationCounter)
    |>.finish

def blank : MetaView := ⟨"", ⟨List.replicate 16 0, rfl⟩, "", [], [], false, 0⟩

def read (key : String) (view : MetaView) : Read WireError MetaView :=
  match key with
  | "name" => return { view with name := ← text }
  | "id" => return { view with id := ← byteArray 16 }
  | "kind" => return { view with kind := ← text }
  | "bound" => return { view with boundTo := ← texts 32 }
  | "modes" => return { view with modes := ← texts 3 }
  | "prompt" => return { view with requiresPrompt := ← bool }
  | "rc" => return { view with rotationCounter := ← u64 }
  | _ => throw .wire

end MetaView

/-! ## Fields -/

inductive FieldKind where
  | uint
  | text
  | bytes
  | bool
  | id
  | texts (most : Nat)
  | items
  deriving DecidableEq

namespace FieldKind

@[reducible] def Value : FieldKind → Type
  | uint => UInt64
  | text => String
  | bytes => Bytes
  | bool => Bool
  | id => FixedBytes 16
  | texts _ => List String
  | items => List MetaView

def write : (kind : FieldKind) → kind.Value → Bytes
  | uint => Writer.u64
  | text => Writer.text
  | bytes => Writer.bytes
  | bool => Writer.bool
  | id => fun value => Writer.bytes value.val
  | texts _ => arrayOf Writer.text
  | items => arrayOf MetaView.encode

def read : (kind : FieldKind) → Read WireError kind.Value
  | uint => u64
  | text => Cbor.text
  | bytes => Cbor.bytes
  | bool => Cbor.bool
  | id => byteArray 16
  | texts most => Wire.texts most
  | items => arrayItems (readMap .blank MetaView.read)

end FieldKind

inductive RequestField where
  | op
  | name
  | principal
  | grant
  | value
  | pass
  | nonce
  | cancel
  | kind
  | bound
  | modes
  | prompt
  | hint
  | host
  | port
  | url
  | role
  | cred
  | app
  | gen
  | egen
  | use_
  | seat
  | listed
  | expose
  | erot
  | target
  deriving DecidableEq

namespace RequestField

def key : RequestField → String
  | op => "op"
  | name => "name"
  | principal => "principal"
  | grant => "grant"
  | value => "value"
  | pass => "pass"
  | nonce => "nonce"
  | cancel => "cancel"
  | kind => "kind"
  | bound => "bound"
  | modes => "modes"
  | prompt => "prompt"
  | hint => "hint"
  | host => "host"
  | port => "port"
  | url => "url"
  | role => "role"
  | cred => "cred"
  | app => "app"
  | gen => "gen"
  | egen => "egen"
  | use_ => "use"
  | seat => "seat"
  | listed => "listed"
  | expose => "expose"
  | erot => "erot"
  | target => "target"

def ascending : List RequestField :=
  [op, app, gen, url, use_, cred, egen, erot, hint, host, kind, name, pass, port, role, seat, bound,
    grant, modes, nonce, value, cancel, expose, listed, prompt, target, principal]

def parse (text : String) : Option RequestField := ascending.find? (·.key = text)

@[reducible] def fieldKind : RequestField → FieldKind
  | value | pass => .bytes
  | nonce | hint | port | gen | egen | erot => .uint
  | cancel | prompt | cred | use_ | seat | listed | expose => .bool
  | grant => .id
  | bound => .texts 32
  | modes => .texts 3
  | _ => .text

end RequestField

/-- `Some` for the fields a request has. -/
abbrev RequestFields := Slots fun field : RequestField => field.fieldKind.Value

inductive ResponseField where
  | r
  | status
  | rc
  | value
  | code
  | life
  | unlocked
  | init
  | pass
  | nonce
  | left
  | expires
  | ok
  | items
  deriving DecidableEq

namespace ResponseField

def key : ResponseField → String
  | r => "r"
  | status => "status"
  | rc => "rc"
  | value => "value"
  | code => "code"
  | life => "life"
  | unlocked => "unlocked"
  | init => "init"
  | pass => "pass"
  | nonce => "nonce"
  | left => "left"
  | expires => "expires"
  | ok => "ok"
  | items => "items"

def ascending : List ResponseField :=
  [r, ok, rc, code, init, left, life, pass, items, nonce, value, status, expires, unlocked]

def parse (text : String) : Option ResponseField := ascending.find? (·.key = text)

@[reducible] def fieldKind : ResponseField → FieldKind
  | r | code => .text
  | value => .bytes
  | unlocked | init | pass | ok => .bool
  | items => .items
  | _ => .uint

end ResponseField

/-- `Some` for the fields a response has. -/
abbrev ResponseFields := Slots fun field : ResponseField => field.fieldKind.Value

/-! ## Requests -/

structure SubstituteFields where
  principal : String
  grant : Option (FixedBytes 16)
  name : String
  host : String
  port : UInt16
  url : Option String
  holdsUse : Bool
  erot : Option UInt64
  deriving DecidableEq

structure FillFields where
  principal : String
  grant : Option (FixedBytes 16)
  name : String
  /-- `password`, `textfield` or `other`. -/
  role : String
  cred : Bool
  app : String
  url : Option String
  gen : UInt64
  egen : UInt64
  holdsUse : Bool
  holdsSeat : Bool
  listed : Bool
  erot : Option UInt64
  deriving DecidableEq

structure MaterializeFields where
  principal : String
  grant : Option (FixedBytes 16)
  name : String
  target : String
  holdsExpose : Bool
  erot : Option UInt64
  deriving DecidableEq

structure TotpFields where
  principal : String
  grant : Option (FixedBytes 16)
  name : String
  host : String
  port : UInt16
  holdsUse : Bool
  deriving DecidableEq

inductive Request where
  | status
  | beginUnlock
  | unlockAnswer (nonce : UInt64) (passphrase : Option Bytes) (cancel : Bool)
  | init (passphrase : Option Bytes)
  | lock
  | add (spec : NewSecret) (value : Bytes)
  | rotate (name : String) (value : Bytes)
  | revoke (name : String)
  | list
  | substitute (fields : SubstituteFields)
  | fieldFill (fields : FillFields)
  | materialize (fields : MaterializeFields)
  | totp (fields : TotpFields)
  deriving DecidableEq

def operation (op : String) (rest : MapBuilder → MapBuilder) : Bytes :=
  (rest (MapBuilder.new.insert "op" (Writer.text op))).finish

namespace Request

def encode : Request → Bytes
  | status => operation "status" id
  | beginUnlock => operation "begin_unlock" id
  | lock => operation "lock" id
  | list => operation "list" id
  | unlockAnswer nonce passphrase cancel => operation "unlock_answer" fun m => m
      |>.insert "nonce" (Writer.u64 nonce)
      |>.insertOpt "pass" (passphrase.map Writer.bytes)
      |>.insertOpt "cancel" (if cancel then some (Writer.bool true) else none)
  | init passphrase => operation "init" fun m => m
      |>.insertOpt "pass" (passphrase.map Writer.bytes)
  | revoke name => operation "revoke" fun m => m.insert "name" (Writer.text name)
  | rotate name value => operation "rotate" fun m => m
      |>.insert "name" (Writer.text name)
      |>.insert "value" (Writer.bytes value)
  | add spec value => operation "add" fun m => m
      |>.insert "name" (Writer.text spec.name)
      |>.insert "kind" (Writer.text spec.kind.asStr)
      |>.insert "bound" (arrayOf Writer.text (spec.boundTo.map Binding.toText))
      |>.insert "modes" (arrayOf Writer.text (spec.modes.map Mode.asStr))
      |>.insert "prompt" (Writer.bool spec.requiresPrompt)
      |>.insertOpt "hint" (spec.rotationHintDays.map fun days => Writer.u64 days.toUInt64)
      |>.insert "value" (Writer.bytes value)
  | substitute x => operation "substitute" fun m => m
      |>.insert "principal" (Writer.text x.principal)
      |>.insertOpt "grant" (x.grant.map fun grant => Writer.bytes grant.val)
      |>.insert "name" (Writer.text x.name)
      |>.insert "host" (Writer.text x.host)
      |>.insert "port" (Writer.u64 x.port.toUInt64)
      |>.insertOpt "url" (x.url.map Writer.text)
      |>.insert "use" (Writer.bool x.holdsUse)
      |>.insertOpt "erot" (x.erot.map Writer.u64)
  | fieldFill x => operation "field_fill" fun m => m
      |>.insert "principal" (Writer.text x.principal)
      |>.insertOpt "grant" (x.grant.map fun grant => Writer.bytes grant.val)
      |>.insert "name" (Writer.text x.name)
      |>.insert "role" (Writer.text x.role)
      |>.insert "cred" (Writer.bool x.cred)
      |>.insert "app" (Writer.text x.app)
      |>.insertOpt "url" (x.url.map Writer.text)
      |>.insert "gen" (Writer.u64 x.gen)
      |>.insert "egen" (Writer.u64 x.egen)
      |>.insert "use" (Writer.bool x.holdsUse)
      |>.insert "seat" (Writer.bool x.holdsSeat)
      |>.insert "listed" (Writer.bool x.listed)
      |>.insertOpt "erot" (x.erot.map Writer.u64)
  | materialize x => operation "materialize" fun m => m
      |>.insert "principal" (Writer.text x.principal)
      |>.insertOpt "grant" (x.grant.map fun grant => Writer.bytes grant.val)
      |>.insert "name" (Writer.text x.name)
      |>.insert "target" (Writer.text x.target)
      |>.insert "expose" (Writer.bool x.holdsExpose)
      |>.insertOpt "erot" (x.erot.map Writer.u64)
  | totp x => operation "totp" fun m => m
      |>.insert "principal" (Writer.text x.principal)
      |>.insertOpt "grant" (x.grant.map fun grant => Writer.bytes grant.val)
      |>.insert "name" (Writer.text x.name)
      |>.insert "host" (Writer.text x.host)
      |>.insert "port" (Writer.u64 x.port.toUInt64)
      |>.insert "use" (Writer.bool x.holdsUse)

end Request

/-- `u16::try_from`. -/
def port (found : Option UInt64) : Except WireError UInt16 :=
  match found with
  | some value => if value.toNat < 2 ^ 16 then .ok value.toUInt16 else .error .wire
  | none => .error .wire

/-- `u32::try_from`, if there is a number. -/
def hint (found : Option UInt64) : Except WireError (Option UInt32) :=
  match found with
  | some value => if value.toNat < 2 ^ 32 then .ok (some value.toUInt32) else .error .wire
  | none => .ok none

namespace Request

def parse (packet : Bytes) : Except WireError RequestFields :=
  if maxMessage < packet.length then
    .error .wire
  else
    decodeAll (readMap Slots.empty (readSlot RequestField.parse (fun field => field.fieldKind.read)
      .wire)) packet

def ofFields (fields : RequestFields) : Except WireError Request := do
  match ← need (fields .op) with
  | "status" => return .status
  | "begin_unlock" => return .beginUnlock
  | "unlock_answer" =>
    let nonce ← need (fields .nonce)
    return .unlockAnswer nonce (fields .pass) ((fields .cancel).getD false)
  | "init" => return .init (fields .pass)
  | "lock" => return .lock
  | "list" => return .list
  | "revoke" => return .revoke (← need (fields .name))
  | "rotate" =>
    let name ← need (fields .name)
    return .rotate name (← need (fields .value))
  | "add" =>
    let boundTo ← (← need (fields .bound)).mapM fun text => need (Binding.parse text)
    let modes ← ((fields .modes).getD []).mapM fun text => need (Mode.parse text)
    let name ← need (fields .name)
    let kind ← need (Kind.parse (← need (fields .kind)))
    let rotationHintDays ← hint (fields .hint)
    let value ← need (fields .value)
    return .add ⟨name, kind, boundTo, modes, (fields .prompt).getD false, rotationHintDays⟩ value
  | "substitute" =>
    let principal ← need (fields .principal)
    let name ← need (fields .name)
    let host ← need (fields .host)
    let port ← port (fields .port)
    return .substitute ⟨principal, fields .grant, name, host, port, fields .url,
      (fields .use_).getD false, fields .erot⟩
  | "field_fill" =>
    let principal ← need (fields .principal)
    let name ← need (fields .name)
    let role ← need (fields .role)
    let app ← need (fields .app)
    let gen ← need (fields .gen)
    let egen ← need (fields .egen)
    return .fieldFill ⟨principal, fields .grant, name, role, (fields .cred).getD false, app,
      fields .url, gen, egen, (fields .use_).getD false, (fields .seat).getD false,
      (fields .listed).getD false, fields .erot⟩
  | "materialize" =>
    let principal ← need (fields .principal)
    let name ← need (fields .name)
    let target ← need (fields .target)
    return .materialize ⟨principal, fields .grant, name, target, (fields .expose).getD false,
      fields .erot⟩
  | "totp" =>
    let principal ← need (fields .principal)
    let name ← need (fields .name)
    let host ← need (fields .host)
    let port ← port (fields .port)
    return .totp ⟨principal, fields .grant, name, host, port, (fields .use_).getD false⟩
  | _ => throw .wire

def decode (packet : Bytes) : Except WireError Request := do
  ofFields (← parse packet)

end Request

/-! ## Responses -/

inductive Response where
  | ok
  | state (unlocked initialised passphrase : Bool)
  | unlock (nonce : UInt64) (passphrase : Bool) (attemptsLeft : UInt32) (expires : UInt64)
  | unlocked (opened : Bool)
  | value (rotationCounter : UInt64) (bytes : Bytes)
  | code (digits : String) (lifeS : UInt64)
  | list (items : List MetaView)
  | err (status : UInt64)
  deriving DecidableEq

def answer (kind : String) (rest : MapBuilder → MapBuilder) : Bytes :=
  (rest (MapBuilder.new.insert "r" (Writer.text kind))).finish

namespace Response

def encode : Response → Bytes
  -- Written straight into one buffer, in the order the canonical form asks for.
  | value rotationCounter bytes =>
    Writer.map 3 ++ Writer.text "r" ++ Writer.text "value" ++ Writer.text "rc" ++
      Writer.u64 rotationCounter ++ Writer.text "value" ++ Writer.bytes bytes
  | ok => answer "ok" id
  | err status => answer "err" fun m => m.insert "status" (Writer.u64 status)
  | state isUnlocked initialised passphrase => answer "state" fun m => m
      |>.insert "unlocked" (Writer.bool isUnlocked)
      |>.insert "init" (Writer.bool initialised)
      |>.insert "pass" (Writer.bool passphrase)
  | unlock nonce passphrase attemptsLeft expires => answer "unlock" fun m => m
      |>.insert "nonce" (Writer.u64 nonce)
      |>.insert "pass" (Writer.bool passphrase)
      |>.insert "left" (Writer.u64 attemptsLeft.toUInt64)
      |>.insert "expires" (Writer.u64 expires)
  | unlocked opened => answer "unlocked" fun m => m.insert "ok" (Writer.bool opened)
  | code digits lifeS => answer "code" fun m => m
      |>.insert "code" (Writer.text digits)
      |>.insert "life" (Writer.u64 lifeS)
  | list items => answer "list" fun m => m.insert "items" (arrayOf MetaView.encode items)

def parse (packet : Bytes) : Except WireError ResponseFields :=
  decodeAll (readMap Slots.empty (readSlot ResponseField.parse (fun field => field.fieldKind.read)
    .wire)) packet

/-- `u32::try_from`. -/
def attempts (found : UInt64) : Except WireError UInt32 :=
  if found.toNat < 2 ^ 32 then .ok found.toUInt32 else .error .wire

def ofFields (fields : ResponseFields) : Except WireError Response := do
  match ← need (fields .r) with
  | "ok" => return .ok
  | "err" => return .err (← need (fields .status))
  | "state" =>
    let isUnlocked ← need (fields .unlocked)
    let initialised ← need (fields .init)
    return .state isUnlocked initialised (← need (fields .pass))
  | "unlock" =>
    let nonce ← need (fields .nonce)
    let passphrase ← need (fields .pass)
    let attemptsLeft ← attempts (← need (fields .left))
    return .unlock nonce passphrase attemptsLeft (← need (fields .expires))
  | "unlocked" => return .unlocked (← need (fields .ok))
  | "value" =>
    let rotationCounter ← need (fields .rc)
    return .value rotationCounter (← need (fields .value))
  | "code" =>
    let digits ← need (fields .code)
    return .code digits (← need (fields .life))
  | "list" => return .list ((fields .items).getD [])
  | _ => throw .wire

def decode (packet : Bytes) : Except WireError Response := do
  ofFields (← parse packet)

end Response

end EclipseOS.Brokerd.Wire
