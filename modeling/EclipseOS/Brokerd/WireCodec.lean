import EclipseOS.Brokerd.Wire

/-! # Packets that read back

What a request or a response is written as is read as it again, if its lists and texts
are within what the reader takes. -/

namespace EclipseOS.Brokerd.Wire

open Foundation PolicyEval Cbor

variable {depth : Nat}

/-! ## Records as listed -/

instance (most : Nat) : Local (texts most) := by
  unfold texts
  infer_instance

theorem accepts_texts {most : Nat} {values : List String} (few : values.length ≤ most)
    (short : (arrayOf Writer.text values).length < 2 ^ 64) :
    Accepts (texts most) depth values (arrayOf Writer.text values) := by
  have each : ∀ text ∈ values, (utf8 text).length < 2 ^ 64 := fun text member =>
    lt_of_le_of_lt (length_le_text text) (lt_of_le_of_lt (length_le_arrayOf member) short)
  have counted : values.length < 2 ^ 64 := by
    have parts : ∀ part ∈ values.map Writer.text, Framed part := by
      intro part member
      rcases List.mem_map.mp member with ⟨text, among, rfl⟩
      exact Framed.ofText (lt_of_le_of_lt (length_le_arrayOf among) short)
    have enough := Framed.length_le_flatten parts
    rw [List.length_map] at enough
    rw [arrayOf, List.length_append, List.flatMap] at short
    omega
  refine (accepts_arrayLen.mpr ⟨rfl, counted⟩).bind ?_
  rw [if_neg (by omega)]
  exact Accepts.collect fun text member => accepts_text.mpr ⟨rfl, each text member⟩

theorem accepts_texts_only {most : Nat} {values : List String} {encoding : Bytes}
    (accepts : Accepts (texts most) depth values encoding) :
    encoding = arrayOf Writer.text values ∧ values.length ≤ most := by
  have item : ∀ text part, Accepts (Cbor.text : Read WireError String) depth text part ↔
      part = Writer.text text ∧ (utf8 text).length < 2 ^ 64 := fun _ _ => accepts_text
  simp only [texts, accepts_bind, accepts_arrayLen, accepts_ite, accepts_collect item,
    not_accepts_throw, and_false, false_or, not_lt] at accepts
  rcases accepts with ⟨_, _, _, rfl, ⟨rfl, -⟩, few, rfl, rfl, -⟩
  exact ⟨rfl, few⟩

namespace MetaView

instance (key : String) (view : MetaView) : Local (read key view) := by
  unfold read
  split <;> infer_instance

def schema : Schema MetaView :=
  [("id", fun view => some (Writer.bytes view.id.val)),
    ("rc", fun view => some (Writer.u64 view.rotationCounter)),
    ("kind", fun view => some (Writer.text view.kind)),
    ("name", fun view => some (Writer.text view.name)),
    ("bound", fun view => some (arrayOf Writer.text view.boundTo)),
    ("modes", fun view => some (arrayOf Writer.text view.modes)),
    ("prompt", fun view => some (Writer.bool view.requiresPrompt))]

theorem schema_ascend : NamesAscend (schema.map Prod.fst) := by
  show NamesAscend ["id", "rc", "kind", "name", "bound", "modes", "prompt"]
  decide

theorem encode_eq (view : MetaView) : view.encode = mapBytes (presentRows (schema.rows view)) := by
  simp only [encode, MapBuilder.new_eq_ofRows, MapBuilder.insert_ofRows, List.nil_append,
    List.cons_append]
  exact Schema.finish_of_order schema_ascend [3, 0, 2, 4, 5, 6, 1] (by decide) rfl

/-- No more bindings and modes than the reader takes. -/
def Few (view : MetaView) : Prop := view.boundTo.length ≤ 32 ∧ view.modes.length ≤ 3

theorem accepts_encode {view : MetaView} (room : depth < maxMapDepth) (few : view.Few)
    (short : view.encode.length < 2 ^ 64) :
    Accepts (readMap .blank read) depth view view.encode := by
  have part (name : String) (value : Bytes) (member : (name, some value) ∈ schema.rows view) :
      value.length < 2 ^ 64 := by
    have within := length_le_record member
    rw [← encode_eq] at within
    omega
  have kind := part "kind" (Writer.text view.kind)
      (by simp [schema, Schema.rows])
  have name := part "name" (Writer.text view.name)
      (by simp [schema, Schema.rows])
  have bound := part "bound" (arrayOf Writer.text view.boundTo)
    (by simp [schema, Schema.rows])
  have modes := part "modes" (arrayOf Writer.text view.modes)
    (by simp [schema, Schema.rows])
  rw [encode_eq]
  refine .record schema_ascend (by decide) room ?_
  rcases view with ⟨viewName, id, viewKind, boundTo, viewModes, prompt, rc⟩
  refine .cons (accepts_store.mpr ⟨id, accepts_byteArray.mpr ⟨rfl, by decide⟩, rfl⟩) ?_
  refine .cons (accepts_store.mpr ⟨rc, accepts_u64.mpr rfl, rfl⟩) ?_
  refine .cons (accepts_store.mpr ⟨viewKind, accepts_text.mpr ⟨rfl, ?_⟩, rfl⟩) ?_
  · exact lt_of_le_of_lt (length_le_text viewKind) kind
  refine .cons (accepts_store.mpr ⟨viewName, accepts_text.mpr ⟨rfl, ?_⟩, rfl⟩) ?_
  · exact lt_of_le_of_lt (length_le_text viewName) name
  refine .cons (accepts_store.mpr ⟨boundTo, accepts_texts few.1 bound, rfl⟩) ?_
  refine .cons (accepts_store.mpr ⟨viewModes, accepts_texts few.2 modes, rfl⟩) ?_
  exact .cons (accepts_store.mpr ⟨prompt, accepts_bool.mpr rfl, rfl⟩) .nil

end MetaView

/-! ## Fields -/

namespace FieldKind

def Few : (kind : FieldKind) → kind.Value → Prop
  | texts most => fun values => values.length ≤ most
  | items => fun values => ∀ view ∈ values, view.Few
  | _ => fun _ => True

instance : ∀ kind : FieldKind, Local kind.read
  | uint => inferInstanceAs (Local u64)
  | text => inferInstanceAs (Local Cbor.text)
  | bytes => inferInstanceAs (Local Cbor.bytes)
  | bool => inferInstanceAs (Local Cbor.bool)
  | id => inferInstanceAs (Local (byteArray 16))
  | texts most => inferInstanceAs (Local (Wire.texts most))
  | items => inferInstanceAs (Local (arrayItems (readMap .blank MetaView.read)))

theorem accepts_items {views : List MetaView} (room : depth < maxMapDepth)
    (few : ∀ view ∈ views, view.Few) (short : (arrayOf MetaView.encode views).length < 2 ^ 64) :
    Accepts (arrayItems (readMap .blank MetaView.read)) depth views
      (arrayOf MetaView.encode views) := by
  have each : ∀ view ∈ views, view.encode.length < 2 ^ 64 := fun view member =>
    lt_of_le_of_lt (length_le_arrayOf member) short
  have counted : views.length ≤ (views.flatMap MetaView.encode).length := by
    clear short few each
    induction views with
    | nil => exact Nat.zero_le 0
    | cons view views induction =>
      have some : 0 < view.encode.length := by
        rw [MetaView.encode_eq, mapBytes, List.length_append]
        exact Nat.add_pos_left (Writer.head_length_pos _ _) _
      rw [List.flatMap_cons, List.length_append, List.length_cons]
      omega
  rw [arrayOf, List.length_append] at short
  have accepted : ∀ view ∈ views,
      Accepts (readMap .blank MetaView.read) depth view view.encode := fun view member =>
    MetaView.accepts_encode room (few view member) (each view member)
  exact Accepts.arrayItems accepted (by omega)

theorem accepts_read (room : depth < maxMapDepth) : ∀ {kind : FieldKind} {value : kind.Value},
    kind.Few value → (kind.write value).length < 2 ^ 64 →
      Accepts kind.read depth value (kind.write value)
  | uint, _, _, _ => accepts_u64.mpr rfl
  | text, value, _, short =>
    accepts_text.mpr ⟨rfl, lt_of_le_of_lt (length_le_text value) short⟩
  | bytes, value, _, short => by
      refine accepts_bytes.mpr ⟨rfl, lt_of_le_of_lt ?_ short⟩
      simp [write, Writer.bytes]
  | bool, _, _, _ => accepts_bool.mpr rfl
  | id, _, _, _ => accepts_byteArray.mpr ⟨rfl, by decide⟩
  | texts _, _, few, short => accepts_texts few short
  | items, _, few, short => accepts_items room few short

end FieldKind

/-! ## Steps of a decoder -/

@[simp] theorem need_some {α : Type} (value : α) : need (some value) = .ok value := rfl

theorem need_eq_ok {α : Type} {found : Option α} {value : α} :
    need found = .ok value ↔ found = some value := by
  cases found <;> simp [need]

theorem mapM_need {α : Type} {parse : String → Option α} {write : α → String} {items : List α}
    (parses : ∀ item ∈ items, parse (write item) = some item) :
    (items.map write).mapM (fun text => need (parse text)) = .ok items := by
  induction items with
  | nil => rfl
  | cons item items induction =>
    rw [List.forall_mem_cons] at parses
    rw [List.map_cons, List.mapM_cons, parses.1, induction parses.2]
    rfl

theorem mapM_need_eq_ok {α : Type} {parse : String → Option α} {texts : List String}
    {items : List α} (parsed : texts.mapM (fun text => need (parse text)) = .ok items) :
    items.length = texts.length ∧ ∀ item ∈ items, ∃ text ∈ texts, parse text = some item := by
  have each := forall₂_of_mapM parsed
  clear parsed
  induction each with
  | nil => exact ⟨rfl, by simp⟩
  | @cons text item texts items first _ induction =>
    refine ⟨by simp [induction.1], List.forall_mem_cons.mpr ⟨?_, ?_⟩⟩
    · exact ⟨text, List.mem_cons_self, need_eq_ok.mp first⟩
    · intro other member
      rcases induction.2 other member with ⟨source, among, found⟩
      exact ⟨source, List.mem_cons_of_mem _ among, found⟩

/-! ## Requests -/

namespace RequestField

theorem parse_key (field : RequestField) : parse field.key = some field := by
  cases field <;> rfl

theorem key_injective : Function.Injective key := by
  intro left right same
  have parsed := congrArg parse same
  rw [parse_key, parse_key] at parsed
  exact Option.some.inj parsed

theorem ascending_ascend : NamesAscend (ascending.map key) := by
  show NamesAscend
    ["op", "app", "gen", "url", "use", "cred", "egen", "erot", "hint", "host", "kind", "name",
     "pass", "port", "role", "seat", "bound", "grant", "modes", "nonce", "value", "cancel",
     "expose", "listed", "prompt", "target", "principal"]
  decide

theorem mem_ascending (field : RequestField) : field ∈ ascending := by
  cases field <;> decide

end RequestField

abbrev RequestGiven := Given fun field : RequestField => field.fieldKind.Value

namespace Request

/-- The fields of a request in the order written, and their values where there are any. -/
def given : Request → List RequestGiven
  | status => [⟨.op, some "status"⟩]
  | beginUnlock => [⟨.op, some "begin_unlock"⟩]
  | lock => [⟨.op, some "lock"⟩]
  | list => [⟨.op, some "list"⟩]
  | unlockAnswer nonce passphrase cancel =>
    [⟨.op, some "unlock_answer"⟩, ⟨.nonce, some nonce⟩, ⟨.pass, passphrase⟩,
      ⟨.cancel, if cancel then some true else none⟩]
  | init passphrase => [⟨.op, some "init"⟩, ⟨.pass, passphrase⟩]
  | revoke name => [⟨.op, some "revoke"⟩, ⟨.name, some name⟩]
  | rotate name value => [⟨.op, some "rotate"⟩, ⟨.name, some name⟩, ⟨.value, some value⟩]
  | add spec value =>
    [⟨.op, some "add"⟩, ⟨.name, some spec.name⟩, ⟨.kind, some spec.kind.asStr⟩,
      ⟨.bound, some (spec.boundTo.map Binding.toText)⟩,
      ⟨.modes, some (spec.modes.map Mode.asStr)⟩, ⟨.prompt, some spec.requiresPrompt⟩,
      ⟨.hint, spec.rotationHintDays.map UInt32.toUInt64⟩, ⟨.value, some value⟩]
  | substitute x =>
    [⟨.op, some "substitute"⟩, ⟨.principal, some x.principal⟩, ⟨.grant, x.grant⟩,
      ⟨.name, some x.name⟩, ⟨.host, some x.host⟩, ⟨.port, some x.port.toUInt64⟩, ⟨.url, x.url⟩,
      ⟨.use_, some x.holdsUse⟩, ⟨.erot, x.erot⟩]
  | fieldFill x =>
    [⟨.op, some "field_fill"⟩, ⟨.principal, some x.principal⟩, ⟨.grant, x.grant⟩,
      ⟨.name, some x.name⟩, ⟨.role, some x.role⟩, ⟨.cred, some x.cred⟩, ⟨.app, some x.app⟩,
      ⟨.url, x.url⟩, ⟨.gen, some x.gen⟩, ⟨.egen, some x.egen⟩, ⟨.use_, some x.holdsUse⟩,
      ⟨.seat, some x.holdsSeat⟩, ⟨.listed, some x.listed⟩, ⟨.erot, x.erot⟩]
  | materialize x =>
    [⟨.op, some "materialize"⟩, ⟨.principal, some x.principal⟩, ⟨.grant, x.grant⟩,
      ⟨.name, some x.name⟩, ⟨.target, some x.target⟩, ⟨.expose, some x.holdsExpose⟩,
      ⟨.erot, x.erot⟩]
  | totp x =>
    [⟨.op, some "totp"⟩, ⟨.principal, some x.principal⟩, ⟨.grant, x.grant⟩, ⟨.name, some x.name⟩,
      ⟨.host, some x.host⟩, ⟨.port, some x.port.toUInt64⟩, ⟨.use_, some x.holdsUse⟩]

theorem given_nodup (request : Request) : (request.given.map Sigma.fst).Nodup := by
  cases request <;> simp only [given, List.map_cons, List.map_nil] <;> decide

def fields (request : Request) : RequestFields := .ofGiven request.given

theorem encode_eq (request : Request) : request.encode =
    mapBytes (presentRows ((slotSchema RequestField.key
      (fun field => field.fieldKind.write) RequestField.ascending).rows request.fields)) := by
  rw [fields, ← finish_given RequestField.key (fun field => field.fieldKind.write)
    RequestField.ascending_ascend RequestField.key_injective RequestField.mem_ascending
    request.given_nodup]
  cases request with
  | unlockAnswer nonce passphrase cancel =>
    simp only [encode, operation, MapBuilder.new_eq_ofRows, MapBuilder.insert_ofRows,
      MapBuilder.insertOpt_ofRows, List.nil_append, List.cons_append]
    cases cancel <;> rfl
  | add spec value =>
    simp only [encode, operation, MapBuilder.new_eq_ofRows, MapBuilder.insert_ofRows,
      MapBuilder.insertOpt_ofRows, List.nil_append, List.cons_append, given, List.map_cons,
      List.map_nil, Option.map_some, Option.map_map]
    rfl
  | init passphrase | substitute x | fieldFill x | materialize x | totp x =>
    simp only [encode, operation, MapBuilder.new_eq_ofRows, MapBuilder.insert_ofRows,
      MapBuilder.insertOpt_ofRows, List.nil_append, List.cons_append]
    rfl
  | _ => rfl

/-- The lists are no longer than the reader takes. -/
def WithinLists : Request → Prop
  | add spec _ => spec.boundTo.length ≤ 32 ∧ spec.modes.length ≤ 3
  | _ => True

def Parsed : Request → Prop
  | add spec _ => ∀ binding ∈ spec.boundTo, ∃ text, Binding.parse text = some binding
  | _ => True

theorem few_given {request : Request} (within : request.WithinLists) :
    ∀ slot ∈ request.given, ∀ value, slot.2 = some value → slot.1.fieldKind.Few value := by
  cases request with
  | add spec value =>
    simp [given, FieldKind.Few, within.1, within.2]
  | _ => simp [given, FieldKind.Few]

theorem parse_encode {request : Request} (within : request.WithinLists)
    (small : request.encode.length ≤ maxMessage) : parse request.encode = .ok request.fields := by
  have short : request.encode.length < 2 ^ 64 := lt_of_le_of_lt small (by decide)
  rw [parse, if_neg (by omega), decodeAll_eq_ok]
  rw [encode_eq] at short ⊢
  refine accepts_slots RequestField.ascending_ascend (by decide) RequestField.mem_ascending
    RequestField.parse_key (by decide) fun field value found => ?_
  have row : (field.key, field.fieldKind.write value) ∈ presentRows ((slotSchema RequestField.key
      (fun field => field.fieldKind.write) RequestField.ascending).rows request.fields) :=
    mem_slotRows.mpr ⟨field, RequestField.mem_ascending field, value, found, rfl⟩
  have few := few_given within _ (Slots.mem_of_ofGiven request.given_nodup found) value rfl
  exact FieldKind.accepts_read (by decide) few (lt_of_le_of_lt (length_le_mapBytes row) short)

theorem port_toUInt64 (value : UInt16) : Wire.port (some value.toUInt64) = .ok value := by
  have small : value.toUInt64.toNat < 2 ^ 16 := by simpa using value.toNat_lt
  rw [Wire.port, if_pos small, UInt16.toUInt16_toUInt64]

theorem hint_toUInt64 (days : Option UInt32) :
    Wire.hint (days.map UInt32.toUInt64) = .ok days := by
  cases days with
  | none => rfl
  | some days =>
    have small : days.toUInt64.toNat < 2 ^ 32 := by simpa using days.toNat_lt
    rw [Option.map_some, Wire.hint, if_pos small, UInt32.toUInt32_toUInt64]

theorem ofFields_fields {request : Request} (parsed : request.Parsed) :
    ofFields request.fields = .ok request := by
  have values : ∀ slot ∈ request.given, request.fields slot.1 = slot.2 :=
    fun slot member => Slots.ofGiven_eq request.given_nodup member
  generalize request.fields = fields at values
  cases request with
  | add spec value =>
    have bindings : ∀ binding ∈ spec.boundTo, Binding.parse binding.toText = some binding := by
      intro binding member
      rcases parsed binding member with ⟨text, found⟩
      exact (Binding.parse_toText found).1
    have bound := mapM_need bindings
    have modes := mapM_need fun mode (_ : mode ∈ spec.modes) => Mode.parse_asStr mode
    simp only [given, List.forall_mem_cons] at values
    rcases values with ⟨op, name, kind, bindingTexts, modeTexts, prompt, days, secret, -⟩
    simp only [ofFields, op, name, kind, bindingTexts, modeTexts, prompt, days, secret, need_some,
      bind, Except.bind, Option.getD_some, bound, modes, Kind.parse_asStr, hint_toUInt64]
    rfl
  | unlockAnswer nonce passphrase cancel =>
    cases cancel <;> simp_all [given, ofFields, bind, Except.bind, pure, Except.pure]
  | _ => simp_all [given, ofFields, bind, Except.bind, pure, Except.pure, port_toUInt64]

theorem decode_encode {request : Request} (within : request.WithinLists) (parsed : request.Parsed)
    (small : request.encode.length ≤ maxMessage) : decode request.encode = .ok request := by
  rw [decode, parse_encode within small]
  exact ofFields_fields parsed

end Request

/-! ## Responses -/

namespace ResponseField

theorem parse_key (field : ResponseField) : parse field.key = some field := by
  cases field <;> rfl

theorem key_injective : Function.Injective key := by
  intro first second same
  have parsed := congrArg parse same
  rw [parse_key, parse_key] at parsed
  exact Option.some.inj parsed

theorem ascending_ascend : NamesAscend (ascending.map key) := by
  show NamesAscend
    ["r", "ok", "rc", "code", "init", "left", "life", "pass", "items", "nonce", "value", "status",
     "expires", "unlocked"]
  decide

theorem mem_ascending (field : ResponseField) : field ∈ ascending := by
  cases field <;> decide

end ResponseField

abbrev ResponseGiven := Given fun field : ResponseField => field.fieldKind.Value

namespace Response

/-- The fields of a response, in the order written. -/
def given : Response → List ResponseGiven
  | ok => [⟨.r, some "ok"⟩]
  | err status => [⟨.r, some "err"⟩, ⟨.status, some status⟩]
  | state isUnlocked initialised passphrase =>
    [⟨.r, some "state"⟩, ⟨.unlocked, some isUnlocked⟩, ⟨.init, some initialised⟩,
      ⟨.pass, some passphrase⟩]
  | unlock nonce passphrase attemptsLeft expires =>
    [⟨.r, some "unlock"⟩, ⟨.nonce, some nonce⟩, ⟨.pass, some passphrase⟩,
      ⟨.left, some attemptsLeft.toUInt64⟩, ⟨.expires, some expires⟩]
  | unlocked opened => [⟨.r, some "unlocked"⟩, ⟨.ok, some opened⟩]
  | value rotationCounter bytes =>
    [⟨.r, some "value"⟩, ⟨.rc, some rotationCounter⟩, ⟨.value, some bytes⟩]
  | code digits lifeS => [⟨.r, some "code"⟩, ⟨.code, some digits⟩, ⟨.life, some lifeS⟩]
  | list items => [⟨.r, some "list"⟩, ⟨.items, some items⟩]

theorem given_nodup (response : Response) : (response.given.map Sigma.fst).Nodup := by
  cases response <;> simp only [given, List.map_cons, List.map_nil] <;> decide

def fields (response : Response) : ResponseFields := .ofGiven response.given

/-- A value's response as the map builder writes it. -/
def builtValue (rotationCounter : UInt64) (bytes : Bytes) : Bytes :=
  answer "value" fun m => m
    |>.insert "rc" (Writer.u64 rotationCounter)
    |>.insert "value" (Writer.bytes bytes)

theorem encode_value (rotationCounter : UInt64) (bytes : Bytes) :
    (value rotationCounter bytes).encode = builtValue rotationCounter bytes := by
  let rows : List (String × Option Bytes) :=
    [("r", some (Writer.text "value")), ("rc", some (Writer.u64 rotationCounter)),
      ("value", some (Writer.bytes bytes))]
  have ascend : NamesAscend (rows.map Prod.fst) := by
    show NamesAscend ["r", "rc", "value"]
    decide
  have built : builtValue rotationCounter bytes = (MapBuilder.ofRows rows).finish := rfl
  rw [built, MapBuilder.finish_ofRows (List.Perm.refl _) ascend, encode]
  simp [rows, presentRows, mapBytes, rowBytes, Writer.map]

theorem encode_eq (response : Response) : response.encode =
    mapBytes (presentRows ((slotSchema ResponseField.key
      (fun field => field.fieldKind.write) ResponseField.ascending).rows response.fields)) := by
  rw [fields, ← finish_given ResponseField.key (fun field => field.fieldKind.write)
    ResponseField.ascending_ascend ResponseField.key_injective ResponseField.mem_ascending
    response.given_nodup]
  cases response with
  | value rotationCounter bytes => exact encode_value rotationCounter bytes
  | _ => rfl

/-- The lists are no longer than the reader takes. -/
def WithinLists : Response → Prop
  | list items => ∀ view ∈ items, view.Few
  | _ => True

theorem few_given {response : Response} (within : response.WithinLists) :
    ∀ slot ∈ response.given, ∀ value, slot.2 = some value → slot.1.fieldKind.Few value := by
  cases response with
  | list items =>
    have few : ∀ view ∈ items, view.Few := within
    simpa [given, FieldKind.Few] using few
  | _ => simp [given, FieldKind.Few]

theorem parse_encode {response : Response} (within : response.WithinLists)
    (short : response.encode.length < 2 ^ 64) : parse response.encode = .ok response.fields := by
  rw [parse, decodeAll_eq_ok]
  rw [encode_eq] at short ⊢
  refine accepts_slots ResponseField.ascending_ascend (by decide) ResponseField.mem_ascending
    ResponseField.parse_key (by decide) fun field value found => ?_
  have row : (field.key, field.fieldKind.write value) ∈ presentRows ((slotSchema ResponseField.key
      (fun field => field.fieldKind.write) ResponseField.ascending).rows response.fields) :=
    mem_slotRows.mpr ⟨field, ResponseField.mem_ascending field, value, found, rfl⟩
  have few := few_given within _ (Slots.mem_of_ofGiven response.given_nodup found) value rfl
  exact FieldKind.accepts_read (by decide) few (lt_of_le_of_lt (length_le_mapBytes row) short)

theorem attempts_toUInt64 (tries : UInt32) : attempts tries.toUInt64 = .ok tries := by
  have small : tries.toUInt64.toNat < 2 ^ 32 := by simpa using tries.toNat_lt
  rw [attempts, if_pos small, UInt32.toUInt32_toUInt64]

theorem ofFields_fields (response : Response) : ofFields response.fields = .ok response := by
  have values : ∀ slot ∈ response.given, response.fields slot.1 = slot.2 :=
    fun slot member => Slots.ofGiven_eq response.given_nodup member
  generalize response.fields = fields at values
  cases response <;>
    simp_all [given, ofFields, bind, Except.bind, pure, Except.pure, attempts_toUInt64]

theorem decode_encode {response : Response} (within : response.WithinLists)
    (short : response.encode.length < 2 ^ 64) : decode response.encode = .ok response := by
  rw [decode, parse_encode within short]
  exact ofFields_fields response

end Response

/-! ## Records that came in a packet -/

namespace Request

theorem add_of_ofFields {fields : RequestFields} {spec : NewSecret} {value : Bytes}
    (decoded : ofFields fields = .ok (.add spec value)) :
    ∃ bound, fields .bound = some bound ∧
      bound.mapM (fun text => need (Binding.parse text)) = .ok spec.boundTo ∧
      ((fields .modes).getD []).mapM (fun text => need (Mode.parse text)) = .ok spec.modes := by
  rw [ofFields, bind_eq_ok] at decoded
  rcases decoded with ⟨op, -, decoded⟩
  split at decoded
  case h_9 =>
    simp only [bind_eq_ok, need_eq_ok] at decoded
    rcases decoded with ⟨bound, hasBound, boundTo, bindings, modes, parsed, _, -, _, -, _, -, _, -,
      _, -, ⟨⟩⟩
    exact ⟨bound, hasBound, bindings, parsed⟩
  all_goals simp [bind_eq_ok, pure, Except.pure, throw, throwThe, MonadExceptOf.throw] at decoded

theorem fromWire_of_decode {packet : Bytes} {spec : NewSecret} {value : Bytes}
    (decoded : decode packet = .ok (.add spec value)) : spec.FromWire := by
  rcases bind_eq_ok.mp decoded with ⟨fields, parsed, built⟩
  rcases add_of_ofFields built with ⟨bound, hasBound, bindings, modes⟩
  rw [parse] at parsed
  split at parsed
  · cases parsed
  rename_i small
  have accepts := decodeAll_eq_ok.mp parsed
  constructor
  · rw [(mapM_need_eq_ok modes).1]
    cases listed : fields .modes with
    | none => simp
    | some texts =>
      rcases reads_of_accepts_slots accepts listed with ⟨part, read, -⟩
      exact (accepts_texts_only read).2
  · intro binding member
    rcases (mapM_need_eq_ok bindings).2 binding member with ⟨text, among, found⟩
    rcases reads_of_accepts_slots accepts hasBound with ⟨part, read, within⟩
    have inPart := @length_le_arrayOf _ Writer.text _ _ among
    rw [← (accepts_texts_only read).1] at inPart
    have ownBytes := length_le_text text
    exact ⟨text, by omega, found⟩

end Request

/-- A record that an `add` packet can make: named, bound and used as its packet says, with
any id, time of creation and rotation counter. -/
structure Storable (record : Meta) : Prop where
  packet : ∃ packet spec value, Request.decode packet = .ok (.add spec value) ∧
    spec.validate = .ok () ∧
    record = ⟨spec.name, record.id, spec.kind, spec.boundTo, spec.modes, spec.requiresPrompt,
      spec.rotationHintDays, record.createdUnix, record.rotationCounter⟩

theorem Storable.readable {record : Meta} (storable : Storable record) : record.Readable := by
  rcases storable.packet with ⟨packet, spec, value, decoded, valid, same⟩
  have fromWire := Request.fromWire_of_decode decoded
  have minted := minted_readable fromWire valid 0 ⟨List.replicate 10 0, rfl⟩
  rw [same]
  exact ⟨minted.named, minted.bound, minted.bindings, minted.modes⟩

/-- Requests whose bindings were parsed and that fit a packet, responses, and the records
and files the broker makes are read back as they were written, if the lists are within the
reader's limits; and a value is written as the map builder writes it. -/
theorem packets_round_trip [Aead] :
    (∀ request : Request, request.WithinLists → request.Parsed →
      request.encode.length ≤ maxMessage → Request.decode request.encode = .ok request) ∧
    (∀ response : Response, response.WithinLists → response.encode.length < 2 ^ 64 →
      Response.decode response.encode = .ok response) ∧
    (∀ record : Meta, Storable record → Meta.decode record.encode = .ok record ∧
      ∀ (store : Store) (value : Bytes) (draws : Draws), value.length ≤ maxValue →
        File.decode (store.fileOf record value draws).encode =
            .ok (store.fileOf record value draws) ∧
          (store.fileOf record value draws).openMeta store.master = .ok record) ∧
    ∀ (rotationCounter : UInt64) (bytes : Bytes),
      (Response.value rotationCounter bytes).encode =
        Response.builtValue rotationCounter bytes := by
  refine ⟨?_, ?_, ?_, Response.encode_value⟩
  · exact fun request within parsed small => Request.decode_encode within parsed small
  · exact fun response within short => Response.decode_encode within short
  · intro record storable
    have readable := storable.readable
    refine ⟨Meta.decode_encode readable, fun store value draws small => ?_⟩
    exact ⟨decode_fileOf readable small, openMeta_fileOf readable⟩

/-- A secret added in a packet, an answer, and the record made of the packet. -/
theorem packets_round_trip_token :
    Request.decode (Request.add token [1, 2, 3]).encode = .ok (.add token [1, 2, 3]) ∧
      Response.decode (Response.unlocked true).encode = .ok (.unlocked true) ∧
      Meta.decode (Store.minted token 1000 (zeroBytes 10)).encode =
        .ok (Store.minted token 1000 (zeroBytes 10)) := by
  rcases @packets_round_trip plainAead with ⟨requests, responses, records, -⟩
  have added : Request.decode (Request.add token [1, 2, 3]).encode = .ok (.add token [1, 2, 3]) :=
    requests _ (And.intro (by decide) (by decide)) (fun binding member =>
      (token_fromWire.2 binding member).imp fun _ parsed => parsed.2) (by decide +kernel)
  refine ⟨added, responses _ trivial (by decide +kernel), (records _ ⟨?_⟩).1⟩
  exact ⟨_, token, _, added, by decide, rfl⟩

theorem length_value_le (name : String) (value : Bytes) :
    value.length ≤ (Request.rotate name value).encode.length := by
  have row : ("value", Writer.bytes value) ∈ presentRows ((slotSchema RequestField.key
      (fun field => field.fieldKind.write) RequestField.ascending).rows
        (Request.rotate name value).fields) :=
    mem_slotRows.mpr ⟨.value, RequestField.mem_ascending _, value, rfl, rfl⟩
  have whole := length_le_mapBytes row
  rw [← Request.encode_eq, Writer.bytes, List.length_append] at whole
  omega

/-- A value larger than any packet, and a binding no text parses to. -/
theorem too_large_or_unparsed :
    ((Request.rotate "a" (List.replicate (maxMessage + 1) 0)).WithinLists ∧
      Request.decode (Request.rotate "a" (List.replicate (maxMessage + 1) 0)).encode =
        .error .wire) ∧
    ((Request.add ⟨"a", .env, [.app ""], [], false, none⟩ []).WithinLists ∧
      Request.decode (Request.add ⟨"a", .env, [.app ""], [], false, none⟩ []).encode =
        .error .wire) := by
  refine ⟨⟨trivial, ?_⟩, And.intro (by decide) (by decide), by decide +kernel⟩
  have long := length_value_le "a" (List.replicate (maxMessage + 1) 0)
  rw [List.length_replicate] at long
  rw [Request.decode, Request.parse, if_pos (by omega)]
  rfl

end EclipseOS.Brokerd.Wire
