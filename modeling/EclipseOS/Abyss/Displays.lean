import EclipseOS.PolicyEval.Cbor.Delimited
import EclipseOS.Policyd.Dispatch

/-! # What the compositor draws

The displays `policyd` sends for an install review and for a commit slot, as the
compositor reads them. -/

namespace EclipseOS.Abyss

open Foundation PolicyEval Cbor Policyd

/-! ## The install review -/

structure Asked where
  line : String
  because : String
  added : Bool
  deriving DecidableEq

namespace Asked

structure Partial where
  line : Option String
  because : Option String
  added : Option Bool

def Partial.read (key : String) (found : Partial) : Read Cbor.Error Partial :=
  match key with
  | "added" => do return { found with added := some (← Cbor.bool) }
  | "because" => do return { found with because := some (← text) }
  | "line" => do return { found with line := some (← text) }
  | _ => fail .type

/-- `(line?, because?, added?)`. -/
def Partial.whole : Partial → Except Cbor.Error Asked
  | ⟨some line, some because, some added⟩ => .ok ⟨line, because, added⟩
  | _ => .error .type

def read : Read Cbor.Error Asked := do
  let found ← readMap ⟨none, none, none⟩ Partial.read
  orThrow found.whole

instance (key : String) (found : Partial) : Local (Partial.read key found) := by
  unfold Partial.read
  split <;> infer_instance

instance : Local read := by
  unfold read
  infer_instance

def parts (asked : Asked) : Partial := ⟨some asked.line, some asked.because, some asked.added⟩

def schema : Schema Partial :=
  [("line", fun found => found.line.map Writer.text),
    ("added", fun found => found.added.map Writer.bool),
    ("because", fun found => found.because.map Writer.text)]

def bytes (asked : Asked) : Bytes := mapBytes (presentRows (schema.rows asked.parts))

theorem schema_ascend : NamesAscend (schema.map Prod.fst) := by
  show NamesAscend ["line", "added", "because"]
  decide

theorem whole_eq_ok {found : Partial} {asked : Asked} :
    found.whole = .ok asked ↔ found = asked.parts := by
  obtain ⟨line, because, added⟩ := asked
  obtain ⟨_ | _, _ | _, _ | _⟩ := found <;> simp [Partial.whole, parts]

theorem framed_of_accepts_read {depth : Nat} {asked : Asked} {encoding : Bytes}
    (accepts : Accepts read depth asked encoding) : Framed encoding := by
  have fields {depth : Nat} {key : String} {before after : Partial} {value : Bytes}
      (accepts : Accepts (Partial.read key before) depth after value) : Framed value := by
    unfold Partial.read at accepts
    split at accepts
    case h_1 =>
      obtain ⟨found, accepted, -⟩ := accepts_store.mp accepts
      exact framed_of_accepts_bool accepted
    case h_4 => exact absurd accepts not_accepts_fail
    all_goals
      obtain ⟨found, accepted, -⟩ := accepts_store.mp accepts
      exact framed_of_accepts_text accepted
  exact framed_of_accepts_readMap (fun _ _ _ _ => fields)
    ((accepts_built fun _ _ => whole_eq_ok).mp accepts)

theorem accepts_bytes {asked : Asked} {depth : Nat} (room : depth < maxMapDepth)
    (short : asked.bytes.length < 2 ^ 64) : Accepts read depth asked asked.bytes := by
  have fits {name value : String}
      (member : (name, some (Writer.text value)) ∈ schema.rows asked.parts) :
      (utf8 value).length < 2 ^ 64 :=
    lt_of_le_of_lt (length_le_text value) (lt_of_le_of_lt (length_le_record member) short)
  have line := @fits "line" asked.line (by simp [schema, Schema.rows, parts])
  have because := @fits "because" asked.because (by simp [schema, Schema.rows, parts])
  apply (accepts_built fun _ _ => whole_eq_ok).mpr
  refine Accepts.record schema_ascend (by decide) room ?_
  refine rows_cons_iff.mpr ⟨_, accepts_store.mpr ⟨_, accepts_text.mpr ⟨rfl, line⟩, rfl⟩, ?_⟩
  refine rows_cons_iff.mpr ⟨_, accepts_store.mpr ⟨_, accepts_bool.mpr rfl, rfl⟩, ?_⟩
  refine rows_cons_iff.mpr ⟨_, accepts_store.mpr ⟨_, accepts_text.mpr ⟨rfl, because⟩, rfl⟩, ?_⟩
  exact rows_nil_iff.mpr rfl

end Asked

structure Display where
  id : String
  name : String
  publisher : String
  version : String
  previous : Option String
  caps : List Asked
  removed : List String
  absent : List String
  warnings : List String
  sandbox : List String
  deriving DecidableEq

namespace Display

/-- `Display::default()`. -/
def blank : Display := ⟨"", "", "", "", none, [], [], [], [], []⟩

def read (key : String) (display : Display) : Read Cbor.Error Display :=
  match key with
  | "absent" => do return { display with absent := ← listWithin 256 text }
  | "caps" => do return { display with caps := display.caps ++ (← listWithin 256 Asked.read) }
  | "id" => do return { display with id := ← text }
  | "name" => do return { display with name := ← text }
  | "previous" => do return { display with previous := some (← text) }
  | "publisher" => do return { display with publisher := ← text }
  | "removed" => do return { display with removed := ← listWithin 256 text }
  | "sandbox" => do return { display with sandbox := ← listWithin 256 text }
  | "version" => do return { display with version := ← text }
  | "warnings" => do return { display with warnings := ← listWithin 256 text }
  | _ => fail .type

def decode (bytes : Bytes) : Option Display := (decodeAll (readMap blank read) bytes).toOption

instance (key : String) (display : Display) : Local (read key display) := by
  unfold read
  split <;> infer_instance

def schema : Schema Display :=
  [("id", fun display => some (Writer.text display.id)),
    ("caps", fun display => some (arrayOf Asked.bytes display.caps)),
    ("name", fun display => some (Writer.text display.name)),
    ("absent", fun display => some (arrayOf Writer.text display.absent)),
    ("removed", fun display => some (arrayOf Writer.text display.removed)),
    ("sandbox", fun display => some (arrayOf Writer.text display.sandbox)),
    ("version", fun display => some (Writer.text display.version)),
    ("previous", fun display => display.previous.map Writer.text),
    ("warnings", fun display => some (arrayOf Writer.text display.warnings)),
    ("publisher", fun display => some (Writer.text display.publisher))]

theorem schema_ascend : NamesAscend (schema.map Prod.fst) := by
  show NamesAscend ["id", "caps", "name", "absent", "removed", "sandbox", "version", "previous",
    "warnings", "publisher"]
  decide

/-- What `policyd` has shown of a package. -/
def ofManifest (manifest : Manifest) (previous : Option Install) : Display :=
  let before := (previous.map (·.lines)).getD []
  let now := manifest.capabilities.map (·.line)
  { id := manifest.id
    name := manifest.name
    publisher := manifest.publisher
    version := manifest.version
    previous := previous.map (·.version)
    caps := manifest.capabilities.map fun requested =>
      ⟨requested.line, requested.because, requested.line ∉ before⟩
    removed := before.filter (· ∉ now)
    absent := (notable.filter fun (_, start) =>
      !manifest.capabilities.any fun requested =>
        start.toList.isPrefixOf requested.name.toList).map Prod.fst
    warnings :=
      if manifest.sandbox.any (·.1 = "net.egress") ∧
          manifest.capabilities.any (·.name = "secret.expose") then
        ["secret_expose_with_egress"]
      else []
    sandbox := manifest.sandbox.map (fun (kind, value) => s!"{kind} {value}") ++
      manifest.inference.toList.map fun inference =>
        s!"inference {inference.backend} {inference.model}" }

theorem reviewDisplay_eq (manifest : Manifest) (previous : Option Install) :
    reviewDisplay manifest previous =
      mapBytes (presentRows (schema.rows (ofManifest manifest previous))) := by
  have caps (before : List String) : arrayOf (fun requested : Requested => MapBuilder.new
        |>.insert "line" (Writer.text requested.line)
        |>.insert "because" (Writer.text requested.because)
        |>.insert "added" (Writer.bool (requested.line ∉ before))
        |>.finish) manifest.capabilities =
      arrayOf Asked.bytes (manifest.capabilities.map fun requested =>
        ⟨requested.line, requested.because, requested.line ∉ before⟩) := by
    have each (requested : Requested) : (MapBuilder.new
        |>.insert "line" (Writer.text requested.line)
        |>.insert "because" (Writer.text requested.because)
        |>.insert "added" (Writer.bool (requested.line ∉ before))
        |>.finish) =
        Asked.bytes ⟨requested.line, requested.because, requested.line ∉ before⟩ := by
      simp only [MapBuilder.new_eq_ofRows, MapBuilder.insert_ofRows, List.nil_append,
        List.cons_append]
      exact Schema.finish_of_order Asked.schema_ascend [0, 2, 1] (by decide) rfl
    simp only [each, arrayOf, List.length_map, List.flatMap_map]
  simp only [reviewDisplay, caps]
  simp only [MapBuilder.new_eq_ofRows, MapBuilder.insert_ofRows, MapBuilder.insertOpt_ofRows,
    List.nil_append, List.cons_append]
  have version : (previous.map fun install => Writer.text install.version) =
      (previous.map (·.version)).map Writer.text := by
    rw [Option.map_map]
    rfl
  rw [version]
  exact Schema.finish_of_order schema_ascend [0, 2, 9, 6, 7, 1, 4, 3, 8, 5] (by decide) rfl

theorem framed_of_accepts_read {depth : Nat} {key : String} {before after : Display}
    {encoding : Bytes} (accepts : Accepts (read key before) depth after encoding) :
    Framed encoding := by
  have texts {store : String → Display}
      (accepts : Accepts (text >>= fun value => pure (store value) : Read Cbor.Error Display) depth
        after encoding) :
      Framed encoding := by
    obtain ⟨value, accepted, -⟩ := accepts_store.mp accepts
    exact framed_of_accepts_text accepted
  have lists {store : List String → Display}
      (accepts : Accepts (listWithin 256 text >>= fun value => pure (store value) :
        Read Cbor.Error Display) depth after encoding) :
      Framed encoding := by
    obtain ⟨values, accepted, -⟩ := accepts_store.mp accepts
    exact framed_of_accepts_listWithin (fun _ _ => framed_of_accepts_text) accepted
  unfold read at accepts
  split at accepts
  case h_1 | h_7 | h_8 | h_10 => exact lists accepts
  case h_2 =>
    obtain ⟨found, accepted, -⟩ := accepts_store.mp accepts
    exact framed_of_accepts_listWithin (fun _ _ => Asked.framed_of_accepts_read) accepted
  case h_11 => exact absurd accepts not_accepts_fail
  all_goals exact texts accepts

/-- No list is longer than the compositor takes. -/
structure Within (display : Display) : Prop where
  caps : display.caps.length ≤ 256
  absent : display.absent.length ≤ 256
  removed : display.removed.length ≤ 256
  sandbox : display.sandbox.length ≤ 256
  warnings : display.warnings.length ≤ 256

theorem rowsFramed {display : Display}
    (short : (mapBytes (presentRows (schema.rows display))).length < 2 ^ 64) :
    ∀ row ∈ presentRows (schema.rows display), Framed row.2 := by
  apply Framed.presentRows _ short
  have caps (short : (arrayOf Asked.bytes display.caps).length < 2 ^ 64) :
      Framed (arrayOf Asked.bytes display.caps) := by
    apply Framed.ofArray _ short
    intro asked member
    have fits := lt_of_le_of_lt (length_le_arrayOf member) short
    have accepted : Accepts Asked.read 0 asked asked.bytes := Asked.accepts_bytes (by decide) fits
    exact Asked.framed_of_accepts_read accepted
  simp only [schema, List.forall_mem_cons, List.not_mem_nil, false_implies, implies_true, and_true,
    Option.mem_def, Option.some.injEq, forall_eq', Option.map_eq_some_iff]
  refine ⟨.ofText, caps, .ofText, .ofTexts, .ofTexts, .ofTexts, .ofText, ?_, .ofTexts, .ofText⟩
  intro value ⟨version, _, same⟩ fits
  subst same
  exact .ofText fits

/-- The compositor reads a display whole if none of its lists is longer than it takes. -/
theorem decode_mapBytes_iff {sent display : Display}
    (short : (mapBytes (presentRows (schema.rows sent))).length < 2 ^ 64) :
    decode (mapBytes (presentRows (schema.rows sent))) = some display ↔
      sent.Within ∧ display = sent := by
  rw [decode, decodeAll_toOption]
  have each : ∀ row ∈ schema.rows sent, ∀ value ∈ row.2, value.length < 2 ^ 64 := by
    intro row member value isValue
    obtain ⟨name, found⟩ := row
    cases isValue
    exact lt_of_le_of_lt (length_le_record member) short
  simp only [schema, Schema.rows, List.map_cons, List.map_nil, List.forall_mem_cons,
    Option.mem_def, Option.some.injEq, forall_eq', List.not_mem_nil, false_implies, implies_true,
    and_true, Option.map_eq_some_iff, forall_exists_index, and_imp, forall_apply_eq_imp_iff₂]
    at each
  obtain ⟨package, caps, name, absent, removed, sandbox, version, previous, warnings, publisher⟩ :=
    each
  have fits {value : String} (short : (Writer.text value).length < 2 ^ 64) :
      (utf8 value).length < 2 ^ 64 :=
    lt_of_le_of_lt (length_le_text value) short
  have ascend := keysAscend_iff.mpr (schema_ascend.sublist (schema.rows_names sent))
  have asked : ∀ found, Accepts (listWithin 256 Asked.read) 1 found
      (arrayOf Asked.bytes sent.caps) ↔ sent.caps.length ≤ 256 ∧ found = sent.caps := by
    intro found
    have reads : ∀ asked ∈ sent.caps, Accepts Asked.read 1 asked asked.bytes := by
      intro asked member
      have fits := lt_of_le_of_lt (length_le_arrayOf member) caps
      exact Asked.accepts_bytes (by decide) fits
    rw [accepts_listWithin_iff (fun _ _ => Asked.framed_of_accepts_read) reads caps, List.map_id']
  rw [accepts_mapBytes (fun _ _ _ _ => framed_of_accepts_read) (rowsFramed short) short,
    and_iff_right (by decide), and_iff_right ascend]
  have chain : Rows read 1 blank (presentRows (schema.rows sent)) display ↔
      sent.caps.length ≤ 256 ∧ sent.absent.length ≤ 256 ∧ sent.removed.length ≤ 256 ∧
        sent.sandbox.length ≤ 256 ∧ sent.warnings.length ≤ 256 ∧ display = sent := by
    refine (rows_cons_iff_of fun _ => accepts_store_iff sent.id
      (accepts_text.mpr ⟨rfl, fits package⟩)).trans ?_
    refine (rows_cons_iff_when fun _ => accepts_store_when asked).trans
      (and_congr_right fun _ => ?_)
    refine (rows_cons_iff_of fun _ => accepts_store_iff sent.name
      (accepts_text.mpr ⟨rfl, fits name⟩)).trans ?_
    refine (rows_cons_iff_when fun _ => accepts_store_when fun _ => accepts_texts_iff absent).trans
      (and_congr_right fun _ => ?_)
    refine (rows_cons_iff_when fun _ => accepts_store_when fun _ => accepts_texts_iff removed).trans
      (and_congr_right fun _ => ?_)
    refine (rows_cons_iff_when fun _ => accepts_store_when fun _ => accepts_texts_iff sandbox).trans
      (and_congr_right fun _ => ?_)
    refine (rows_cons_iff_of fun _ => accepts_store_iff sent.version
      (accepts_text.mpr ⟨rfl, fits version⟩)).trans ?_
    refine (rows_store_iff (fun previous => (⟨sent.id, sent.name, "", sent.version, previous,
      sent.caps, sent.removed, sent.absent, [], sent.sandbox⟩ : Display)) fun stored isPrevious _ =>
        accepts_store_iff stored
          (accepts_text.mpr ⟨rfl, fits (previous stored isPrevious)⟩)).trans ?_
    refine (rows_cons_iff_when fun _ => accepts_store_when fun _ => accepts_texts_iff warnings).trans
      (and_congr_right fun _ => ?_)
    refine (rows_cons_iff_of fun _ => accepts_store_iff sent.publisher
      (accepts_text.mpr ⟨rfl, fits publisher⟩)).trans ?_
    exact rows_nil_iff
  rw [chain]
  constructor
  · rintro ⟨caps, absent, removed, sandbox, warnings, same⟩
    exact ⟨⟨caps, absent, removed, sandbox, warnings⟩, same⟩
  · rintro ⟨within, same⟩
    exact ⟨within.caps, within.absent, within.removed, within.sandbox, within.warnings, same⟩

end Display

/-! ## The commit slot -/

structure Shown where
  packageName : String
  package : String
  publisher : String
  statement : String
  deadlineMs : UInt64
  could : List String
  narrowed : Bool
  continuation : String
  resumes : String
  account : String
  untrustedPredecessor : Bool
  deriving DecidableEq

namespace Shown

/-- `Shown::default()`. -/
def blank : Shown := ⟨"", "", "", "", 0, [], false, "", "", "", false⟩

def read (key : String) (shown : Shown) : Read Cbor.Error Shown :=
  match key with
  | "account" => do return { shown with account := ← text }
  | "continuation" => do return { shown with continuation := ← text }
  | "could" => do return { shown with could := shown.could ++ (← listWithin 256 text) }
  | "deadline_ms" => do return { shown with deadlineMs := ← u64 }
  | "narrowed" => do return { shown with narrowed := ← Cbor.bool }
  | "package" => do return { shown with package := ← text }
  | "package_name" => do return { shown with packageName := ← text }
  | "publisher" => do return { shown with publisher := ← text }
  | "resumes" => do return { shown with resumes := ← text }
  | "statement" => do return { shown with statement := ← text }
  | "untrusted_predecessor" => do return { shown with untrustedPredecessor := ← Cbor.bool }
  | _ => fail .type

def decode (bytes : Bytes) : Option Shown := (decodeAll (readMap blank read) bytes).toOption

instance (key : String) (shown : Shown) : Local (read key shown) := by
  unfold read
  split <;> infer_instance

def schema : Schema Shown :=
  [("could", fun shown => some (arrayOf Writer.text shown.could)),
    ("account", fun shown => some (Writer.text shown.account)),
    ("package", fun shown => some (Writer.text shown.package)),
    ("resumes", fun shown => some (Writer.text shown.resumes)),
    ("narrowed", fun shown => some (Writer.bool shown.narrowed)),
    ("publisher", fun shown => some (Writer.text shown.publisher)),
    ("statement", fun shown => some (Writer.text shown.statement)),
    ("deadline_ms", fun shown => some (Writer.u64 shown.deadlineMs)),
    ("continuation", fun shown => some (Writer.text shown.continuation)),
    ("package_name", fun shown => some (Writer.text shown.packageName)),
    ("untrusted_predecessor", fun shown => some (Writer.bool shown.untrustedPredecessor))]

theorem schema_ascend : NamesAscend (schema.map Prod.fst) := by
  show NamesAscend ["could", "account", "package", "resumes", "narrowed", "publisher", "statement",
    "deadline_ms", "continuation", "package_name", "untrusted_predecessor"]
  decide

/-- What `policyd` has shown of a draft. -/
def ofDraft (manifest : Manifest) (statement : String) (deadlineMs : UInt64) (lines : List String)
    (narrowed : Bool) (continuation resumes account : String) : Shown where
  packageName := manifest.name
  package := manifest.id
  publisher := manifest.publisher
  statement := statement
  deadlineMs := deadlineMs
  could := lines
  narrowed := narrowed
  continuation := continuation
  resumes := resumes
  account := account
  untrustedPredecessor := continuation ≠ "" ∨ resumes ≠ ""

theorem slotDisplay_eq (manifest : Manifest) (statement : String) (deadlineMs : UInt64)
    (lines : List String) (narrowed : Bool) (continuation resumes account : String) :
    slotDisplay manifest statement deadlineMs lines narrowed continuation resumes account =
      mapBytes (presentRows (schema.rows
        (ofDraft manifest statement deadlineMs lines narrowed continuation resumes account))) := by
  simp only [slotDisplay, MapBuilder.new_eq_ofRows, MapBuilder.insert_ofRows, List.nil_append,
    List.cons_append]
  exact Schema.finish_of_order schema_ascend [9, 2, 5, 6, 7, 0, 4, 8, 3, 1, 10] (by decide) rfl

theorem framed_of_accepts_read {depth : Nat} {key : String} {before after : Shown}
    {encoding : Bytes} (accepts : Accepts (read key before) depth after encoding) :
    Framed encoding := by
  have texts {store : String → Shown}
      (accepts : Accepts (text >>= fun value => pure (store value) : Read Cbor.Error Shown) depth
        after encoding) :
      Framed encoding := by
    obtain ⟨value, accepted, -⟩ := accepts_store.mp accepts
    exact framed_of_accepts_text accepted
  unfold read at accepts
  split at accepts
  case h_3 =>
    obtain ⟨found, accepted, -⟩ := accepts_store.mp accepts
    exact framed_of_accepts_listWithin (fun _ _ => framed_of_accepts_text) accepted
  case h_4 =>
    obtain ⟨found, accepted, -⟩ := accepts_store.mp accepts
    exact framed_of_accepts_u64 accepted
  case h_5 | h_11 =>
    obtain ⟨found, accepted, -⟩ := accepts_store.mp accepts
    exact framed_of_accepts_bool accepted
  case h_12 => exact absurd accepts not_accepts_fail
  all_goals exact texts accepts

theorem rowsFramed {shown : Shown}
    (short : (mapBytes (presentRows (schema.rows shown))).length < 2 ^ 64) :
    ∀ row ∈ presentRows (schema.rows shown), Framed row.2 := by
  apply Framed.presentRows _ short
  simp only [schema, List.forall_mem_cons, List.not_mem_nil, false_implies, implies_true, and_true,
    Option.mem_def, Option.some.injEq, forall_eq']
  exact ⟨.ofTexts, .ofText, .ofText, .ofText, fun _ => .ofBool _, .ofText, .ofText,
    fun _ => .ofU64 _, .ofText, .ofText, fun _ => .ofBool _⟩

theorem decode_slotDisplay_iff {manifest : Manifest} {statement : String} {deadlineMs : UInt64}
    {lines : List String} {narrowed : Bool} {continuation resumes account : String} {shown : Shown}
    (short : (slotDisplay manifest statement deadlineMs lines narrowed continuation resumes
      account).length < 2 ^ 64) :
    decode (slotDisplay manifest statement deadlineMs lines narrowed continuation resumes
        account) = some shown ↔
      lines.length ≤ 256 ∧ shown =
        ofDraft manifest statement deadlineMs lines narrowed continuation resumes account := by
  rw [decode, decodeAll_toOption]
  rw [slotDisplay_eq] at short ⊢
  have each : ∀ row ∈ schema.rows
      (ofDraft manifest statement deadlineMs lines narrowed continuation resumes account),
      ∀ value ∈ row.2, value.length < 2 ^ 64 := by
    intro row member value isValue
    obtain ⟨name, found⟩ := row
    cases isValue
    exact lt_of_le_of_lt (length_le_record member) short
  simp only [schema, Schema.rows, ofDraft, List.map_cons, List.map_nil, List.forall_mem_cons,
    Option.mem_def, Option.some.injEq, forall_eq', List.not_mem_nil, false_implies, implies_true,
    and_true] at each
  obtain ⟨could, accountFits, package, resumesFits, _, publisher, statementFits, _,
    continuationFits, name, _⟩ := each
  have fits {value : String} (short : (Writer.text value).length < 2 ^ 64) :
      (utf8 value).length < 2 ^ 64 :=
    lt_of_le_of_lt (length_le_text value) short
  rw [accepts_mapBytes (fun _ _ _ _ => framed_of_accepts_read) (rowsFramed short) short]
  have ascend := keysAscend_iff.mpr (schema_ascend.sublist (schema.rows_names
    (ofDraft manifest statement deadlineMs lines narrowed continuation resumes account)))
  rw [and_iff_right (by decide), and_iff_right ascend]
  -- only the list of lines can be refused
  refine (rows_cons_iff_when fun _ => accepts_store_when fun _ => accepts_texts_iff could).trans
    (and_congr_right fun _ => ?_)
  refine (rows_cons_iff_of fun _ => accepts_store_iff account
    (accepts_text.mpr ⟨rfl, fits accountFits⟩)).trans ?_
  refine (rows_cons_iff_of fun _ => accepts_store_iff manifest.id
    (accepts_text.mpr ⟨rfl, fits package⟩)).trans ?_
  refine (rows_cons_iff_of fun _ => accepts_store_iff resumes
    (accepts_text.mpr ⟨rfl, fits resumesFits⟩)).trans ?_
  refine (rows_cons_iff_of fun _ => accepts_store_iff narrowed (accepts_bool.mpr rfl)).trans ?_
  refine (rows_cons_iff_of fun _ => accepts_store_iff manifest.publisher
    (accepts_text.mpr ⟨rfl, fits publisher⟩)).trans ?_
  refine (rows_cons_iff_of fun _ => accepts_store_iff statement
    (accepts_text.mpr ⟨rfl, fits statementFits⟩)).trans ?_
  refine (rows_cons_iff_of fun _ => accepts_store_iff deadlineMs (accepts_u64.mpr rfl)).trans ?_
  refine (rows_cons_iff_of fun _ => accepts_store_iff continuation
    (accepts_text.mpr ⟨rfl, fits continuationFits⟩)).trans ?_
  refine (rows_cons_iff_of fun _ => accepts_store_iff manifest.name
    (accepts_text.mpr ⟨rfl, fits name⟩)).trans ?_
  refine (rows_cons_iff_of fun _ => accepts_store_iff _ (accepts_bool.mpr rfl)).trans ?_
  exact rows_nil_iff

end Shown

end EclipseOS.Abyss
