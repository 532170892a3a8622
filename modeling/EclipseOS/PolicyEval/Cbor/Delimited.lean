import EclipseOS.PolicyEval.Cbor.Entries
import EclipseOS.PolicyEval.Cbor.Framed

/-! # Encoders that lose nothing

No item is a proper start of another. An encoder whose values are items is
therefore injective as soon as the encoders of their parts are. Lengths are
bounded because a head carries 64 bits. -/

namespace EclipseOS.PolicyEval.Cbor

open Foundation

/-! ## Encoders -/

/-- Short encodings are items, and determine what was encoded. -/
structure Delimited {α : Type} (depth : Nat) (encode : α → Bytes) : Prop where
  item : ∀ value, (encode value).length < 2 ^ 64 → Item depth (encode value)
  inj : ∀ left right, (encode left).length < 2 ^ 64 → encode left = encode right →
    left = right

namespace Delimited

variable {α β σ : Type} {depth : Nat} {encode : α → Bytes}

theorem text : Delimited depth Writer.text where
  item _ short := .ofText short
  inj _ _ short same := Writer.text_inj short same

theorem u64 : Delimited depth Writer.u64 where
  item value _ := .uint value.toNat_lt
  inj left right _ same := by
    have first : Accepts (Cbor.u64 : Read Error UInt64) 0 left (Writer.u64 left) :=
      accepts_u64.mpr rfl
    exact (first.unique [] [] (accepts_u64.mpr rfl) (by rw [same])).1

theorem bool : Delimited depth Writer.bool where
  item value _ := by
    have encoded : Writer.bool value = Writer.head majorSimple (if value then 21 else 20) := by
      cases value <;> rfl
    rw [encoded]
    exact .simple (by split <;> decide) (by split <;> decide)
  inj left right _ same := by
    cases left <;> cases right <;> first | rfl | cases same

theorem comp {write : β → α} (delimited : Delimited depth encode)
    (injective : Function.Injective write) :
    Delimited depth fun value => encode (write value) where
  item _ short := delimited.item _ short
  inj _ _ short same := injective (delimited.inj _ _ short same)

theorem map_inj (delimited : Delimited depth encode) {lefts rights : List α}
    (short : ∀ item ∈ lefts, (encode item).length < 2 ^ 64)
    (same : lefts.map encode = rights.map encode) : lefts = rights := by
  induction lefts generalizing rights with
  | nil => exact (List.map_eq_nil_iff.mp same.symm).symm
  | cons left lefts induction =>
    cases rights with
    | nil => cases same
    | cons right rights =>
      rw [List.forall_mem_cons] at short
      rw [List.map_cons, List.map_cons, List.cons.injEq] at same
      rw [delimited.inj _ _ short.1 same.1, induction short.2 same.2]

theorem array (delimited : Delimited depth encode) :
    Delimited depth fun items : List α =>
      Writer.array items.length ++ items.flatMap encode := by
  have shortParts : ∀ items : List α,
      (Writer.array items.length ++ items.flatMap encode).length < 2 ^ 64 →
      ∀ item ∈ items, (encode item).length < 2 ^ 64 := by
    intro items short item member
    have part := (List.sublist_flatten_of_mem
      (List.mem_map_of_mem (f := encode) member)).length_le
    simp only [List.length_append, List.flatMap] at short part
    omega
  have parts : ∀ items : List α,
      (Writer.array items.length ++ items.flatMap encode).length < 2 ^ 64 →
      ∀ part ∈ items.map encode, Item depth part := by
    simp only [List.mem_map]
    rintro items short part ⟨item, member, rfl⟩
    exact delimited.item item (shortParts items short item member)
  have few : ∀ items : List α,
      (Writer.array items.length ++ items.flatMap encode).length < 2 ^ 64 →
      items.length < 2 ^ 64 := by
    intro items short
    have enough := Framed.length_le_flatten fun part member => (parts items short part member).framed
    simp only [List.length_append, List.length_map, List.flatMap] at short enough
    omega
  constructor
  · intro items short
    have item := Item.array (items.map encode) (by simpa using few items short)
      (parts items short)
    rwa [List.length_map] at item
  · intro lefts rights short same
    have shortRight : (Writer.array rights.length ++ rights.flatMap encode).length < 2 ^ 64 :=
      same ▸ short
    have plain : ∀ {len}, len < 2 ^ 64 → HeadFits majorArray len :=
      (headFits_iff majorArray (by decide) (by decide)).mpr
    rcases Framed.head_append_inj (plain (few lefts short)) (plain (few rights shortRight)) same
      with ⟨-, sameLength, sameItems⟩
    have sameFlat : (lefts.map encode).flatten ++ [] = (rights.map encode).flatten ++ [] := by
      simpa [List.flatMap] using sameItems
    have sameParts := (Framed.items_append_inj
      (fun part member => (parts lefts short part member).framed)
      (fun part member => (parts rights shortRight part member).framed)
      (by simpa using sameLength) sameFlat).1
    exact delimited.map_inj (shortParts lefts short) sameParts

theorem option_item (delimited : Delimited depth encode) {found : Option α} :
    ∀ value ∈ found.map encode, value.length < 2 ^ 64 → Item depth value := by
  simp only [Option.mem_def, Option.map_eq_some_iff]
  rintro _ ⟨value, -, rfl⟩ short
  exact delimited.item value short

theorem option_inj (delimited : Delimited depth encode) {left right : Option α}
    (short : ∀ bytes ∈ left.map encode, bytes.length < 2 ^ 64)
    (same : left.map encode = right.map encode) : left = right := by
  cases left with
  | none => exact (Option.map_eq_none_iff.mp same.symm).symm
  | some left =>
    cases right with
    | none => cases same
    | some right =>
      exact congrArg some (delimited.inj _ _ (short _ rfl) (Option.some.inj same))

theorem fields_of_presentRows {schema : Schema σ}
    (ascend : NamesAscend (schema.map Prod.fst)) {left right : σ}
    (same : presentRows (schema.rows left) = presentRows (schema.rows right)) :
    ∀ field ∈ schema, field.2 left = field.2 right := by
  have holds : ∀ fields, ∀ field ∈ schema, ∀ value,
      field.2 fields = some value ↔ (field.1, value) ∈ presentRows (schema.rows fields) := by
    intro fields field member value
    rw [mem_presentRows, Schema.rows, List.mem_map]
    constructor
    · exact fun found => ⟨field, member, Prod.ext rfl found⟩
    · rintro ⟨other, inSchema, same⟩
      rw [Prod.mk.injEq] at same
      rw [← List.inj_on_of_nodup_map ascend.nodup inSchema member same.1, same.2]
  intro field member
  refine Option.ext fun value => ?_
  rw [holds left field member, holds right field member, same]

theorem record {schema : Schema σ} (ascend : NamesAscend (schema.map Prod.fst))
    (namesFit : NamesFit (schema.map Prod.fst)) (room : depth < maxMapDepth)
    (items : ∀ fields, ∀ field ∈ schema, ∀ value ∈ field.2 fields,
      value.length < 2 ^ 64 → Item (depth + 1) value)
    (inj : ∀ left right,
      (∀ field ∈ schema, ∀ value ∈ field.2 left, value.length < 2 ^ 64) →
      (∀ field ∈ schema, field.2 left = field.2 right) → left = right) :
    Delimited depth fun fields => mapBytes (presentRows (schema.rows fields)) := by
  have rowItems : ∀ fields, (mapBytes (presentRows (schema.rows fields))).length < 2 ^ 64 →
      ∀ row ∈ presentRows (schema.rows fields), Item (depth + 1) row.2 := by
    rintro fields short ⟨name, value⟩ member
    obtain ⟨field, inSchema, same⟩ := List.mem_map.mp (mem_presentRows.mp member)
    exact items fields field inSchema value (Prod.mk.inj same).2
      (lt_of_le_of_lt (length_le_mapBytes member) short)
  constructor
  · intro fields short
    have sub := schema.rows_names fields
    refine .map _ room ?_ (keysAscend_iff.mpr (ascend.sublist sub)) ?_
      (rowItems fields short)
    · rw [← List.length_map Prod.fst]
      exact lt_of_le_of_lt sub.length_le namesFit.1
    · exact fun row member => namesFit.2 _ (sub.subset (List.mem_map_of_mem member))
  · intro left right short same
    have sameRows := mapBytes_inj (fun row member => (rowItems left short row member).framed)
      (fun row member => (rowItems right (same ▸ short) row member).framed) short same
    refine inj left right (fun field member value found => ?_)
      (fields_of_presentRows ascend sameRows)
    have inRows : (field.1, some value) ∈ schema.rows left :=
      List.mem_map.mpr ⟨field, member, Prod.ext rfl found⟩
    exact lt_of_le_of_lt (length_le_record inRows) short

end Delimited

end EclipseOS.PolicyEval.Cbor

/-! ## Lists within a limit

An array whose reader refuses more than so many items, and maps of fields that are
accepted under a condition. -/

namespace EclipseOS.PolicyEval.Cbor

open Foundation

theorem Framed.ofBool (value : Bool) : Framed (Writer.bool value) := by
  have item : Item 0 (Writer.bool value) :=
    Delimited.bool.item value (by cases value <;> decide)
  exact item.framed

theorem Framed.ofTexts {values : List String}
    (short : (arrayOf Writer.text values).length < 2 ^ 64) :
    Framed (arrayOf Writer.text values) := by
  have item : Item 0 (arrayOf Writer.text values) := Delimited.text.array.item values short
  exact item.framed

section Lists

variable {ε : Type} [FromCbor ε] {α β : Type} {depth : Nat}

/-- An array of at most `limit` items. -/
def listWithin (limit : Nat) (read : Read ε α) : Read ε (List α) := do
  let n ← arrayLen
  if limit < n then
    fail .type
  else
    collect n read

instance Local.listWithin (limit : Nat) (read : Read ε α) [Local read] :
    Local (listWithin limit read) := by
  unfold Cbor.listWithin
  infer_instance

variable {read : Read ε α} [Local read]

theorem accepts_listWithin_parts {limit : Nat} {found : List α} {encoding : Bytes} :
    Accepts (listWithin limit read) depth found encoding ↔
      ∃ parts, encoding = arrayOf id parts ∧ parts.length < 2 ^ 64 ∧ parts.length ≤ limit ∧
        List.Forall₂ (Accepts read depth) found parts := by
  simp only [listWithin, accepts_bind, accepts_arrayLen, accepts_ite, not_accepts_fail, and_false,
    false_or, accepts_collect_parts, not_lt]
  constructor
  · rintro ⟨n, _, _, whole, ⟨head, few⟩, within, counted, parts, spelled, items⟩
    have length : parts.length = n := items.length_eq ▸ counted
    refine ⟨parts, ?_, length ▸ few, length ▸ within, items⟩
    rw [whole, head, spelled, arrayOf, List.flatMap_id, length]
  · rintro ⟨parts, whole, few, within, items⟩
    refine ⟨parts.length, _, parts.flatten, ?_, ⟨rfl, few⟩, within, items.length_eq, parts, rfl,
      items⟩
    rw [whole, arrayOf, List.flatMap_id]

omit [FromCbor ε] [Local read] in
private theorem partsFramed {found : List α} {parts : List Bytes}
    (framed : ∀ value part, Accepts read depth value part → Framed part)
    (items : List.Forall₂ (Accepts read depth) found parts) : ∀ part ∈ parts, Framed part := by
  induction items with
  | nil => simp
  | cons accepts _ induction => exact List.forall_mem_cons.mpr ⟨framed _ _ accepts, induction⟩

theorem framed_of_accepts_listWithin {limit : Nat} {found : List α} {encoding : Bytes}
    (framed : ∀ value part, Accepts read depth value part → Framed part)
    (accepts : Accepts (listWithin limit read) depth found encoding) : Framed encoding := by
  obtain ⟨parts, whole, few, -, items⟩ := accepts_listWithin_parts.mp accepts
  have node := Framed.of majorArray parts.length [] parts
    ((headFits_iff _ (by decide) (by decide)).mpr few) rfl rfl (partsFramed framed items)
  rw [whole, arrayOf, List.flatMap_id]
  simpa [Writer.array] using node

omit [Local read] in
theorem framed_of_accepts_bool {value : Bool} {encoding : Bytes}
    (accepts : Accepts (Cbor.bool : Read ε Bool) depth value encoding) : Framed encoding := by
  rw [accepts_bool.mp accepts]
  exact .ofBool value

theorem accepts_listWithin_iff {limit : Nat} {values : List β} {encode : β → Bytes} {expect : β → α}
    {found : List α} (framed : ∀ value part, Accepts read depth value part → Framed part)
    (reads : ∀ value ∈ values, Accepts read depth (expect value) (encode value))
    (short : (arrayOf encode values).length < 2 ^ 64) :
    Accepts (listWithin limit read) depth found (arrayOf encode values) ↔
      values.length ≤ limit ∧ found = values.map expect := by
  have whole : arrayOf encode values = arrayOf id (values.map encode) := by
    simp [arrayOf, List.flatMap_def]
  have eachFramed : ∀ part ∈ values.map encode, Framed part := by
    intro part member
    obtain ⟨value, listed, rfl⟩ := List.mem_map.mp member
    exact framed _ _ (reads value listed)
  have items : List.Forall₂ (Accepts read depth) found (values.map encode) ↔
      found = values.map expect := by
    clear whole eachFramed short
    induction values generalizing found with
    | nil => simp
    | cons value values induction =>
      obtain ⟨first, rest⟩ := List.forall_mem_cons.mp reads
      cases found with
      | nil => simp
      | cons head tail =>
        have sameHead : Accepts read depth head (encode value) ↔ head = expect value := by
          constructor
          · intro other
            exact (other.unique [] [] first rfl).1
          · intro same
            exact same ▸ first
        simp [sameHead, induction rest]
  rw [whole] at short ⊢
  rw [accepts_listWithin_parts]
  constructor
  · rintro ⟨parts, same, _, within, accepted⟩
    have equal := arrayOf_inj eachFramed (partsFramed framed accepted) short same
    subst equal
    rw [List.length_map] at within
    exact ⟨within, items.mp accepted⟩
  · rintro ⟨within, same⟩
    have counted := Framed.length_le_flatten eachFramed
    rw [arrayOf, List.length_append, List.flatMap_id] at short
    refine ⟨values.map encode, rfl, by omega, by simpa using within, items.mpr same⟩

theorem accepts_texts_iff {limit : Nat} {values found : List String}
    (short : (arrayOf Writer.text values).length < 2 ^ 64) :
    Accepts (listWithin limit text : Read ε (List String)) depth found
        (arrayOf Writer.text values) ↔
      values.length ≤ limit ∧ found = values := by
  have reads : ∀ value ∈ values, Accepts (text : Read ε String) depth (id value)
      (Writer.text value) := by
    intro value member
    have fits := lt_of_le_of_lt (length_le_arrayOf member) short
    exact accepts_text.mpr ⟨rfl, lt_of_le_of_lt (length_le_text value) fits⟩
  rw [accepts_listWithin_iff (fun _ _ => framed_of_accepts_text) reads short, List.map_id]

/-! ### A list that is cut -/

/-- The first items of an array, no more than `limit` of them. -/
def listUpTo (limit : Nat) (read : Read ε α) : Read ε (List α) := do
  let n ← arrayLen
  collect (min n limit) read

instance Local.listUpTo (limit : Nat) (read : Read ε α) [Local read] :
    Local (listUpTo limit read) := by
  unfold Cbor.listUpTo
  infer_instance

theorem length_le_of_accepts_listUpTo {limit : Nat} {found : List α} {encoding : Bytes}
    (accepts : Accepts (listUpTo limit read) depth found encoding) : found.length ≤ limit := by
  simp only [listUpTo, accepts_bind, accepts_collect_parts] at accepts
  obtain ⟨n, _, _, -, -, length, -⟩ := accepts
  rw [length]
  exact Nat.min_le_right n limit

theorem accepts_listUpTo {limit : Nat} {values : List β} {encode : β → Bytes} {expect : β → α}
    (reads : ∀ value ∈ values, Accepts read depth (expect value) (encode value))
    (within : values.length ≤ limit) (few : values.length < 2 ^ 64) :
    Accepts (listUpTo limit read) depth (values.map expect) (arrayOf encode values) := by
  simp only [listUpTo, accepts_bind, accepts_arrayLen, accepts_collect_parts]
  refine ⟨values.length, _, _, rfl, ⟨rfl, few⟩, ?_, values.map encode, List.flatMap_def, ?_⟩
  · rw [List.length_map, Nat.min_eq_left within]
  · rw [List.forall₂_map_left_iff, List.forall₂_map_right_iff, List.forall₂_same]
    exact reads

end Lists

/-! ## Fields with a condition -/

section Fields

variable {ε : Type} {σ : Type} {depth : Nat} {field : String → σ → Read ε σ}

theorem rows_cons_iff_when {key : String} {value : Bytes} {rows : List (String × Bytes)}
    {before next after : σ} {condition : Prop}
    (only : ∀ middle,
      Accepts (field key before) depth middle value ↔ condition ∧ middle = next) :
    Rows field depth before ((key, value) :: rows) after ↔
      condition ∧ Rows field depth next rows after := by
  simp only [rows_cons_iff, only, and_assoc, exists_and_left, exists_eq_left]

theorem accepts_store_when {α : Type} {read : Read ε α} [Local read] {store : α → σ}
    {value : α} {encoding : Bytes} {condition : Prop}
    (only : ∀ found, Accepts read depth found encoding ↔ condition ∧ found = value) {after : σ} :
    Accepts (read >>= fun value => pure (store value)) depth after encoding ↔
      condition ∧ after = store value := by
  simp only [accepts_store, only, and_assoc, exists_and_left, exists_eq_left]

end Fields

/-! ## What is left of a refusal -/

theorem decodeAll_toOption {α : Type} {read : Read Cbor.Error α} [Local read] {bytes : Bytes}
    {value : α} : (decodeAll read bytes).toOption = some value ↔ Accepts read 0 value bytes := by
  rw [← decodeAll_eq_ok]
  cases decodeAll read bytes <;> simp [Except.toOption]

end EclipseOS.PolicyEval.Cbor
