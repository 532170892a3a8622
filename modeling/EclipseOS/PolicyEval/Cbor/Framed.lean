import EclipseOS.PolicyEval.Cbor.Records
import EclipseOS.PolicyEval.Cbor.Skip

/-! # Items that end where they end

A head says how many bytes or how many parts follow it. That alone makes bytes
delimit themselves, whether or not the keys of their maps are in order. -/

namespace EclipseOS.PolicyEval.Cbor

open Foundation

def payloadLength (major : UInt8) (arg : Nat) : Nat :=
  if major = majorBytes ∨ major = majorText then arg else 0

def partCount (major : UInt8) (arg : Nat) : Nat :=
  if major = majorArray then arg else if major = majorMap then 2 * arg else 0

/-- Bytes laid out as their heads say, at every level. -/
inductive Framed : Bytes → Prop where
  | node {major : UInt8} {arg : Nat} (payload : Bytes) (parts : List Bytes)
      (fits : HeadFits major arg) (sized : payload.length = payloadLength major arg)
      (counted : parts.length = partCount major arg) (framed : ∀ part ∈ parts, Framed part) :
      Framed (Writer.head major arg ++ (payload ++ parts.flatten))

theorem length_le_text (value : String) :
    (utf8 value).length ≤ (Writer.text value).length := by
  simp [Writer.text]

namespace Framed

theorem head_append_inj {major major' : UInt8} {arg arg' : Nat} {rest rest' : Bytes}
    (fits : HeadFits major arg) (fits' : HeadFits major' arg')
    (same : Writer.head major arg ++ rest = Writer.head major' arg' ++ rest') :
    major = major' ∧ arg = arg' ∧ rest = rest' := by
  have first : Accepts (Cbor.head : Read Error _) 0 (major, arg) (Writer.head major arg) :=
    accepts_head.mpr ⟨rfl, fits⟩
  have second : Accepts (Cbor.head : Read Error _) 0 (major', arg') (Writer.head major' arg') :=
    accepts_head.mpr ⟨rfl, fits'⟩
  have heads := (first.unique rest rest' second same).1
  rw [Prod.mk.injEq] at heads
  rcases heads with ⟨rfl, rfl⟩
  exact ⟨rfl, rfl, List.append_cancel_left same⟩

private theorem flatten_append_inj {lefts rights : List Bytes} {leftRest rightRest : Bytes}
    (apart : ∀ left ∈ lefts, ∀ right leftRest rightRest, Framed right →
      left ++ leftRest = right ++ rightRest → left = right ∧ leftRest = rightRest)
    (framed : ∀ part ∈ rights, Framed part) (sameLength : lefts.length = rights.length)
    (same : lefts.flatten ++ leftRest = rights.flatten ++ rightRest) :
    lefts = rights ∧ leftRest = rightRest := by
  induction lefts generalizing rights with
  | nil =>
    have none := List.length_eq_zero_iff.mp sameLength.symm
    subst none
    exact ⟨rfl, same⟩
  | cons left lefts induction =>
    rcases List.exists_cons_of_length_eq_add_one sameLength.symm with ⟨right, others, rfl⟩
    rw [List.forall_mem_cons] at apart framed
    simp only [List.flatten_cons, List.append_assoc] at same
    rcases apart.1 right _ _ framed.1 same with ⟨rfl, sameRest⟩
    rcases induction apart.2 framed.2 (Nat.succ.inj sameLength) sameRest with ⟨rfl, rest⟩
    exact ⟨rfl, rest⟩

theorem append_inj {left right leftRest rightRest : Bytes} (first : Framed left)
    (second : Framed right) (same : left ++ leftRest = right ++ rightRest) :
    left = right ∧ leftRest = rightRest := by
  induction first generalizing right leftRest rightRest with
  | node payload parts fits sized counted _ induction =>
    cases second with
    | node payload' parts' fits' sized' counted' framed' =>
      simp only [List.append_assoc] at same
      rcases head_append_inj fits fits' same with ⟨rfl, rfl, afterHead⟩
      rcases List.append_inj afterHead (sized.trans sized'.symm) with ⟨rfl, afterPayload⟩
      have apart := fun left member right leftRest rightRest =>
        @induction left member right leftRest rightRest
      rcases flatten_append_inj apart framed' (counted.trans counted'.symm) afterPayload
        with ⟨rfl, rest⟩
      exact ⟨rfl, rest⟩

theorem items_append_inj {lefts rights : List Bytes} {leftRest rightRest : Bytes}
    (leftFramed : ∀ part ∈ lefts, Framed part) (rightFramed : ∀ part ∈ rights, Framed part)
    (sameLength : lefts.length = rights.length)
    (same : lefts.flatten ++ leftRest = rights.flatten ++ rightRest) :
    lefts = rights ∧ leftRest = rightRest :=
  flatten_append_inj (fun left member _ _ _ => (leftFramed left member).append_inj)
    rightFramed sameLength same

theorem length_pos {encoding : Bytes} (framed : Framed encoding) : 0 < encoding.length := by
  cases framed with
  | node => exact List.length_append ▸ Nat.add_pos_left (Writer.head_length_pos _ _) _

theorem length_le_flatten {parts : List Bytes} (framed : ∀ part ∈ parts, Framed part) :
    parts.length ≤ parts.flatten.length := by
  induction parts with
  | nil => exact Nat.le_refl _
  | cons part parts induction =>
    rw [List.forall_mem_cons] at framed
    have first := framed.1.length_pos
    have rest := induction framed.2
    simp only [List.flatten_cons, List.length_append, List.length_cons]
    omega

theorem of (major : UInt8) (arg : Nat) (payload : Bytes) (parts : List Bytes)
    (fits : HeadFits major arg) (sized : payload.length = payloadLength major arg)
    (counted : parts.length = partCount major arg) (framed : ∀ part ∈ parts, Framed part) :
    Framed (Writer.head major arg ++ (payload ++ parts.flatten)) :=
  .node payload parts fits sized counted framed

/-! ## Scalars and strings -/

theorem ofUint {arg : Nat} (fits : arg < 2 ^ 64) : Framed (Writer.head majorUint arg) := by
  have node := Framed.of majorUint arg [] []
    ((headFits_iff _ (by decide) (by decide)).mpr fits) rfl rfl (by simp)
  simpa using node

theorem ofU64 (value : UInt64) : Framed (Writer.u64 value) := ofUint value.toNat_lt

theorem ofBytes {value : Bytes} (fits : value.length < 2 ^ 64) :
    Framed (Writer.bytes value) := by
  have node := Framed.of majorBytes _ value []
    ((headFits_iff _ (by decide) (by decide)).mpr fits) rfl rfl (by simp)
  simpa [Writer.bytes] using node

theorem ofText {value : String} (fits : (Writer.text value).length < 2 ^ 64) :
    Framed (Writer.text value) := by
  have short := lt_of_le_of_lt (length_le_text value) fits
  have node := Framed.of majorText _ (utf8 value) []
    ((headFits_iff _ (by decide) (by decide)).mpr short) rfl rfl (by simp)
  simpa [Writer.text] using node

theorem ofArray {α : Type} {encode : α → Bytes} {items : List α}
    (framed : ∀ item ∈ items, Framed (encode item))
    (short : (arrayOf encode items).length < 2 ^ 64) : Framed (arrayOf encode items) := by
  have parts : ∀ part ∈ items.map encode, Framed part := by
    intro part member
    rcases List.mem_map.mp member with ⟨item, inItems, rfl⟩
    exact framed item inItems
  have few : items.length < 2 ^ 64 := by
    have enough := length_le_flatten parts
    simp only [arrayOf, List.length_append, List.length_map, List.flatMap] at short enough
    omega
  have node := Framed.of majorArray _ [] (items.map encode)
    ((headFits_iff _ (by decide) (by decide)).mpr few) rfl (List.length_map _) parts
  simpa [arrayOf, Writer.array, List.flatMap] using node

end Framed

/-! ## Maps -/

def rowParts (rows : List (String × Bytes)) : List Bytes :=
  rows.flatMap fun row => [Writer.text row.1, row.2]

theorem flatten_rowParts (rows : List (String × Bytes)) :
    (rowParts rows).flatten = rows.flatMap rowBytes := by
  induction rows with
  | nil => rfl
  | cons row rows induction =>
    simp only [rowParts, List.flatMap_cons, List.flatten_append, rowBytes] at induction ⊢
    rw [induction]
    simp

theorem length_rowParts (rows : List (String × Bytes)) :
    (rowParts rows).length = 2 * rows.length := by
  simp [rowParts, List.length_flatMap, Nat.mul_comm]

theorem length_le_arrayOf {α : Type} {encode : α → Bytes} {items : List α} {item : α}
    (member : item ∈ items) : (encode item).length ≤ (arrayOf encode items).length := by
  have part : (encode item).length ≤ (items.flatMap encode).length :=
    (List.sublist_flatten_of_mem (List.mem_map_of_mem member)).length_le
  simp only [arrayOf, List.length_append]
  omega

theorem length_key_le {rows : List (String × Bytes)} {row : String × Bytes}
    (member : row ∈ rows) : (Writer.text row.1).length ≤ (mapBytes rows).length := by
  have inRows := (List.sublist_flatten_of_mem
    (List.mem_map_of_mem (f := rowBytes) member)).length_le
  simp only [mapBytes, rowBytes, List.length_append, List.flatMap] at inRows ⊢
  omega

theorem length_le_mapBytes {rows : List (String × Bytes)} {row : String × Bytes}
    (member : row ∈ rows) : row.2.length ≤ (mapBytes rows).length := by
  have inRows := (List.sublist_flatten_of_mem
    (List.mem_map_of_mem (f := rowBytes) member)).length_le
  simp only [mapBytes, rowBytes, List.length_append, List.flatMap] at inRows ⊢
  omega

theorem length_le_record {σ : Type} {schema : Schema σ} {fields : σ} {name : String}
    {value : Bytes} (member : (name, some value) ∈ schema.rows fields) :
    value.length ≤ (mapBytes (presentRows (schema.rows fields))).length :=
  length_le_mapBytes (mem_presentRows.mpr member)

namespace Framed

theorem rowParts {rows : List (String × Bytes)} (framed : ∀ row ∈ rows, Framed row.2)
    (short : (mapBytes rows).length < 2 ^ 64) : ∀ part ∈ rowParts rows, Framed part := by
  simp only [Cbor.rowParts, List.mem_flatMap, List.mem_cons, List.not_mem_nil, or_false]
  rintro part ⟨row, member, rfl | rfl⟩
  · exact ofText (lt_of_le_of_lt (length_key_le member) short)
  · exact framed row member

theorem rows_fit {rows : List (String × Bytes)} (framed : ∀ row ∈ rows, Framed row.2)
    (short : (mapBytes rows).length < 2 ^ 64) : rows.length < 2 ^ 64 := by
  have enough := length_le_flatten (rowParts framed short)
  rw [flatten_rowParts, length_rowParts] at enough
  simp only [mapBytes, List.length_append] at short
  omega

theorem ofRows {rows : List (String × Bytes)} (framed : ∀ row ∈ rows, Framed row.2)
    (few : rows.length < 2 ^ 64) (keysFit : KeysFit rows) : Framed (mapBytes rows) := by
  have parts : ∀ part ∈ Cbor.rowParts rows, Framed part := by
    simp only [Cbor.rowParts, List.mem_flatMap, List.mem_cons, List.not_mem_nil, or_false]
    rintro part ⟨row, member, rfl | rfl⟩
    · have node := Framed.of majorText _ (utf8 row.1) []
        ((headFits_iff _ (by decide) (by decide)).mpr (keysFit row member)) rfl rfl (by simp)
      simpa [Writer.text] using node
    · exact framed row member
  have node := Framed.of majorMap _ [] (Cbor.rowParts rows)
    ((headFits_iff _ (by decide) (by decide)).mpr few) rfl (length_rowParts rows) parts
  rwa [flatten_rowParts] at node

theorem ofMap {rows : List (String × Bytes)} (framed : ∀ row ∈ rows, Framed row.2)
    (short : (mapBytes rows).length < 2 ^ 64) : Framed (mapBytes rows) := by
  refine ofRows framed (rows_fit framed short) fun row member => ?_
  exact lt_of_le_of_lt (length_le_text row.1) (lt_of_le_of_lt (length_key_le member) short)

theorem presentRows {σ : Type} {schema : Schema σ} {fields : σ}
    (framed : ∀ field ∈ schema, ∀ value ∈ field.2 fields, value.length < 2 ^ 64 → Framed value)
    (short : (mapBytes (presentRows (schema.rows fields))).length < 2 ^ 64) :
    ∀ row ∈ presentRows (schema.rows fields), Framed row.2 := by
  rintro ⟨name, value⟩ member
  rcases List.mem_map.mp (mem_presentRows.mp member) with ⟨field, inSchema, same⟩
  exact framed field inSchema value (Prod.mk.inj same).2
    (lt_of_le_of_lt (length_le_mapBytes member) short)

end Framed

theorem Item.ofText {depth : Nat} {value : String}
    (fits : (Writer.text value).length < 2 ^ 64) : Item depth (Writer.text value) :=
  .text (utf8 value) (lt_of_le_of_lt (length_le_text value) fits)

theorem Item.ofU64 {depth : Nat} (value : UInt64) : Item depth (Writer.u64 value) :=
  .uint value.toNat_lt

theorem Item.ofI64 {depth : Nat} (value : Int64) : Item depth (Writer.i64 value) := by
  have least := value.le_toInt
  have most := value.toInt_lt
  rw [Writer.i64]
  split
  · exact .uint (by omega)
  · exact .negint (by omega)

theorem Item.ofBytes {depth : Nat} {value : Bytes} (fits : value.length < 2 ^ 64) :
    Item depth (Writer.bytes value) :=
  .bytes value fits

theorem Item.record {depth : Nat} {rows : List (String × Option Bytes)}
    (names : NamesAscend (rows.map Prod.fst)) (fit : NamesFit (rows.map Prod.fst))
    (room : depth < maxMapDepth) (short : (mapBytes (presentRows rows)).length < 2 ^ 64)
    (items : ∀ row ∈ rows, ∀ value ∈ row.2, value.length < 2 ^ 64 → Item (depth + 1) value) :
    Item depth (mapBytes (presentRows rows)) := by
  have sub := presentRows_names rows
  refine .map _ room ?_ (keysAscend_iff.mpr (names.sublist sub)) ?_ ?_
  · rw [← List.length_map Prod.fst]
    exact Nat.lt_of_le_of_lt sub.length_le fit.1
  · exact fun row member => fit.2 _ (sub.subset (List.mem_map_of_mem member))
  · rintro ⟨name, value⟩ member
    exact items _ (mem_presentRows.mp member) value rfl
      (lt_of_le_of_lt (length_le_mapBytes member) short)

theorem Item.framed {depth : Nat} {encoding : Bytes} (item : Item depth encoding) :
    Framed encoding := by
  have plain : ∀ {major arg}, major < 8 → major ≠ majorSimple → arg < 2 ^ 64 →
      HeadFits major arg := fun bound other => (headFits_iff _ bound other).mpr
  induction item with
  | uint fits => exact .ofUint fits
  | @negint _ arg fits =>
    have node := Framed.of majorNegint arg [] []
      (plain (by decide) (by decide) fits) rfl rfl (by simp)
    simpa using node
  | bytes value fits => exact .ofBytes fits
  | text value fits =>
    have node := Framed.of majorText _ value [] (plain (by decide) (by decide) fits)
      rfl rfl (by simp)
    simpa using node
  | array parts fits _ induction =>
    have node := Framed.of majorArray _ [] parts
      (plain (by decide) (by decide) fits) rfl rfl induction
    simpa [Writer.array] using node
  | map rows _ fits _ keysFit _ induction => exact .ofRows induction fits keysFit
  | @simple _ arg least most =>
    have node := Framed.of majorSimple arg [] []
      ⟨by decide, by omega, fun _ => by omega⟩ rfl rfl (by simp)
    simpa using node

theorem Writer.text_inj {left right : String} (fits : (Writer.text left).length < 2 ^ 64)
    (same : Writer.text left = Writer.text right) : left = right := by
  have first : Accepts (Cbor.text : Read Error String) 0 left (Writer.text left) :=
    accepts_text.mpr ⟨rfl, lt_of_le_of_lt (length_le_text left) fits⟩
  have second : Accepts (Cbor.text : Read Error String) 0 right (Writer.text right) :=
    accepts_text.mpr ⟨rfl, lt_of_le_of_lt (length_le_text right) (same ▸ fits)⟩
  exact (first.unique [] [] second (by rw [same])).1

theorem rowParts_inj {lefts rights : List (String × Bytes)}
    (keys : ∀ row ∈ lefts, (Writer.text row.1).length < 2 ^ 64)
    (same : rowParts lefts = rowParts rights) : lefts = rights := by
  induction lefts generalizing rights with
  | nil =>
    cases rights with
    | nil => rfl
    | cons right rights => cases same
  | cons left lefts induction =>
    cases rights with
    | nil => cases same
    | cons right rights =>
      rw [List.forall_mem_cons] at keys
      simp only [rowParts, List.flatMap_cons, List.cons_append, List.nil_append,
        List.cons.injEq] at same
      have sameKey := Writer.text_inj keys.1 same.1
      rw [induction keys.2 same.2.2, Prod.ext sameKey same.2.1]

theorem mapBytes_inj {lefts rights : List (String × Bytes)}
    (leftFramed : ∀ row ∈ lefts, Framed row.2) (rightFramed : ∀ row ∈ rights, Framed row.2)
    (short : (mapBytes lefts).length < 2 ^ 64) (same : mapBytes lefts = mapBytes rights) :
    lefts = rights := by
  have shortRight := same ▸ short
  have plain : ∀ {arg}, arg < 2 ^ 64 → HeadFits majorMap arg :=
    (headFits_iff majorMap (by decide) (by decide)).mpr
  rcases Framed.head_append_inj (plain (Framed.rows_fit leftFramed short))
    (plain (Framed.rows_fit rightFramed shortRight)) same with ⟨-, sameLength, sameRows⟩
  have sameParts : (rowParts lefts).length = (rowParts rights).length := by
    rw [length_rowParts, length_rowParts, sameLength]
  have sameFlat : (rowParts lefts).flatten ++ [] = (rowParts rights).flatten ++ [] := by
    rw [flatten_rowParts, flatten_rowParts, sameRows]
  refine rowParts_inj (fun row member => lt_of_le_of_lt (length_key_le member) short) ?_
  exact (Framed.items_append_inj (Framed.rowParts leftFramed short)
    (Framed.rowParts rightFramed shortRight) sameParts sameFlat).1

/-! ## Reading a map back -/

section Reading

variable {ε : Type} [FromCbor ε] {σ : Type} {depth : Nat} {field : String → σ → Read ε σ}
  [∀ name fields, Local (field name fields)]

omit [FromCbor ε] [∀ name fields, Local (field name fields)] in
private theorem Rows.framed
    (framed : ∀ name before after value,
      Accepts (field name before) depth after value → Framed value)
    {before after : σ} {rows : List (String × Bytes)}
    (chain : Rows field depth before rows after) : ∀ row ∈ rows, Framed row.2 := by
  induction chain with
  | nil => simp
  | cons step _ induction =>
    exact List.forall_mem_cons.mpr ⟨framed _ _ _ _ step, induction⟩

theorem framed_of_accepts_readMap
    (framed : ∀ name before after value,
      Accepts (field name before) (depth + 1) after value → Framed value)
    {initial after : σ} {encoding : Bytes}
    (accepts : Accepts (readMap initial field) depth after encoding) : Framed encoding := by
  rcases accepts_readMap.mp accepts with ⟨-, rows, few, rfl, -, keysFit, chain⟩
  exact .ofRows (chain.framed framed) few keysFit

theorem accepts_mapBytes
    (framed : ∀ name before after value,
      Accepts (field name before) (depth + 1) after value → Framed value)
    {initial after : σ} {rows : List (String × Bytes)} (rowsFramed : ∀ row ∈ rows, Framed row.2)
    (short : (mapBytes rows).length < 2 ^ 64) :
    Accepts (readMap initial field) depth after (mapBytes rows) ↔
      depth < maxMapDepth ∧ KeysAscend none rows ∧ Rows field (depth + 1) initial rows after := by
  rw [accepts_readMap]
  constructor
  · intro accepts
    rcases accepts with ⟨room, found, -, same, ascend, -, chain⟩
    have equal := mapBytes_inj rowsFramed (chain.framed framed) short same
    subst equal
    exact ⟨room, ascend, chain⟩
  · intro accepts
    rcases accepts with ⟨room, ascend, chain⟩
    refine ⟨room, rows, Framed.rows_fit rowsFramed short, rfl, ascend, ?_, chain⟩
    intro row member
    have key := lt_of_le_of_lt (length_key_le member) short
    exact lt_of_le_of_lt (length_le_text row.1) key

theorem framed_of_accepts_text {value : String} {encoding : Bytes}
    (accepts : Accepts (text : Read ε String) depth value encoding) : Framed encoding := by
  rcases accepts_text.mp accepts with ⟨rfl, fits⟩
  exact (show Item depth _ from .text (utf8 value) fits).framed

theorem framed_of_accepts_textAs {α : Type} {parse : String → Option α} {value : α}
    {encoding : Bytes} (accepts : Accepts (textAs parse : Read ε α) depth value encoding) :
    Framed encoding := by
  rcases accepts_textAs.mp accepts with ⟨source, -, rfl, fits⟩
  exact (show Item depth _ from .text (utf8 source) fits).framed

theorem framed_of_accepts_byteArray {n : Nat} {value : FixedBytes n} {encoding : Bytes}
    (accepts : Accepts (byteArray n : Read ε _) depth value encoding) : Framed encoding := by
  rcases accepts_byteArray.mp accepts with ⟨rfl, fits⟩
  refine .ofBytes ?_
  rwa [value.property]

theorem framed_of_accepts_u64 {value : UInt64} {encoding : Bytes}
    (accepts : Accepts (u64 : Read ε UInt64) depth value encoding) : Framed encoding := by
  rw [accepts_u64.mp accepts]
  exact .ofU64 value

theorem framed_of_accepts_u32 {value : UInt32} {encoding : Bytes}
    (accepts : Accepts (u32 : Read ε UInt32) depth value encoding) : Framed encoding := by
  rw [accepts_u32.mp accepts]
  exact .ofU64 _

end Reading

end EclipseOS.PolicyEval.Cbor
