import EclipseOS.PolicyEval.Cbor.Framed

/-! # Entries of a map

A reader whose accumulator starts out with defaults does not tell a missing key
from one that spells its default. Its accumulator is then a view of what the
bytes spell, and which keys they have is asked of the bytes. -/

namespace EclipseOS.PolicyEval.Cbor

open Foundation

/-! ## Readers with defaults -/

section Views

variable {ε : Type} {σ τ : Type} {depth : Nat} {field : String → σ → Read ε σ} {view : τ → σ}
  {schema : Schema τ} {valid : τ → Prop}

private theorem Rows.spelled
    (stores : ∀ name before after value, valid before →
      (∀ entry ∈ schema, entry.1 = name → entry.2 before = none) →
      Accepts (field name (view before)) depth after value →
      ∃ next, view next = after ∧ valid next ∧ schema.Stores name value before next)
    {start after : σ} {rows : List (String × Bytes)} (chain : Rows field depth start rows after)
    (nodup : (rows.map Prod.fst).Nodup) {before : τ} (isStart : view before = start)
    (validBefore : valid before)
    (unset : ∀ entry ∈ schema, entry.1 ∈ rows.map Prod.fst → entry.2 before = none) :
    ∃ spelling, view spelling = after ∧ valid spelling ∧
      (∀ row ∈ rows, row.1 ∈ schema.map Prod.fst) ∧
      ∀ entry ∈ schema, ∀ value, entry.2 spelling = some value ↔
        (entry.1, value) ∈ rows ∨ entry.2 before = some value := by
  induction chain generalizing before with
  | nil => exact ⟨before, isStart, validBefore, by simp, by simp⟩
  | @cons name value start middle after rows accepts _ induction =>
    subst isStart
    rw [List.map_cons, List.nodup_cons] at nodup
    have unsetName : ∀ entry ∈ schema, entry.1 = name → entry.2 before = none :=
      fun entry member same => unset entry member (by simp [same])
    rcases stores _ _ _ _ validBefore unsetName accepts with ⟨next, isNext, validNext, stored⟩
    have unsetNext : ∀ entry ∈ schema, entry.1 ∈ rows.map Prod.fst → entry.2 next = none := by
      intro entry member inRows
      have other : entry.1 ≠ name := fun same => nodup.1 (same ▸ inRows)
      rw [stored.2 entry member, if_neg other]
      exact unset entry member (List.mem_cons_of_mem _ inRows)
    rcases induction nodup.2 isNext validNext unsetNext with
      ⟨spelling, isView, validSpelling, known, holds⟩
    refine ⟨spelling, isView, validSpelling, List.forall_mem_cons.mpr ⟨stored.1, known⟩, ?_⟩
    intro entry member found
    rw [holds entry member, stored.2 entry member, List.mem_cons, Prod.mk.injEq]
    by_cases same : entry.1 = name
    · rw [if_pos same, unsetName entry member same]
      simp only [same, true_and, Option.some.injEq, reduceCtorEq, or_false]
      rw [or_comm, eq_comm]
    · simp [same]

theorem accepts_record_view [FromCbor ε] [∀ name fields, Local (field name fields)]
    (view : τ → σ) (valid : τ → Prop) (empty : τ)
    (names : NamesAscend (schema.map Prod.fst)) (fit : NamesFit (schema.map Prod.fst))
    (stores : ∀ name before after value, valid before →
      (∀ entry ∈ schema, entry.1 = name → entry.2 before = none) →
      Accepts (field name (view before)) (depth + 1) after value →
      ∃ next, view next = after ∧ valid next ∧ schema.Stores name value before next)
    (unset : ∀ entry ∈ schema, entry.2 empty = none) (validEmpty : valid empty)
    (chain : ∀ spelling, valid spelling →
      Rows field (depth + 1) (view empty) (presentRows (schema.rows spelling)) (view spelling))
    {after : σ} {encoding : Bytes} :
    Accepts (readMap (view empty) field) depth after encoding ↔
      depth < maxMapDepth ∧ ∃ spelling, view spelling = after ∧ valid spelling ∧
        encoding = mapBytes (presentRows (schema.rows spelling)) := by
  constructor
  · intro accepts
    rcases accepts_readMap.mp accepts with ⟨room, rows, -, rfl, ascend, -, read⟩
    have rowsAscend := keysAscend_iff.mp ascend
    rcases read.spelled stores rowsAscend.nodup rfl validEmpty
        (fun entry member _ => unset entry member) with ⟨spelling, isView, isValid, known, holds⟩
    refine ⟨room, spelling, isView, isValid, congrArg mapBytes ?_⟩
    refine Schema.eq_presentRows names rowsAscend ?_
    rintro ⟨name, value⟩
    constructor
    · intro member
      rcases List.mem_map.mp (known _ member) with ⟨entry, inSchema, rfl⟩
      exact ⟨entry, inSchema, rfl, (holds entry inSchema value).mpr (.inl member)⟩
    · rintro ⟨entry, inSchema, rfl, stored⟩
      rcases (holds entry inSchema value).mp stored with member | initially
      · exact member
      · cases (unset entry inSchema).symm.trans initially
  · rintro ⟨room, spelling, rfl, isValid, rfl⟩
    exact .record names fit room (chain spelling isValid)

end Views

/-! ## Keys of the bytes -/

def HasEntry (bytes : Bytes) (name : String) (value : Bytes) : Prop :=
  ∃ rows, bytes = mapBytes rows ∧ (∀ row ∈ rows, Framed row.2) ∧ (name, value) ∈ rows

/-- The bytes are a map with an entry of this name. -/
def HasKey (bytes : Bytes) (name : String) : Prop := ∃ value, HasEntry bytes name value

theorem hasEntry_mapBytes {rows : List (String × Bytes)} (framed : ∀ row ∈ rows, Framed row.2)
    (short : (mapBytes rows).length < 2 ^ 64) {name : String} {value : Bytes} :
    HasEntry (mapBytes rows) name value ↔ (name, value) ∈ rows := by
  constructor
  · rintro ⟨others, same, othersFramed, member⟩
    rwa [mapBytes_inj framed othersFramed short same]
  · exact fun member => ⟨rows, rfl, framed, member⟩

theorem hasEntry_record {σ : Type} {schema : Schema σ} {fields : σ}
    (names : NamesAscend (schema.map Prod.fst))
    (framed : ∀ row ∈ presentRows (schema.rows fields), Framed row.2)
    (short : (mapBytes (presentRows (schema.rows fields))).length < 2 ^ 64)
    {name : String} {get : σ → Option Bytes} (member : (name, get) ∈ schema) (value : Bytes) :
    HasEntry (mapBytes (presentRows (schema.rows fields))) name value ↔ get fields = some value := by
  rw [hasEntry_mapBytes framed short, Schema.mem_presentRows]
  constructor
  · rintro ⟨entry, inSchema, same, stored⟩
    have equal := List.inj_on_of_nodup_map names.nodup inSchema member same
    subst equal
    exact stored
  · exact fun stored => ⟨_, member, rfl, stored⟩

theorem hasKey_record {σ : Type} {schema : Schema σ} {fields : σ}
    (names : NamesAscend (schema.map Prod.fst))
    (framed : ∀ row ∈ presentRows (schema.rows fields), Framed row.2)
    (short : (mapBytes (presentRows (schema.rows fields))).length < 2 ^ 64)
    {name : String} {get : σ → Option Bytes} (member : (name, get) ∈ schema) :
    HasKey (mapBytes (presentRows (schema.rows fields))) name ↔ (get fields).isSome := by
  simp only [HasKey, hasEntry_record names framed short member, Option.isSome_iff_exists]

theorem length_eq_of_mapBytes {lefts rights : List (String × Bytes)}
    (fewLeft : lefts.length < 2 ^ 64) (fewRight : rights.length < 2 ^ 64)
    (same : mapBytes lefts = mapBytes rights) : lefts.length = rights.length := by
  have plain : ∀ {arg}, arg < 2 ^ 64 → HeadFits majorMap arg :=
    (headFits_iff majorMap (by decide) (by decide)).mpr
  exact (Framed.head_append_inj (plain fewLeft) (plain fewRight) same).2.1

theorem length_presentRows (rows : List (String × Option Bytes)) :
    (presentRows rows).length = rows.countP fun row => row.2.isSome := by
  rw [presentRows, List.length_filterMap_eq_countP]
  simp

/-! ## Parts of an array -/

theorem arrayOf_inj {lefts rights : List Bytes} (leftFramed : ∀ part ∈ lefts, Framed part)
    (rightFramed : ∀ part ∈ rights, Framed part) (short : (arrayOf id lefts).length < 2 ^ 64)
    (same : arrayOf id lefts = arrayOf id rights) : lefts = rights := by
  have few : ∀ {parts : List Bytes}, (∀ part ∈ parts, Framed part) →
      (arrayOf id parts).length < 2 ^ 64 → HeadFits majorArray parts.length := by
    intro parts framed short
    have enough := Framed.length_le_flatten framed
    rw [arrayOf, List.length_append, List.flatMap_id] at short
    exact (headFits_iff majorArray (by decide) (by decide)).mpr (by omega)
  rcases Framed.head_append_inj (few leftFramed short) (few rightFramed (same ▸ short)) same with
    ⟨-, sameLength, sameParts⟩
  rw [List.flatMap_id, List.flatMap_id] at sameParts
  have sameFlat : lefts.flatten ++ [] = rights.flatten ++ [] := by simpa using sameParts
  exact (Framed.items_append_inj leftFramed rightFramed sameLength sameFlat).1

section Arrays

variable {ε : Type} [FromCbor ε] {α : Type} {read : Read ε α} [Local read] {depth : Nat}
  {values : List α} {encoding : Bytes}

omit [FromCbor ε] in
theorem accepts_collect_parts {n : Nat} :
    Accepts (collect n read) depth values encoding ↔
      values.length = n ∧ ∃ parts, encoding = parts.flatten ∧
        List.Forall₂ (Accepts read depth) values parts := by
  induction n generalizing values encoding with
  | zero =>
    simp only [collect, accepts_pure, List.length_eq_zero_iff]
    constructor
    · rintro ⟨rfl, rfl⟩
      exact ⟨rfl, [], rfl, .nil⟩
    · rintro ⟨rfl, _, rfl, items⟩
      cases items
      exact ⟨rfl, rfl⟩
  | succ n induction =>
    simp only [collect, accepts_bind, accepts_pure, induction]
    constructor
    · rintro ⟨first, part, _, rfl, accepts, others, _, _, rfl, ⟨rfl, parts, rfl, items⟩, rfl, rfl⟩
      exact ⟨rfl, part :: parts, by simp, .cons accepts items⟩
    · rintro ⟨length, _, rfl, items⟩
      cases items with
      | nil => cases length
      | @cons first part others parts accepts items =>
        exact ⟨first, part, parts.flatten, rfl, accepts, others, _, [],
          (List.append_nil _).symm, ⟨by simpa using length, parts, rfl, items⟩, rfl, rfl⟩

theorem accepts_arrayItems_parts :
    Accepts (arrayItems read) depth values encoding ↔
      ∃ parts, encoding = arrayOf id parts ∧ parts.length < 2 ^ 64 ∧
        List.Forall₂ (Accepts read depth) values parts := by
  simp only [arrayItems, accepts_bind, accepts_arrayLen, accepts_collect_parts]
  constructor
  · rintro ⟨_, _, _, rfl, ⟨rfl, few⟩, rfl, parts, rfl, items⟩
    refine ⟨parts, ?_, items.length_eq ▸ few, items⟩
    rw [arrayOf, List.flatMap_id, items.length_eq]
  · rintro ⟨parts, rfl, few, items⟩
    refine ⟨parts.length, _, _, rfl, ⟨rfl, few⟩, items.length_eq, parts, ?_, items⟩
    rw [List.flatMap_id]

theorem accepts_arrayItems {encode : α → Bytes} {valid : α → Prop}
    (item : ∀ value part, Accepts read depth value part ↔ part = encode value ∧ valid value) :
    Accepts (arrayItems read) depth values encoding ↔
      encoding = arrayOf encode values ∧ values.length < 2 ^ 64 ∧ ∀ value ∈ values, valid value := by
  simp only [arrayItems, accepts_bind, accepts_arrayLen, accepts_collect item]
  constructor
  · rintro ⟨_, _, _, rfl, ⟨rfl, few⟩, rfl, rfl, isValid⟩
    exact ⟨rfl, few, isValid⟩
  · rintro ⟨rfl, few, isValid⟩
    exact ⟨_, _, _, rfl, ⟨rfl, few⟩, rfl, rfl, isValid⟩

end Arrays

end EclipseOS.PolicyEval.Cbor
