import EclipseOS.PolicyEval.Cbor.Framed
import EclipseOS.PolicyEval.Cbor.Records
import Mathlib.Logic.Function.Basic

/-! # Slots

A record whose fields are one optional value for each name of an enumeration, read
by one reader for each name. -/

namespace EclipseOS.PolicyEval.Cbor

open Foundation

variable {ν : Type} {Value : ν → Type}

abbrev Slots (Value : ν → Type) := (name : ν) → Option (Value name)

abbrev Entry (Value : ν → Type) := (name : ν) × Value name

namespace Slots

def empty : Slots Value := fun _ => none

variable [DecidableEq ν]

def set (slots : Slots Value) (name : ν) (value : Value name) : Slots Value :=
  Function.update slots name (some value)

theorem set_same (slots : Slots Value) (name : ν) (value : Value name) :
    slots.set name value name = some value :=
  Function.update_self _ _ _

theorem set_of_ne {slots : Slots Value} {name other : ν} {value : Value name}
    (different : other ≠ name) : slots.set name value other = slots other :=
  Function.update_of_ne different _ _

theorem isSome_set (slots : Slots Value) (name other : ν) (value : Value name) :
    (slots.set name value other).isSome = (decide (other = name) || (slots other).isSome) := by
  by_cases same : other = name
  · subst same
    simp [set_same]
  · simp [set_of_ne same, same]

def ofEntries (entries : List (Entry Value)) : Slots Value :=
  entries.foldr (fun entry slots => slots.set entry.1 entry.2) empty

theorem isSome_ofEntries (entries : List (Entry Value)) (name : ν) :
    (ofEntries entries name).isSome = decide (name ∈ entries.map Sigma.fst) := by
  induction entries with
  | nil => rfl
  | cons entry entries induction =>
    have step : ofEntries (entry :: entries) = (ofEntries entries).set entry.1 entry.2 := rfl
    rw [step, isSome_set, induction, Bool.eq_iff_iff]
    simp only [Bool.or_eq_true, decide_eq_true_eq, List.map_cons, List.mem_cons]

theorem ofEntries_eq_some {entries : List (Entry Value)} (nodup : (entries.map Sigma.fst).Nodup)
    {name : ν} {value : Value name} :
    ofEntries entries name = some value ↔ ⟨name, value⟩ ∈ entries := by
  induction entries with
  | nil => simp [ofEntries, empty]
  | cons entry entries induction =>
    have step : ofEntries (entry :: entries) = (ofEntries entries).set entry.1 entry.2 := rfl
    rw [List.map_cons, List.nodup_cons] at nodup
    rcases entry with ⟨first, stored⟩
    rw [step, List.mem_cons]
    by_cases same : name = first
    · subst same
      have absent : (⟨name, value⟩ : Entry Value) ∉ entries :=
        fun member => nodup.1 (List.mem_map.mpr ⟨_, member, rfl⟩)
      simp [set_same, absent, eq_comm]
    · rw [set_of_ne same, induction nodup.2]
      simp [same]

theorem eq_ofEntries {slots : Slots Value} {entries : List (Entry Value)}
    (nodup : (entries.map Sigma.fst).Nodup)
    (only : ∀ name, (slots name).isSome → name ∈ entries.map Sigma.fst)
    (values : ∀ entry ∈ entries, slots entry.1 = some entry.2) :
    slots = ofEntries entries := by
  funext name
  by_cases listed : name ∈ entries.map Sigma.fst
  · rcases List.mem_map.mp listed with ⟨⟨_, value⟩, member, rfl⟩
    rw [values _ member, eq_comm]
    exact (ofEntries_eq_some nodup).mpr member
  · have unset : (slots name).isSome = false := by
      rw [← Bool.not_eq_true]
      exact fun isSet => listed (only name isSet)
    have unsetToo := isSome_ofEntries entries name
    rw [decide_eq_false listed] at unsetToo
    rw [Option.isSome_eq_false_iff, Option.isNone_iff_eq_none] at unset unsetToo
    rw [unset, unsetToo]

end Slots

/-! ## Slots as a record -/

section Schema

variable (key : ν → String) (write : (name : ν) → Value name → Bytes)

def slotSchema (names : List ν) : Schema (Slots Value) :=
  names.map fun name => (key name, fun slots => (slots name).map (write name))

theorem slotSchema_names (names : List ν) :
    (slotSchema key write names).map Prod.fst = names.map key := by
  simp [slotSchema, Function.comp_def]

variable {key write} {names : List ν}

theorem mem_slotRows {slots : Slots Value} {row : String × Bytes} :
    row ∈ presentRows ((slotSchema key write names).rows slots) ↔
      ∃ name ∈ names, ∃ value, slots name = some value ∧ row = (key name, write name value) := by
  rcases row with ⟨text, bytes⟩
  simp only [Schema.mem_presentRows, slotSchema, List.mem_map, Prod.mk.injEq]
  constructor
  · rintro ⟨_, ⟨name, listed, rfl⟩, rfl, spelled⟩
    rcases Option.map_eq_some_iff.mp spelled with ⟨value, stored, rfl⟩
    exact ⟨name, listed, value, stored, rfl, rfl⟩
  · rintro ⟨name, listed, value, stored, rfl, rfl⟩
    exact ⟨_, ⟨name, listed, rfl⟩, rfl, Option.map_eq_some_iff.mpr ⟨value, stored, rfl⟩⟩

variable [DecidableEq ν]

theorem slotSchema_stores (injective : Function.Injective key) {name : ν} (listed : name ∈ names)
    (before : Slots Value) (value : Value name) :
    (slotSchema key write names).Stores (key name) (write name value) before
      (before.set name value) := by
  constructor
  · rw [slotSchema_names]
    exact List.mem_map_of_mem listed
  · intro field member
    rcases List.mem_map.mp member with ⟨other, -, rfl⟩
    by_cases same : other = name
    · subst same
      simp [Slots.set_same]
    · have otherKey : key other ≠ key name := fun equal => same (injective equal)
      simp [Slots.set_of_ne same, otherKey]

variable (key write) in
theorem finish_slots (ascend : NamesAscend (names.map key)) (injective : Function.Injective key)
    (complete : ∀ name, name ∈ names) {entries : List (Entry Value)}
    (nodup : (entries.map Sigma.fst).Nodup) :
    (MapBuilder.ofRows (entries.map fun entry =>
        (key entry.1, some (write entry.1 entry.2)))).finish =
      mapBytes (presentRows ((slotSchema key write names).rows (.ofEntries entries))) := by
  have schemaAscend : NamesAscend ((slotSchema key write names).map Prod.fst) := by
    rwa [slotSchema_names]
  refine Schema.finish schemaAscend ?_
  have sorted := schemaAscend.sublist ((slotSchema key write names).rows_names (.ofEntries entries))
  have present : presentRows (entries.map fun entry =>
      (key entry.1, some (write entry.1 entry.2))) =
        entries.map fun entry => (key entry.1, write entry.1 entry.2) := by
    simp [presentRows, List.filterMap_map, List.filterMap_eq_map']
  rw [present]
  refine (List.perm_ext_iff_of_nodup ?_ sorted.nodup.of_map).mpr ?_
  · apply List.Nodup.of_map Prod.fst
    rw [List.map_map]
    have keys := nodup.map injective
    rwa [List.map_map] at keys
  · intro row
    rw [mem_slotRows, List.mem_map]
    constructor
    · rintro ⟨⟨name, value⟩, member, rfl⟩
      exact ⟨name, complete name, value, (Slots.ofEntries_eq_some nodup).mpr member, rfl⟩
    · rintro ⟨name, -, value, stored, rfl⟩
      exact ⟨_, (Slots.ofEntries_eq_some nodup).mp stored, rfl⟩

section Reading

variable {ε : Type} {depth : Nat} {field : String → Slots Value → Read ε (Slots Value)}

theorem slotRows (holds : Slots Value → Prop) {slots before : Slots Value}
    (step : ∀ name value before, slots name = some value → holds before →
      Accepts (field (key name) before) depth (before.set name value) (write name value) ∧
        holds (before.set name value))
    (nodup : names.Nodup) (start : holds before) (unset : ∀ name ∈ names, before name = none) :
    Rows field depth before (presentRows ((slotSchema key write names).rows slots))
      (fun name => if name ∈ names then slots name else before name) := by
  induction names generalizing before with
  | nil => simpa [slotSchema, Schema.rows, presentRows] using Rows.nil
  | cons name names induction =>
    rw [List.nodup_cons] at nodup
    rw [List.forall_mem_cons] at unset
    cases stored : slots name with
    | none =>
      have rows : presentRows ((slotSchema key write (name :: names)).rows slots) =
          presentRows ((slotSchema key write names).rows slots) := by
        simp [slotSchema, Schema.rows, presentRows, stored]
      have after : (fun other => if other ∈ name :: names then slots other else before other) =
          fun other => if other ∈ names then slots other else before other := by
        funext other
        by_cases same : other = name
        · subst same
          simp [nodup.1, stored, unset.1]
        · simp [same]
      rw [rows, after]
      exact induction nodup.2 start unset.2
    | some value =>
      have rows : presentRows ((slotSchema key write (name :: names)).rows slots) =
          (key name, write name value) ::
            presentRows ((slotSchema key write names).rows slots) := by
        simp [slotSchema, Schema.rows, presentRows, stored]
      have after : (fun other => if other ∈ name :: names then slots other else before other) =
          fun other => if other ∈ names then slots other else before.set name value other := by
        funext other
        by_cases same : other = name
        · subst same
          simp [nodup.1, stored, Slots.set_same]
        · simp [same, Slots.set_of_ne same]
      rcases step name value before stored start with ⟨accepts, kept⟩
      rw [rows, after]
      refine .cons accepts (induction nodup.2 kept fun other listed => ?_)
      have different : other ≠ name := fun same => nodup.1 (same ▸ listed)
      rw [Slots.set_of_ne different]
      exact unset.2 other listed

end Reading

end Schema

end EclipseOS.PolicyEval.Cbor

/-! ## Maps of slots

A map whose keys are read into slots, any of them absent, and a builder that writes
the slots it is given a value for. -/

namespace EclipseOS.PolicyEval.Cbor

open Foundation

variable {ν : Type} [DecidableEq ν] {Value : ν → Type}

abbrev Given (Value : ν → Type) := (name : ν) × Option (Value name)

namespace Slots

def present (given : List (Given Value)) : List (Entry Value) :=
  given.filterMap fun slot => slot.2.map (Sigma.mk slot.1)

def ofGiven (given : List (Given Value)) : Slots Value := ofEntries (present given)

omit [DecidableEq ν] in
theorem mem_present {given : List (Given Value)} {entry : Entry Value} :
    entry ∈ present given ↔ ⟨entry.1, some entry.2⟩ ∈ given := by
  rw [present, List.mem_filterMap]
  constructor
  · rintro ⟨⟨name, value⟩, member, found⟩
    cases value with
    | none => cases found
    | some stored =>
      cases Option.some.inj found
      exact member
  · exact fun member => ⟨_, member, rfl⟩

omit [DecidableEq ν] in
theorem present_sublist (given : List (Given Value)) :
    ((present given).map Sigma.fst).Sublist (given.map Sigma.fst) := by
  induction given with
  | nil => exact .slnil
  | cons slot given induction =>
    rcases slot with ⟨name, _ | value⟩
    · exact induction.cons _
    · exact induction.cons_cons _

theorem ofGiven_eq {given : List (Given Value)} (nodup : (given.map Sigma.fst).Nodup)
    {slot : Given Value} (member : slot ∈ given) : ofGiven given slot.1 = slot.2 := by
  have presentNodup := nodup.sublist (present_sublist given)
  rcases slot with ⟨name, value⟩
  cases value with
  | some value =>
    rw [ofGiven, ofEntries_eq_some presentNodup]
    exact mem_present.mpr member
  | none =>
    cases found : ofGiven given name with
    | none => rfl
    | some value =>
      have other := mem_present.mp ((ofEntries_eq_some presentNodup).mp found)
      have same := List.inj_on_of_nodup_map nodup other member rfl
      cases same

theorem mem_of_ofGiven {given : List (Given Value)} (nodup : (given.map Sigma.fst).Nodup)
    {name : ν} {value : Value name} (found : ofGiven given name = some value) :
    ⟨name, some value⟩ ∈ given :=
  mem_present.mp ((ofEntries_eq_some (nodup.sublist (present_sublist given))).mp found)

end Slots

section Maps

variable {key : ν → String} {write : (name : ν) → Value name → Bytes} {names : List ν}

variable (key write) in
theorem finish_given (ascend : NamesAscend (names.map key)) (injective : Function.Injective key)
    (complete : ∀ name, name ∈ names) {given : List (Given Value)}
    (nodup : (given.map Sigma.fst).Nodup) :
    (MapBuilder.ofRows (given.map fun slot => (key slot.1, slot.2.map (write slot.1)))).finish =
      mapBytes (presentRows ((slotSchema key write names).rows (.ofGiven given))) := by
  have rows : presentRows (given.map fun slot => (key slot.1, slot.2.map (write slot.1))) =
      presentRows ((Slots.present given).map fun entry =>
        (key entry.1, some (write entry.1 entry.2))) := by
    clear nodup
    induction given with
    | nil => rfl
    | cons slot given induction =>
      rcases slot with ⟨name, _ | value⟩
      · exact induction
      · exact congrArg ((key name, write name value) :: ·) induction
  have built := finish_slots key write ascend injective complete
    (nodup.sublist (Slots.present_sublist given))
  rw [MapBuilder.ofRows, rows]
  exact built

variable {ε : Type} [FromCbor ε]

def readSlot (parse : String → Option ν) (read : (name : ν) → Read ε (Value name)) (unknown : ε)
    (key : String) (slots : Slots Value) : Read ε (Slots Value) :=
  match parse key with
  | some name => return slots.set name (← read name)
  | none => throw unknown

variable {parse : String → Option ν} {read : (name : ν) → Read ε (Value name)} {unknown : ε}
  {depth : Nat} [∀ name, Local (read name)]

instance Local.readSlot (text : String) (slots : Slots Value) :
    Local (readSlot parse read unknown text slots) := by
  unfold Cbor.readSlot
  split <;> infer_instance

omit [FromCbor ε] in
theorem accepts_readSlot {text : String} {before after : Slots Value} {encoding : Bytes} :
    Accepts (readSlot parse read unknown text before) depth after encoding ↔
      ∃ name, parse text = some name ∧ ∃ value, Accepts (read name) depth value encoding ∧
        after = before.set name value := by
  cases parsed : parse text with
  | none => simp [readSlot, parsed, not_accepts_throw]
  | some name =>
    simp only [readSlot, parsed, accepts_store, Option.some.injEq, exists_eq_left']

theorem accepts_slots (ascend : NamesAscend (names.map key)) (fit : NamesFit (names.map key))
    (complete : ∀ name, name ∈ names) (parses : ∀ name, parse (key name) = some name)
    (room : depth < maxMapDepth) {slots : Slots Value}
    (each : ∀ name value, slots name = some value →
      Accepts (read name) (depth + 1) value (write name value)) :
    Accepts (readMap Slots.empty (readSlot parse read unknown)) depth slots
      (mapBytes (presentRows ((slotSchema key write names).rows slots))) := by
  have nodup : names.Nodup := ascend.nodup.of_map
  have step : ∀ name value (before : Slots Value), slots name = some value → True →
      Accepts (readSlot parse read unknown (key name) before) (depth + 1) (before.set name value)
        (write name value) ∧ True := by
    intro name value before stored _
    exact ⟨accepts_readSlot.mpr ⟨name, parses name, value, each name value stored, rfl⟩, trivial⟩
  have filled : (fun name => if name ∈ names then slots name else Slots.empty name) = slots := by
    funext name
    rw [if_pos (complete name)]
  have rows := @slotRows _ _ _ _ _ _ _ _ _ (fun _ => True) _ Slots.empty step nodup trivial fun name
      _ => rfl
  rw [filled] at rows
  refine .record ?_ ?_ room rows
  · rwa [slotSchema_names]
  · rwa [slotSchema_names]

omit [FromCbor ε] in
theorem Rows.filled {before after : Slots Value} {rows : List (String × Bytes)}
    (chain : Rows (Cbor.readSlot parse read unknown) depth before rows after) {name : ν}
    {value : Value name} (found : after name = some value) :
    before name = some value ∨ ∃ row ∈ rows, Accepts (read name) depth value row.2 := by
  induction chain with
  | nil => exact .inl found
  | cons step _ induction =>
    rcases accepts_readSlot.mp step with ⟨other, -, stored, accepts, rfl⟩
    rcases induction found with middle | ⟨row, member, accepted⟩
    · by_cases same : name = other
      · subst same
        rw [Slots.set_same] at middle
        cases middle
        exact .inr ⟨_, List.mem_cons_self, accepts⟩
      · rw [Slots.set_of_ne same] at middle
        exact .inl middle
    · exact .inr ⟨row, List.mem_cons_of_mem _ member, accepted⟩

theorem reads_of_accepts_slots {slots : Slots Value} {encoding : Bytes}
    (accepts : Accepts (readMap Slots.empty (readSlot parse read unknown)) depth slots encoding)
    {name : ν} {value : Value name} (found : slots name = some value) :
    ∃ part, Accepts (read name) (depth + 1) value part ∧ part.length ≤ encoding.length := by
  rcases accepts_readMap.mp accepts with ⟨-, rows, -, rfl, -, -, chain⟩
  rcases chain.filled found with unset | ⟨row, member, accepted⟩
  · cases unset
  · exact ⟨row.2, accepted, length_le_mapBytes member⟩

end Maps

end EclipseOS.PolicyEval.Cbor
