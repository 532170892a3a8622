import EclipseOS.PolicyEval.Cbor.Framed

/-! # Items as trees

An item of the profile with its parts, and what skipping takes of such trees: their keys,
and how deep they may be nested. -/

namespace EclipseOS.PolicyEval.Cbor

open Foundation

inductive Key where
  | text (name : String)
  | label (value : Int64)
  deriving DecidableEq

namespace Key

def encode : Key → Bytes
  | text name => Writer.text name
  | label value => Writer.i64 value

def Fits : Key → Prop
  | text name => (utf8 name).length < 2 ^ 64
  | label _ => True

def IsText : Key → Prop
  | text _ => True
  | label _ => False

theorem framed {key : Key} (fits : key.Fits) : Framed key.encode := by
  cases key with
  | text name => exact (show Item 0 (Writer.text name) from .text (utf8 name) fits).framed
  | label value => exact (show Item 0 (Writer.i64 value) from .ofI64 value).framed

theorem text_ne_label {name : String} {value : Int64} (fits : (utf8 name).length < 2 ^ 64) :
    Writer.text name ≠ Writer.i64 value := by
  intro same
  have textFits : HeadFits majorText (utf8 name).length :=
    (headFits_iff majorText (by decide) (by decide)).mpr fits
  have upper := value.toInt_lt
  have lower := value.le_toInt
  rw [Writer.text, Writer.i64] at same
  split at same
  · have natural : HeadFits majorUint value.toInt.toNat :=
      (headFits_iff majorUint (by decide) (by decide)).mpr (by omega)
    rw [← List.append_nil (Writer.head majorUint _)] at same
    exact absurd (Framed.head_append_inj textFits natural same).1 (by decide)
  · have negative : HeadFits majorNegint (-value.toInt - 1).toNat :=
      (headFits_iff majorNegint (by decide) (by decide)).mpr (by omega)
    rw [← List.append_nil (Writer.head majorNegint _)] at same
    exact absurd (Framed.head_append_inj textFits negative same).1 (by decide)

theorem encode_inj {left right : Key} (leftFits : left.Fits) (rightFits : right.Fits)
    (same : left.encode = right.encode) : left = right := by
  cases left with
  | text name =>
    cases right with
    | text other =>
      have first : Accepts (Cbor.text : Read Error String) 0 name (Writer.text name) :=
        accepts_text.mpr ⟨rfl, leftFits⟩
      have second : Accepts (Cbor.text : Read Error String) 0 other (Writer.text other) :=
        accepts_text.mpr ⟨rfl, rightFits⟩
      rw [(first.unique [] [] second (congrArg (· ++ []) same)).1]
    | label value => exact absurd same (text_ne_label leftFits)
  | label value =>
    cases right with
    | text name => exact absurd same.symm (text_ne_label rightFits)
    | label other =>
      have first : Accepts (i64 : Read Error Int64) 0 value (Writer.i64 value) :=
        accepts_i64 value
      have second : Accepts (i64 : Read Error Int64) 0 other (Writer.i64 other) :=
        accepts_i64 other
      rw [(first.unique [] [] second (congrArg (· ++ []) same)).1]

end Key

inductive Tree where
  | uint (arg : UInt64)
  | negint (arg : UInt64)
  | bytes (value : Bytes)
  | text (value : Bytes)
  | array (items : List Tree)
  | map (rows : List (Key × Tree))
  | bool (value : Bool)
  | null

namespace Tree

def parts : Tree → List Tree
  | array items => items
  | map rows => rows.map Prod.snd
  | _ => []

theorem sizeOf_part {tree part : Tree} (member : part ∈ tree.parts) :
    sizeOf part < sizeOf tree := by
  cases tree with
  | array items =>
    have smaller : sizeOf part < sizeOf items := List.sizeOf_lt_of_mem member
    simp only [array.sizeOf_spec]
    omega
  | map rows =>
    obtain ⟨⟨key, value⟩, listed, same⟩ := List.mem_map.mp member
    subst same
    have smaller := List.sizeOf_lt_of_mem listed
    simp only [map.sizeOf_spec, Prod.mk.sizeOf_spec] at smaller ⊢
    omega
  | _ => cases member

@[elab_as_elim]
theorem inductParts {motive : Tree → Prop}
    (step : ∀ tree, (∀ part ∈ tree.parts, motive part) → motive tree) (tree : Tree) : motive tree :=
  step tree fun part member =>
    have := sizeOf_part member
    inductParts step part
termination_by sizeOf tree

mutual

def encode : Tree → Bytes
  | uint arg => Writer.head majorUint arg.toNat
  | negint arg => Writer.head majorNegint arg.toNat
  | bytes value => Writer.head majorBytes value.length ++ value
  | text value => Writer.head majorText value.length ++ value
  | array items => Writer.array items.length ++ encodeItems items
  | map rows => Writer.map rows.length ++ encodeRows rows
  | bool value => Writer.bool value
  | null => Writer.null

def encodeItems : List Tree → Bytes
  | [] => []
  | item :: items => item.encode ++ encodeItems items

def encodeRows : List (Key × Tree) → Bytes
  | [] => []
  | (key, value) :: rows => key.encode ++ (value.encode ++ encodeRows rows)

end

attribute [local simp] encode in
theorem encodeItems_eq (items : List Tree) : encodeItems items = items.flatMap encode := by
  induction items with
  | nil => rfl
  | cons item items induction => rw [encodeItems, induction, List.flatMap_cons]

theorem encodeRows_eq (rows : List (Key × Tree)) :
    encodeRows rows = rows.flatMap fun row => row.1.encode ++ row.2.encode := by
  induction rows with
  | nil => rfl
  | cons row rows induction =>
    rw [encodeRows, induction, List.flatMap_cons, List.append_assoc]

/-! ## Nesting -/

mutual

/-- The most that the items on a path come to. -/
def weigh (own : Tree → Nat) : Tree → Nat
  | array items => own (array items) + weighItems own items
  | map rows => own (map rows) + weighRows own rows
  | leaf => own leaf

def weighItems (own : Tree → Nat) : List Tree → Nat
  | [] => 0
  | item :: items => max (item.weigh own) (weighItems own items)

def weighRows (own : Tree → Nat) : List (Key × Tree) → Nat
  | [] => 0
  | (_, value) :: rows => max (value.weigh own) (weighRows own rows)

end

section Weigh

variable {own first second : Tree → Nat}

theorem weighItems_le_iff {most : Nat} {items : List Tree} :
    weighItems own items ≤ most ↔ ∀ item ∈ items, item.weigh own ≤ most := by
  induction items with
  | nil => simp [weighItems]
  | cons item items induction => simp [weighItems, induction]

variable (own) in
theorem weigh_le_items {items : List Tree} {item : Tree} (member : item ∈ items) :
    item.weigh own ≤ weighItems own items :=
  weighItems_le_iff.mp (Nat.le_refl _) item member

theorem weighRows_eq (rows : List (Key × Tree)) :
    weighRows own rows = weighItems own (rows.map Prod.snd) := by
  induction rows with
  | nil => rfl
  | cons row rows induction => rw [weighRows, induction, List.map_cons, weighItems]

variable (own) in
theorem weigh_eq (tree : Tree) : tree.weigh own = own tree + weighItems own tree.parts := by
  cases tree with
  | array items => rfl
  | map rows => rw [weigh, weighRows_eq, parts]
  | _ => rfl

theorem weigh_mono (le : ∀ tree, first tree ≤ second tree) (tree : Tree) :
    tree.weigh first ≤ tree.weigh second := by
  induction tree using inductParts with
  | step tree induction =>
    have deepest : weighItems first tree.parts ≤ weighItems second tree.parts := by
      rw [weighItems_le_iff]
      intro part member
      exact (induction part member).trans (weigh_le_items second member)
    rw [weigh_eq first, weigh_eq second]
    exact Nat.add_le_add (le tree) deepest

theorem weigh_le_add (split : ∀ tree, own tree ≤ first tree + second tree) (tree : Tree) :
    tree.weigh own ≤ tree.weigh first + tree.weigh second := by
  induction tree using inductParts with
  | step tree induction =>
    have deepest : weighItems own tree.parts ≤
        weighItems first tree.parts + weighItems second tree.parts := by
      rw [weighItems_le_iff]
      intro part member
      have both := induction part member
      have firstMost := weigh_le_items first member
      have secondMost := weigh_le_items second member
      omega
    have here := split tree
    rw [weigh_eq own, weigh_eq first, weigh_eq second]
    omega

end Weigh

def isArray : Tree → Bool
  | array _ => true
  | _ => false

def isMap : Tree → Bool
  | map _ => true
  | _ => false

def nesting : Tree → Nat := weigh fun tree => (tree.isArray || tree.isMap).toNat

def arrayNesting : Tree → Nat := weigh fun tree => tree.isArray.toNat

def mapNesting : Tree → Nat := weigh fun tree => tree.isMap.toNat

def levels : Tree → Nat := weigh fun _ => 1

theorem nesting_le (tree : Tree) : tree.nesting ≤ tree.arrayNesting + tree.mapNesting := by
  apply weigh_le_add
  intro tree
  cases tree.isArray <;> cases tree.isMap <;> decide

theorem arrayNesting_le (tree : Tree) : tree.arrayNesting ≤ tree.nesting := by
  apply weigh_mono
  intro tree
  cases tree.isArray <;> cases tree.isMap <;> decide

theorem nesting_le_levels (tree : Tree) : tree.nesting ≤ tree.levels := by
  apply weigh_mono
  intro tree
  cases tree.isArray <;> cases tree.isMap <;> decide

theorem levels_le (tree : Tree) : tree.levels ≤ tree.nesting + 1 := by
  have split : tree.levels ≤
      tree.nesting + tree.weigh fun tree => (!(tree.isArray || tree.isMap)).toNat := by
    apply weigh_le_add
    intro tree
    cases tree.isArray <;> cases tree.isMap <;> decide
  have leaf : (tree.weigh fun tree => (!(tree.isArray || tree.isMap)).toNat) ≤ 1 := by
    clear split
    induction tree using inductParts with
    | step tree induction =>
      have deepest := weighItems_le_iff.mpr induction
      rw [weigh_eq]
      cases tree with
      | array items => simpa [isArray] using deepest
      | map rows => simpa [isArray, isMap] using deepest
      | _ => exact Nat.le_refl 1
  omega

/-! ## The profile -/

/-- Something that holds of an item and of all items in it. -/
inductive Throughout (holds : Tree → Prop) : Tree → Prop where
  | node {tree : Tree} (here : holds tree) (parts : ∀ part ∈ tree.parts, Throughout holds part) :
      Throughout holds tree

theorem throughout_iff {holds : Tree → Prop} {tree : Tree} :
    tree.Throughout holds ↔ holds tree ∧ ∀ part ∈ tree.parts, part.Throughout holds := by
  constructor
  · intro ⟨here, parts⟩
    exact ⟨here, parts⟩
  · intro ⟨here, parts⟩
    exact .node here parts

/-- A head can count what the item has, and its keys strictly ascend. -/
def Fits : Tree → Prop
  | bytes value | text value => value.length < 2 ^ 64
  | array items => items.length < 2 ^ 64
  | map rows => rows.length < 2 ^ 64 ∧ (rows.map fun row => row.1.encode).Pairwise (· < ·) ∧
      ∀ row ∈ rows, row.1.Fits
  | _ => True

def TextKeys : Tree → Prop
  | map rows => ∀ row ∈ rows, row.1.IsText
  | _ => True

/-- Shortest heads, definite lengths and strictly ascending keys. -/
abbrev Canonical (tree : Tree) : Prop := tree.Throughout Fits

/-- What skipping takes with `depth` maps open. -/
structure Skippable (depth : Nat) (tree : Tree) : Prop where
  canonical : tree.Canonical
  textKeys : tree.Throughout TextKeys
  shallow : tree.mapNesting ≤ maxMapDepth - depth

theorem skippable_iff {depth : Nat} {tree : Tree} :
    tree.Skippable depth ↔ tree.Fits ∧ tree.TextKeys ∧
      (tree.isMap = true → depth < maxMapDepth) ∧
      ∀ part ∈ tree.parts, part.Skippable (depth + tree.isMap.toNat) := by
  have parts : tree.mapNesting ≤ maxMapDepth - depth ↔
      (tree.isMap = true → depth < maxMapDepth) ∧
        ∀ part ∈ tree.parts, part.mapNesting ≤ maxMapDepth - (depth + tree.isMap.toNat) := by
    have deepest : weighItems (fun tree => tree.isMap.toNat) tree.parts ≤
        maxMapDepth - (depth + tree.isMap.toNat) ↔
        ∀ part ∈ tree.parts, part.mapNesting ≤ maxMapDepth - (depth + tree.isMap.toNat) :=
      weighItems_le_iff
    rw [← deepest, mapNesting, weigh_eq]
    cases tree.isMap <;> simp
    omega
  constructor
  · intro ⟨canonical, textKeys, shallow⟩
    obtain ⟨room, partsShallow⟩ := parts.mp shallow
    obtain ⟨fits, partsCanonical⟩ := throughout_iff.mp canonical
    obtain ⟨keys, partsKeys⟩ := throughout_iff.mp textKeys
    exact ⟨fits, keys, room, fun part member =>
      ⟨partsCanonical part member, partsKeys part member, partsShallow part member⟩⟩
  · intro ⟨fits, keys, room, each⟩
    exact ⟨.node fits fun part member => (each part member).canonical,
      .node keys fun part member => (each part member).textKeys,
      parts.mpr ⟨room, fun part member => (each part member).shallow⟩⟩

/-! ## Skipping a tree -/

section Skipping

variable {ε : Type} [FromCbor ε] {depth fuel : Nat} {tree : Tree} {encoding : Bytes}

private theorem accepts_headed {arg : Nat} {major : UInt8} {second : Bytes}
    (fits : HeadFits major arg)
    (argument : Accepts (skipArgument fuel major arg : Read ε Unit) depth () second) :
    Accepts (skipWithin (fuel + 1) : Read ε Unit) depth () (Writer.head major arg ++ second) := by
  rw [skipWithin_succ]
  exact (accepts_head.mpr ⟨rfl, fits⟩).bind argument

theorem rows_of_textKeys {rows : List (Key × Tree)} (keys : ∀ row ∈ rows, row.1.IsText) :
    ∃ named : List (String × Tree), rows = named.map fun row => (.text row.1, row.2) := by
  induction rows with
  | nil => exact ⟨[], rfl⟩
  | cons row rows induction =>
    obtain ⟨first, rest⟩ := List.forall_mem_cons.mp keys
    obtain ⟨named, same⟩ := induction rest
    obtain ⟨key, value⟩ := row
    cases key with
    | text name => exact ⟨(name, value) :: named, by rw [same, List.map_cons]⟩
    | label value => exact first.elim

theorem Skippable.accepts_skipWithin (skippable : tree.Skippable depth)
    (enough : tree.levels ≤ fuel) :
    Accepts (skipWithin fuel : Read ε Unit) depth () tree.encode := by
  induction tree using inductParts generalizing depth fuel with
  | step tree induction =>
    obtain ⟨fits, keys, room, each⟩ := skippable_iff.mp skippable
    rw [levels, weigh_eq] at enough
    obtain ⟨below, same⟩ : ∃ below, fuel = below + 1 := ⟨fuel - 1, by omega⟩
    subst same
    have parts (part : Tree) (member : part ∈ tree.parts) :
        Accepts (skipWithin below : Read ε Unit) (depth + tree.isMap.toNat) () part.encode := by
      apply induction part member (each part member)
      have within := weigh_le_items (fun _ => 1) member
      exact within.trans (by omega)
    have plain {major : UInt8} {arg : Nat} (bound : major < 8) (other : major ≠ majorSimple)
        (small : arg < 2 ^ 64) : HeadFits major arg :=
      (headFits_iff major bound other).mpr small
    cases tree with
    | uint arg =>
      rw [encode, ← List.append_nil (Writer.head _ _)]
      apply accepts_headed (plain (by decide) (by decide) arg.toNat_lt)
      simp [skipArgument]
    | negint arg =>
      rw [encode, ← List.append_nil (Writer.head _ _)]
      apply accepts_headed (plain (by decide) (by decide) arg.toNat_lt)
      simp [skipArgument]
    | bytes value =>
      apply accepts_headed (plain (by decide) (by decide) fits)
      simp only [skipArgument, accepts_ite, accepts_bind, accepts_take, accepts_pure]
      exact .inr ⟨by decide, .inl ⟨.inl trivial, value, value, [], by simp⟩⟩
    | text value =>
      apply accepts_headed (plain (by decide) (by decide) fits)
      simp only [skipArgument, accepts_ite, accepts_bind, accepts_take, accepts_pure]
      exact .inr ⟨by decide, .inl ⟨.inr trivial, value, value, [], by simp⟩⟩
    | array items =>
      apply accepts_headed (plain (by decide) (by decide) fits)
      simp only [skipArgument, accepts_ite]
      have skipped := accepts_times.mpr ⟨items.map encode, List.length_map _,
        (encodeItems_eq items).trans List.flatMap_def, List.forall_mem_map.mpr parts⟩
      exact .inr ⟨by decide, .inr ⟨by decide, .inl ⟨trivial, skipped⟩⟩⟩
    | map rows =>
      obtain ⟨named, same⟩ := rows_of_textKeys keys
      subst same
      obtain ⟨few, ascend, keysFit⟩ := fits
      have whole : (map (named.map fun row => (.text row.1, row.2))).encode =
          Writer.head majorMap named.length ++
            (named.map fun row => (row.1, row.2.encode)).flatMap rowBytes := by
        rw [encode, encodeRows_eq, List.length_map, List.flatMap_map, List.flatMap_map]
        rfl
      have skipped : Accepts
          (mapItems () (fun _ _ => skipWithin below) named.length : Read ε Unit) depth ()
          ((named.map fun row => (row.1, row.2.encode)).flatMap rowBytes) := by
        refine accepts_mapItems.mpr ⟨room rfl, _, List.length_map _, rfl, ?_, ?_, ?_⟩
        · rw [keysAscend_iff, NamesAscend]
          simpa [List.map_map, Function.comp_def, Key.encode] using ascend
        · exact List.forall_mem_map.mpr (List.forall_mem_map.mp keysFit)
        · rw [rows_constant]
          intro _ member
          obtain ⟨row, listed, same⟩ := List.mem_map.mp member
          subst same
          apply parts row.2
          simp only [Tree.parts, List.map_map, List.mem_map]
          exact ⟨row, listed, rfl⟩
      rw [List.length_map] at few
      rw [whole]
      apply accepts_headed (plain (by decide) (by decide) few)
      simp only [skipArgument, accepts_ite]
      exact .inr ⟨by decide, .inr ⟨by decide, .inr ⟨by decide, .inl ⟨trivial, skipped⟩⟩⟩⟩
    | bool value =>
      have whole : (bool value).encode = Writer.head majorSimple (if value then 21 else 20) ++
          [] := by
        cases value <;> rfl
      rw [whole]
      apply accepts_headed ⟨by decide, by split <;> decide, fun _ => by split <;> decide⟩
      cases value <;> simp [skipArgument, majorSimple, majorText, majorBytes, majorUint,
        majorNegint, majorArray, majorMap]
    | null =>
      have whole : null.encode = Writer.head majorSimple 22 ++ [] := rfl
      rw [whole]
      apply accepts_headed ⟨by decide, by decide, fun _ => by decide⟩
      simp [skipArgument, majorSimple, majorText, majorBytes, majorUint, majorNegint,
        majorArray, majorMap]

private theorem exists_list_map {α β : Type} {make : β → α} {holds : β → Prop} {items : List α}
    (each : ∀ item ∈ items, ∃ value, make value = item ∧ holds value) :
    ∃ values : List β, items = values.map make ∧ ∀ value ∈ values, holds value := by
  induction items with
  | nil => exact ⟨[], rfl, nofun⟩
  | cons item items induction =>
    obtain ⟨⟨value, same, first⟩, rest⟩ := List.forall_mem_cons.mp each
    obtain ⟨values, equal, others⟩ := induction rest
    refine ⟨value :: values, ?_, List.forall_mem_cons.mpr ⟨first, others⟩⟩
    rw [List.map_cons, same, equal]

theorem exists_tree_of_skipWithin (accepts : Accepts (skipWithin fuel : Read ε Unit) depth ()
    encoding) :
    ∃ tree : Tree, tree.encode = encoding ∧ tree.Skippable depth ∧ tree.levels ≤ fuel := by
  induction fuel generalizing depth encoding with
  | zero => exact absurd accepts not_accepts_fail
  | succ fuel induction =>
    rw [skipWithin_succ, accepts_bind] at accepts
    obtain ⟨⟨major, arg⟩, _, second, whole, readHead, argument⟩ := accepts
    obtain ⟨spelled, fits⟩ := accepts_head.mp readHead
    subst whole spelled
    have node (tree : Tree) (isFit : tree.Fits) (keys : tree.TextKeys)
        (room : tree.isMap = true → depth < maxMapDepth)
        (each : ∀ part ∈ tree.parts,
          part.Skippable (depth + tree.isMap.toNat) ∧ part.levels ≤ fuel) :
        tree.Skippable depth ∧ tree.levels ≤ fuel + 1 := by
      refine ⟨skippable_iff.mpr ⟨isFit, keys, room, fun part member => (each part member).1⟩, ?_⟩
      have deepest := weighItems_le_iff.mpr fun part member => (each part member).2
      rw [levels, weigh_eq]
      omega
    have noMap {room : Prop} (isMap : false = true) : room := by cases isMap
    simp only [skipArgument, accepts_ite, accepts_pure, accepts_bind, accepts_take,
      accepts_times, accepts_mapItems, not_accepts_fail, true_and, and_false,
      or_false] at argument
    rcases argument with ⟨isUint | isNegint, rfl⟩ | ⟨-, argument⟩
    · subst isUint
      refine ⟨.uint (UInt64.ofNat arg), ?_, node _ trivial trivial noMap (List.forall_mem_nil _)⟩
      rw [encode, UInt64.toNat_ofNat_of_lt' fits.2.1, List.append_nil]
    · subst isNegint
      refine ⟨.negint (UInt64.ofNat arg), ?_, node _ trivial trivial noMap (List.forall_mem_nil _)⟩
      rw [encode, UInt64.toNat_ofNat_of_lt' fits.2.1, List.append_nil]
    rcases argument with ⟨rfl | rfl, value, _, _, rfl, ⟨rfl, rfl⟩, rfl⟩ | ⟨-, argument⟩
    · exact ⟨.bytes value, by rw [encode, List.append_nil],
        node _ fits.2.1 trivial noMap (List.forall_mem_nil _)⟩
    · exact ⟨.text value, by rw [encode, List.append_nil], node _ fits.2.1 trivial noMap (List.forall_mem_nil _)⟩
    rcases argument with ⟨rfl, parts, rfl, rfl, items⟩ | ⟨-, argument⟩
    · obtain ⟨trees, spelled, each⟩ := exists_list_map fun part member =>
        induction (items part member)
      subst spelled
      refine ⟨.array trees, ?_, node _ ?_ trivial noMap each⟩
      · rw [encode, encodeItems_eq, List.flatMap_def, List.length_map]
        rfl
      · have few := fits.2.1
        rwa [List.length_map] at few
    rcases argument with ⟨rfl, room, rows, rfl, rfl, ascend, keysFit, chain⟩ |
      ⟨-, ⟨rfl, least, most⟩, rfl⟩
    · have make (row : String × Bytes) (member : row ∈ rows) :
          ∃ named : String × Tree, (named.1, named.2.encode) = row ∧
            named.2.Skippable (depth + 1) ∧ named.2.levels ≤ fuel := by
        obtain ⟨tree, same, holds⟩ := induction (rows_constant.mp chain row member)
        exact ⟨(row.1, tree), by rw [same], holds⟩
      obtain ⟨named, spelled, each⟩ := exists_list_map make
      subst spelled
      have few := fits.2.1
      rw [List.length_map] at few
      refine ⟨.map (named.map fun row => (.text row.1, row.2)), ?_, node _ ⟨?_, ?_, ?_⟩ ?_ ?_ ?_⟩
      · rw [encode, encodeRows_eq, List.length_map, List.length_map, List.flatMap_map,
          List.flatMap_map]
        rfl
      · rwa [List.length_map]
      · rw [keysAscend_iff, NamesAscend] at ascend
        simpa [List.map_map, Function.comp_def, Key.encode] using ascend
      · exact List.forall_mem_map.mpr fun row member =>
          keysFit (row.1, row.2.encode) (List.mem_map_of_mem member)
      · exact List.forall_mem_map.mpr fun _ _ => trivial
      · exact fun _ => room
      · intro part member
        simp only [Tree.parts, List.map_map, List.mem_map] at member
        obtain ⟨row, listed, same⟩ := member
        subst same
        exact each row listed
    · have choices : arg = 20 ∨ arg = 21 ∨ arg = 22 := by omega
      obtain rfl | rfl | rfl := choices
      · exact ⟨.bool false, rfl, node _ trivial trivial noMap (List.forall_mem_nil _)⟩
      · exact ⟨.bool true, rfl, node _ trivial trivial noMap (List.forall_mem_nil _)⟩
      · exact ⟨.null, rfl, node _ trivial trivial noMap (List.forall_mem_nil _)⟩

theorem accepts_skip_iff :
    Accepts (skip : Read ε Unit) depth () encoding ↔
      ∃ tree : Tree, tree.encode = encoding ∧ tree.Skippable depth := by
  rw [accepts_skip]
  constructor
  · intro item
    have accepts : Accepts (skipWithin encoding.length : Read Error Unit) depth () encoding :=
      accepts_of_item item (Nat.le_refl _)
    obtain ⟨tree, spelled, skippable, -⟩ := exists_tree_of_skipWithin accepts
    exact ⟨tree, spelled, skippable⟩
  · intro ⟨tree, spelled, skippable⟩
    subst spelled
    have accepts : Accepts (skipWithin tree.levels : Read Error Unit) depth () tree.encode :=
      skippable.accepts_skipWithin (Nat.le_refl _)
    exact item_of_accepts accepts

end Skipping

/-! ## Bytes determine their tree -/

/-- The major type and the argument of an item's head. -/
def head : Tree → UInt8 × Nat
  | uint arg => (majorUint, arg.toNat)
  | negint arg => (majorNegint, arg.toNat)
  | bytes value => (majorBytes, value.length)
  | text value => (majorText, value.length)
  | array items => (majorArray, items.length)
  | map rows => (majorMap, rows.length)
  | bool value => (majorSimple, if value then 21 else 20)
  | null => (majorSimple, 22)

def body : Tree → Bytes
  | bytes value | text value => value
  | array items => encodeItems items
  | map rows => encodeRows rows
  | _ => []

theorem encode_eq (tree : Tree) :
    tree.encode = Writer.head tree.head.1 tree.head.2 ++ tree.body := by
  cases tree with
  | uint | negint => exact (List.append_nil _).symm
  | bool value => cases value <;> rfl
  | _ => rfl

theorem headFits {tree : Tree} (fits : tree.Fits) : HeadFits tree.head.1 tree.head.2 := by
  cases tree with
  | uint arg => exact (headFits_iff majorUint (by decide) (by decide)).mpr arg.toNat_lt
  | negint arg => exact (headFits_iff majorNegint (by decide) (by decide)).mpr arg.toNat_lt
  | bytes => exact (headFits_iff majorBytes (by decide) (by decide)).mpr fits
  | text => exact (headFits_iff majorText (by decide) (by decide)).mpr fits
  | array => exact (headFits_iff majorArray (by decide) (by decide)).mpr fits
  | map => exact (headFits_iff majorMap (by decide) (by decide)).mpr fits.1
  | bool value =>
    show HeadFits majorSimple (if value then 21 else 20)
    exact ⟨by decide, by split <;> decide, fun _ => by split <;> decide⟩
  | null =>
    show HeadFits majorSimple 22
    exact ⟨by decide, by decide, fun _ => by decide⟩

def rowParts (rows : List (Key × Tree)) : List Bytes :=
  rows.flatMap fun row => [row.1.encode, row.2.encode]

theorem flatten_rowParts (rows : List (Key × Tree)) :
    (rowParts rows).flatten = encodeRows rows := by
  induction rows with
  | nil => rfl
  | cons row rows induction =>
    rw [encodeRows, ← induction, rowParts, List.flatMap_cons, List.flatten_append]
    simp [rowParts]

theorem length_rowParts (rows : List (Key × Tree)) : (rowParts rows).length = 2 * rows.length := by
  simp [rowParts, List.length_flatMap, Nat.mul_comm]

private theorem framed_parts {rows : List (Key × Tree)} (keys : ∀ row ∈ rows, row.1.Fits)
    (values : ∀ value ∈ rows.map Prod.snd, Framed value.encode) :
    ∀ part ∈ rowParts rows, Framed part := by
  intro part member
  obtain ⟨row, listed, inRow⟩ := List.mem_flatMap.mp member
  simp only [List.mem_cons, List.not_mem_nil, or_false] at inRow
  obtain isKey | isValue := inRow
  · exact isKey ▸ Key.framed (keys row listed)
  · exact isValue ▸ values row.2 (List.mem_map_of_mem listed)

theorem framed_of_canonical {tree : Tree} (canonical : tree.Canonical) : Framed tree.encode := by
  induction tree using inductParts with
  | step tree induction =>
    obtain ⟨fits, parts⟩ := throughout_iff.mp canonical
    have framed (part : Tree) (member : part ∈ tree.parts) : Framed part.encode :=
      induction part member (parts part member)
    have of (payload : Bytes) (parts : List Bytes)
        (sized : payload.length = payloadLength tree.head.1 tree.head.2)
        (counted : parts.length = partCount tree.head.1 tree.head.2)
        (framed : ∀ part ∈ parts, Framed part) (whole : tree.body = payload ++ parts.flatten) :
        Framed tree.encode := by
      rw [encode_eq, whole]
      exact .node payload parts (headFits fits) sized counted framed
    cases tree with
    | uint | negint | bool | null => exact of [] [] rfl rfl nofun rfl
    | bytes value | text value => exact of value [] rfl rfl nofun (List.append_nil _).symm
    | array items =>
      apply of [] (items.map encode) rfl (List.length_map _) (List.forall_mem_map.mpr framed)
      rw [List.nil_append, body, encodeItems_eq, List.flatMap_def]
    | map rows =>
      apply of [] (rowParts rows) rfl (length_rowParts rows) (framed_parts fits.2.2 framed)
      rw [List.nil_append, body, flatten_rowParts]

private theorem items_inj {lefts rights : List Tree}
    (each : ∀ left ∈ lefts, ∀ right ∈ rights, left.encode = right.encode → left = right)
    (same : lefts.map encode = rights.map encode) : lefts = rights := by
  induction lefts generalizing rights with
  | nil => exact (List.map_eq_nil_iff.mp same.symm).symm
  | cons left lefts induction =>
    cases rights with
    | nil => cases same
    | cons right rights =>
      rw [List.map_cons, List.map_cons, List.cons.injEq] at same
      have first := each left List.mem_cons_self right List.mem_cons_self same.1
      have rest := induction (fun left inLefts right inRights =>
        each left (List.mem_cons_of_mem _ inLefts) right (List.mem_cons_of_mem _ inRights))
        same.2
      rw [first, rest]

private theorem rows_inj {lefts rights : List (Key × Tree)}
    (leftKeys : ∀ row ∈ lefts, row.1.Fits) (rightKeys : ∀ row ∈ rights, row.1.Fits)
    (each : ∀ left ∈ lefts, ∀ right ∈ rights, left.2.encode = right.2.encode → left.2 = right.2)
    (same : rowParts lefts = rowParts rights) : lefts = rights := by
  induction lefts generalizing rights with
  | nil =>
    cases rights with
    | nil => rfl
    | cons right rights => cases same
  | cons left lefts induction =>
    cases rights with
    | nil => cases same
    | cons right rights =>
      rw [List.forall_mem_cons] at leftKeys rightKeys
      simp only [rowParts, List.flatMap_cons, List.cons_append, List.nil_append,
        List.cons.injEq] at same
      have sameKey := Key.encode_inj leftKeys.1 rightKeys.1 same.1
      have sameValue := each left List.mem_cons_self right List.mem_cons_self same.2.1
      have rest := induction leftKeys.2 rightKeys.2 (fun left inLefts right inRights =>
        each left (List.mem_cons_of_mem _ inLefts) right (List.mem_cons_of_mem _ inRights))
        same.2.2
      rw [Prod.ext sameKey sameValue, rest]

theorem encode_inj {left right : Tree} (first : left.Canonical) (second : right.Canonical)
    (same : left.encode = right.encode) : left = right := by
  induction left using inductParts generalizing right with
  | step left induction =>
    obtain ⟨leftFits, leftParts⟩ := throughout_iff.mp first
    obtain ⟨rightFits, rightParts⟩ := throughout_iff.mp second
    have each (leftPart : Tree) (inLeft : leftPart ∈ left.parts) (rightPart : Tree)
        (inRight : rightPart ∈ right.parts) (same : leftPart.encode = rightPart.encode) :
        leftPart = rightPart :=
      induction leftPart inLeft (leftParts leftPart inLeft) (rightParts rightPart inRight) same
    have leftFramed (part : Tree) (member : part ∈ left.parts) : Framed part.encode :=
      framed_of_canonical (leftParts part member)
    have rightFramed (part : Tree) (member : part ∈ right.parts) : Framed part.encode :=
      framed_of_canonical (rightParts part member)
    rw [encode_eq, encode_eq right] at same
    obtain ⟨sameMajor, sameArg, sameBody⟩ :=
      Framed.head_append_inj (headFits leftFits) (headFits rightFits) same
    cases left with
    | uint arg =>
      cases right with
      | uint other => exact congrArg uint (UInt64.toNat_inj.mp sameArg)
      | _ => exact absurd sameMajor (by simp only [head]; decide)
    | negint arg =>
      cases right with
      | negint other => exact congrArg negint (UInt64.toNat_inj.mp sameArg)
      | _ => exact absurd sameMajor (by simp only [head]; decide)
    | bytes value =>
      cases right with
      | bytes other => exact congrArg bytes sameBody
      | _ => exact absurd sameMajor (by simp only [head]; decide)
    | text value =>
      cases right with
      | text other => exact congrArg text sameBody
      | _ => exact absurd sameMajor (by simp only [head]; decide)
    | array items =>
      cases right with
      | array others =>
        have framedLeft : ∀ part ∈ items.map encode, Framed part :=
          List.forall_mem_map.mpr leftFramed
        have framedRight : ∀ part ∈ others.map encode, Framed part :=
          List.forall_mem_map.mpr rightFramed
        rw [body, body, encodeItems_eq, encodeItems_eq, List.flatMap_def, List.flatMap_def,
          ← List.append_nil (List.flatten _), ← List.append_nil (List.flatten (others.map _))]
          at sameBody
        have sameLength : (items.map encode).length = (others.map encode).length := by
          have counted : items.length = others.length := sameArg
          rw [List.length_map, List.length_map, counted]
        have sameParts := Framed.items_append_inj framedLeft framedRight sameLength sameBody
        exact congrArg array (items_inj each sameParts.1)
      | _ => exact absurd sameMajor (by simp only [head]; decide)
    | map rows =>
      cases right with
      | map others =>
        have framedLeft := framed_parts leftFits.2.2 leftFramed
        have framedRight := framed_parts rightFits.2.2 rightFramed
        have sameLength : (rowParts rows).length = (rowParts others).length := by
          have counted : rows.length = others.length := sameArg
          rw [length_rowParts, length_rowParts, counted]
        rw [body, body, ← flatten_rowParts, ← flatten_rowParts,
          ← List.append_nil (rowParts rows).flatten,
          ← List.append_nil (rowParts others).flatten] at sameBody
        have sameParts := Framed.items_append_inj framedLeft framedRight sameLength sameBody
        exact congrArg map (rows_inj leftFits.2.2 rightFits.2.2
          (fun left inLeft right inRight => each left.2 (List.mem_map_of_mem inLeft) right.2
            (List.mem_map_of_mem inRight)) sameParts.1)
      | _ => exact absurd sameMajor (by simp only [head]; decide)
    | bool value =>
      cases right with
      | bool other => cases value <;> cases other <;> first | rfl | cases sameArg
      | null => cases value <;> cases sameArg
      | _ => exact absurd sameMajor (by simp only [head]; decide)
    | null =>
      cases right with
      | bool other => cases other <;> cases sameArg
      | null => rfl
      | _ => exact absurd sameMajor (by simp only [head]; decide)

/-! ## Depth -/

theorem Skippable.mono {shallow depth : Nat} {tree : Tree} (skippable : tree.Skippable depth)
    (le : shallow ≤ depth) : tree.Skippable shallow :=
  ⟨skippable.canonical, skippable.textKeys,
    skippable.shallow.trans (Nat.sub_le_sub_left le maxMapDepth)⟩

theorem skippable_of_accepts {depth : Nat} {tree : Tree} (canonical : tree.Canonical)
    (accepts : Accepts (skip : Read Error Unit) depth () tree.encode) :
    tree.Skippable depth := by
  obtain ⟨found, same, skippable⟩ := accepts_skip_iff.mp accepts
  rwa [encode_inj skippable.canonical canonical same] at skippable

theorem Skippable.nesting_le {depth : Nat} {tree : Tree} (skippable : tree.Skippable depth) :
    tree.nesting ≤ tree.arrayNesting + maxMapDepth := by
  have total := tree.nesting_le
  have maps := skippable.shallow.trans (Nat.sub_le maxMapDepth depth)
  omega

end Tree

end EclipseOS.PolicyEval.Cbor
