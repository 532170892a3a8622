import EclipseOS.PolicyEval.Cbor.Maps

/-! # Records

A record is a map whose keys are known in advance. A schema lists a record's
fields in the ascending order of their encoded keys, each with the bytes the
reader's accumulator holds for it. -/

namespace EclipseOS.PolicyEval.Cbor

open Foundation

def presentRows (rows : List (String × Option Bytes)) : List (String × Bytes) :=
  rows.filterMap fun row => row.2.map fun value => (row.1, value)

/-- Names whose encoded keys strictly ascend. -/
def NamesAscend (names : List String) : Prop :=
  (names.map Writer.text).Pairwise (· < ·)

instance (names : List String) : Decidable (NamesAscend names) :=
  inferInstanceAs (Decidable (List.Pairwise _ _))

def NamesFit (names : List String) : Prop :=
  names.length < 2 ^ 64 ∧ ∀ name ∈ names, (utf8 name).length < 2 ^ 64

instance (names : List String) : Decidable (NamesFit names) :=
  inferInstanceAs (Decidable (_ ∧ _))

theorem mem_presentRows {rows : List (String × Option Bytes)} {name : String}
    {value : Bytes} :
    (name, value) ∈ presentRows rows ↔ (name, some value) ∈ rows := by
  simp only [presentRows, List.mem_filterMap, Option.map_eq_some_iff, Prod.mk.injEq]
  constructor
  · rintro ⟨⟨rowName, rowValue⟩, member, found, rfl, rfl, rfl⟩
    exact member
  · intro member
    exact ⟨_, member, value, rfl, rfl, rfl⟩

theorem keysAscend_iff {rows : List (String × Bytes)} :
    KeysAscend none rows ↔ NamesAscend (rows.map Prod.fst) := by
  simp [KeysAscend, NamesAscend, List.isChain_iff_pairwise, List.map_map,
    Function.comp_def]

theorem presentRows_names (rows : List (String × Option Bytes)) :
    ((presentRows rows).map Prod.fst).Sublist (rows.map Prod.fst) := by
  induction rows with
  | nil => exact List.Sublist.refl _
  | cons row rows induction =>
    rcases row with ⟨name, _ | value⟩
    · exact induction.cons _
    · exact induction.cons_cons _

theorem NamesAscend.sublist {names others : List String} (ascend : NamesAscend others)
    (sub : names.Sublist others) : NamesAscend names :=
  List.Pairwise.sublist (sub.map _) ascend

theorem NamesAscend.nodup {names : List String} (ascend : NamesAscend names) :
    names.Nodup := by
  refine (List.pairwise_map.mp ascend).imp fun before same => ?_
  subst same
  exact List.lt_irrefl _ before

theorem NamesAscend.rows {rows : List (String × Bytes)}
    (ascend : NamesAscend (rows.map Prod.fst)) :
    rows.Pairwise fun left right => Writer.text left.1 < Writer.text right.1 := by
  rw [NamesAscend, List.map_map, List.pairwise_map] at ascend
  exact ascend

/-! ## Building a record -/

namespace MapBuilder

def ofRows (rows : List (String × Option Bytes)) : MapBuilder :=
  ⟨(presentRows rows).map fun row => (Writer.text row.1, row.2)⟩

theorem new_eq_ofRows : MapBuilder.new = ofRows [] := rfl

theorem insert_ofRows (rows : List (String × Option Bytes)) (name : String)
    (value : Bytes) :
    (ofRows rows).insert name value = ofRows (rows ++ [(name, some value)]) := by
  simp [ofRows, insert, presentRows]

theorem insertOpt_ofRows (rows : List (String × Option Bytes)) (name : String)
    (value : Option Bytes) :
    (ofRows rows).insertOpt name value = ofRows (rows ++ [(name, value)]) := by
  cases value <;> simp [ofRows, insertOpt, insert, presentRows]

instance : Std.Total KeyLe := ⟨fun left right => List.le_total left.1 right.1⟩

instance : IsTrans (Bytes × Bytes) KeyLe :=
  ⟨fun _ _ _ first second => List.le_trans first second⟩

theorem finish_ofRows {rows sorted : List (String × Option Bytes)}
    (perm : (presentRows rows).Perm (presentRows sorted))
    (ascend : NamesAscend (sorted.map Prod.fst)) :
    (ofRows rows).finish = mapBytes (presentRows sorted) := by
  have ascending := ascend.sublist (presentRows_names sorted)
  have sortedEntries : (ofRows rows).entries.insertionSort KeyLe =
      (presentRows sorted).map fun row => (Writer.text row.1, row.2) := by
    apply insertionSort_eq_of_perm KeyLe (perm.map _)
    rw [List.pairwise_map]
    refine ascending.rows.imp fun before => ?_
    exact ⟨List.le_of_lt before, List.not_le.mpr before⟩
  have count : (ofRows rows).entries.length = (presentRows sorted).length := by
    rw [ofRows, List.length_map, perm.length_eq]
  rw [finish, sortedEntries, count, mapBytes, List.flatMap_map]
  rfl

end MapBuilder

/-! ## Reading a record -/

abbrev Schema (σ : Type) := List (String × (σ → Option Bytes))

namespace Schema

variable {σ : Type}

def rows (schema : Schema σ) (fields : σ) : List (String × Option Bytes) :=
  schema.map fun field => (field.1, field.2 fields)

theorem finish {schema : Schema σ} (names : NamesAscend (schema.map Prod.fst)) {fields : σ}
    {rows : List (String × Option Bytes)}
    (perm : (presentRows rows).Perm (presentRows (schema.rows fields))) :
    (MapBuilder.ofRows rows).finish = mapBytes (presentRows (schema.rows fields)) :=
  MapBuilder.finish_ofRows perm (by rwa [Schema.rows, List.map_map])

theorem finish_of_order {schema : Schema σ} (names : NamesAscend (schema.map Prod.fst))
    (order : List Nat) {fields : σ} {rows : List (String × Option Bytes)}
    (perm : order.Perm (List.range schema.length))
    (picked : rows = order.map fun i => (schema.rows fields).getD i ("", none)) :
    (MapBuilder.ofRows rows).finish = mapBytes (presentRows (schema.rows fields)) := by
  have all : (List.range schema.length).map (fun i => (schema.rows fields).getD i ("", none)) =
      schema.rows fields := by
    apply List.ext_getElem
    · simp [Schema.rows]
    · intro i _ within
      simp [within]
  have rowsPerm : rows.Perm (schema.rows fields) := by
    have moved := perm.map fun i => (schema.rows fields).getD i ("", none)
    rwa [all, ← picked] at moved
  exact finish names (rowsPerm.filterMap _)

/-- Reading `name` stored its value and nothing else. -/
def Stores (schema : Schema σ) (name : String) (value : Bytes) (before after : σ) :
    Prop :=
  name ∈ schema.map Prod.fst ∧
    ∀ field ∈ schema, field.2 after = if field.1 = name then some value else field.2 before

theorem rows_names (schema : Schema σ) (fields : σ) :
    ((presentRows (schema.rows fields)).map Prod.fst).Sublist (schema.map Prod.fst) := by
  have sub := presentRows_names (schema.rows fields)
  rwa [rows, List.map_map] at sub

theorem mem_presentRows {schema : Schema σ} {fields : σ} {row : String × Bytes} :
    row ∈ presentRows (schema.rows fields) ↔
      ∃ field ∈ schema, field.1 = row.1 ∧ field.2 fields = some row.2 := by
  rw [Cbor.mem_presentRows, rows, List.mem_map]
  simp only [Prod.mk.injEq]

theorem eq_presentRows {schema : Schema σ} (names : NamesAscend (schema.map Prod.fst)) {fields : σ}
    {rows : List (String × Bytes)} (ascend : NamesAscend (rows.map Prod.fst))
    (members : ∀ row, row ∈ rows ↔
      ∃ field ∈ schema, field.1 = row.1 ∧ field.2 fields = some row.2) :
    rows = presentRows (schema.rows fields) := by
  have schemaAscend := names.sublist (schema.rows_names fields)
  have sameMembers : ∀ row, row ∈ rows ↔ row ∈ presentRows (schema.rows fields) :=
    fun row => (members row).trans mem_presentRows.symm
  have perm : rows.Perm (presentRows (schema.rows fields)) :=
    (List.perm_ext_iff_of_nodup ascend.nodup.of_map schemaAscend.nodup.of_map).mpr sameMembers
  refine List.Perm.eq_of_pairwise ?_ ascend.rows schemaAscend.rows perm
  intro left right _ _ before after
  exact absurd (List.lt_trans before after) (List.lt_irrefl _)

end Schema

section Records

variable {ε : Type} {σ : Type} {depth : Nat} {field : String → σ → Read ε σ}

theorem Rows.preserves {motive : σ → Prop} {before after : σ}
    {rows : List (String × Bytes)} (chain : Rows field depth before rows after)
    (step : ∀ name before after value,
      Accepts (field name before) depth after value → motive before → motive after)
    (start : motive before) : motive after := by
  induction chain with
  | nil => exact start
  | cons accepts _ induction => exact induction (step _ _ _ _ accepts start)

variable {schema : Schema σ}
  (stores : ∀ name before after value,
    Accepts (field name before) depth after value → schema.Stores name value before after)

include stores

private theorem Rows.unread {before after : σ} {rows : List (String × Bytes)}
    (chain : Rows field depth before rows after) {name : String} {get : σ → Option Bytes}
    (member : (name, get) ∈ schema) (unread : name ∉ rows.map Prod.fst) :
    get after = get before := by
  induction chain with
  | nil => rfl
  | cons accepts _ induction =>
    rw [List.map_cons, List.mem_cons, not_or] at unread
    have kept := (stores _ _ _ _ accepts).2 _ member
    rw [if_neg unread.1] at kept
    exact (induction unread.2).trans kept

private theorem Rows.read {before after : σ} {rows : List (String × Bytes)}
    (chain : Rows field depth before rows after) (nodup : (rows.map Prod.fst).Nodup)
    {name : String} {value : Bytes} (member : (name, value) ∈ rows) :
    ∃ get, (name, get) ∈ schema ∧ get after = some value := by
  induction chain with
  | nil => cases member
  | cons accepts rest induction =>
    rw [List.map_cons, List.nodup_cons] at nodup
    rcases List.mem_cons.mp member with head | tail
    · cases head
      have stored := stores _ _ _ _ accepts
      rcases List.mem_map.mp stored.1 with ⟨⟨_, get⟩, inSchema, rfl⟩
      have now := stored.2 _ inSchema
      rw [if_pos rfl] at now
      exact ⟨get, inSchema, (rest.unread stores inSchema nodup.1).trans now⟩
    · exact induction nodup.2 tail

private theorem Rows.stored {before after : σ} {rows : List (String × Bytes)}
    (chain : Rows field depth before rows after) {name : String} {get : σ → Option Bytes}
    (member : (name, get) ∈ schema) {value : Bytes} (stored : get after = some value) :
    (name, value) ∈ rows ∨ get before = some value := by
  induction chain with
  | nil => exact .inr stored
  | cons accepts _ induction =>
    rcases induction stored with inRest | middle
    · exact .inl (List.mem_cons_of_mem _ inRest)
    · have now := (stores _ _ _ _ accepts).2 _ member
      split at now
      · rename_i same
        obtain rfl : name = _ := same
        cases now.symm.trans middle
        exact .inl List.mem_cons_self
      · exact .inr (now.symm.trans middle)

theorem Rows.eq_present {initial after : σ} {rows : List (String × Bytes)}
    (chain : Rows field depth initial rows after) (ascend : KeysAscend none rows)
    (names : NamesAscend (schema.map Prod.fst))
    (empty : ∀ entry ∈ schema, entry.2 initial = none) :
    rows = presentRows (schema.rows after) := by
  have rowsAscend := keysAscend_iff.mp ascend
  refine Schema.eq_presentRows names rowsAscend ?_
  rintro ⟨name, value⟩
  constructor
  · intro member
    rcases chain.read stores rowsAscend.nodup member with ⟨get, inSchema, stored⟩
    exact ⟨(name, get), inSchema, rfl, stored⟩
  · rintro ⟨⟨_, get⟩, inSchema, rfl, stored⟩
    rcases chain.stored stores inSchema stored with member | initially
    · exact member
    · cases (empty _ inSchema).symm.trans initially

end Records

section Accepting

variable {ε : Type} {σ : Type} {depth : Nat} {field : String → σ → Read ε σ}

theorem Rows.store {α : Type} {name : String} {value : Option α} {encode : α → Bytes}
    (store : Option α → σ) {after : σ} {rows : List (String × Option Bytes)}
    (present : ∀ stored ∈ value,
      Accepts (field name (store none)) depth (store (some stored)) (encode stored))
    (rest : Rows field depth (store value) (presentRows rows) after) :
    Rows field depth (store none) (presentRows ((name, value.map encode) :: rows))
      after := by
  cases value with
  | none => exact rest
  | some stored => exact .cons (present stored rfl) rest

theorem Rows.storeBytes {name : String} {value : Option Bytes} (store : Option Bytes → σ) {after : σ}
    {rows : List (String × Option Bytes)}
    (present : ∀ stored ∈ value,
      Accepts (field name (store none)) depth (store (some stored)) stored)
    (rest : Rows field depth (store value) (presentRows rows) after) :
    Rows field depth (store none) (presentRows ((name, value) :: rows)) after := by
  cases value with
  | none => exact rest
  | some stored => exact .cons (present stored rfl) rest

theorem accepts_store {α : Type} {read : Read ε α} [Local read] {store : α → σ}
    {after : σ} {encoding : Bytes} :
    Accepts (read >>= fun value => pure (store value)) depth after encoding ↔
      ∃ value, Accepts read depth value encoding ∧ after = store value := by
  simp only [accepts_bind, accepts_pure]
  constructor
  · rintro ⟨value, _, _, rfl, accepts, rfl, rfl⟩
    exact ⟨value, by simpa using accepts, rfl⟩
  · rintro ⟨value, accepts, rfl⟩
    exact ⟨value, encoding, [], by simp, accepts, rfl, rfl⟩

theorem accepts_store_iff {α : Type} {read : Read ε α} [Local read] {store : α → σ}
    (value : α) {encoding : Bytes} (accepts : Accepts read depth value encoding) {after : σ} :
    Accepts (read >>= fun value => pure (store value)) depth after encoding ↔
      after = store value := by
  rw [accepts_store]
  constructor
  · intro stored
    rcases stored with ⟨found, alsoAccepts, rfl⟩
    rw [(alsoAccepts.unique [] [] accepts rfl).1]
  · intro same
    exact ⟨value, accepts, same⟩

theorem rows_cons_iff {key : String} {value : Bytes} {rows : List (String × Bytes)}
    {before after : σ} :
    Rows field depth before ((key, value) :: rows) after ↔
      ∃ middle, Accepts (field key before) depth middle value ∧
        Rows field depth middle rows after := by
  constructor
  · intro chain
    cases chain with
    | cons step rest => exact ⟨_, step, rest⟩
  · intro chain
    rcases chain with ⟨_, step, rest⟩
    exact .cons step rest

theorem rows_cons_iff_of {key : String} {value : Bytes} {rows : List (String × Bytes)}
    {before next after : σ}
    (only : ∀ middle, Accepts (field key before) depth middle value ↔ middle = next) :
    Rows field depth before ((key, value) :: rows) after ↔ Rows field depth next rows after := by
  simp only [rows_cons_iff, only, exists_eq_left]

theorem rows_store_iff {α : Type} {name : String} {value : Option α} {encode : α → Bytes}
    (store : Option α → σ) {after : σ} {rows : List (String × Option Bytes)}
    (only : ∀ stored ∈ value, ∀ middle,
      Accepts (field name (store none)) depth middle (encode stored) ↔
        middle = store (some stored)) :
    Rows field depth (store none) (presentRows ((name, value.map encode) :: rows)) after ↔
      Rows field depth (store value) (presentRows rows) after := by
  cases value with
  | none => exact Iff.rfl
  | some stored => exact rows_cons_iff_of (only stored rfl)

theorem rows_nil_iff {before after : σ} :
    Rows field depth before [] after ↔ after = before := by
  constructor
  · intro chain
    cases chain
    rfl
  · intro same
    exact same ▸ .nil

theorem Accepts.record [FromCbor ε] [∀ name fields, Local (field name fields)] {α : Type}
    {schema : Schema α} {value : α} {initial after : σ}
    (names : NamesAscend (schema.map Prod.fst)) (fit : NamesFit (schema.map Prod.fst))
    (room : depth < maxMapDepth)
    (chain : Rows field (depth + 1) initial (presentRows (schema.rows value)) after) :
    Accepts (readMap initial field) depth after (mapBytes (presentRows (schema.rows value))) := by
  have sub := schema.rows_names value
  refine accepts_readMap.mpr ⟨room, _, ?_, rfl, keysAscend_iff.mpr (names.sublist sub), ?_, chain⟩
  · rw [← List.length_map Prod.fst]
    exact Nat.lt_of_le_of_lt sub.length_le fit.1
  · exact fun row member => fit.2 _ (sub.subset (List.mem_map_of_mem member))

theorem accepts_record [FromCbor ε] [∀ name fields, Local (field name fields)] {schema : Schema σ}
    {valid : σ → Prop} {initial : σ} (names : NamesAscend (schema.map Prod.fst))
    (fit : NamesFit (schema.map Prod.fst))
    (stores : ∀ name before after value,
      Accepts (field name before) (depth + 1) after value →
        schema.Stores name value before after ∧ (valid before → valid after))
    (empty : ∀ entry ∈ schema, entry.2 initial = none) (validInitial : valid initial)
    (chain : ∀ after, valid after →
      Rows field (depth + 1) initial (presentRows (schema.rows after)) after)
    {after : σ} {encoding : Bytes} :
    Accepts (readMap initial field) depth after encoding ↔
      encoding = mapBytes (presentRows (schema.rows after)) ∧
        depth < maxMapDepth ∧ valid after := by
  constructor
  · intro accepts
    rcases accepts_readMap.mp accepts with ⟨room, rows, -, rfl, ascend, -, read⟩
    have spelled := read.eq_present (fun name before after value accepts =>
      (stores name before after value accepts).1) ascend names empty
    refine ⟨congrArg mapBytes spelled, room, ?_⟩
    exact read.preserves (fun name before after value accepts =>
      (stores name before after value accepts).2) validInitial
  · rintro ⟨rfl, room, isValid⟩
    exact .record names fit room (chain after isValid)

/-- A value built from a record's fields is accepted as its fields are, where
the build passes its checks. -/
theorem accepts_checked {α : Type} {read : Read ε σ} [Local read]
    {build : σ → Except ε α} {fields : α → σ} {passes : α → Prop}
    (built : ∀ found value, build found = .ok value ↔ found = fields value ∧ passes value)
    {value : α} {encoding : Bytes} :
    Accepts (read >>= fun found => orThrow (build found)) depth value encoding ↔
      Accepts read depth (fields value) encoding ∧ passes value := by
  simp only [accepts_bind, accepts_orThrow, built]
  constructor
  · rintro ⟨_, _, _, rfl, accepts, ⟨rfl, passed⟩, rfl⟩
    exact ⟨by simpa using accepts, passed⟩
  · rintro ⟨accepts, passed⟩
    exact ⟨_, encoding, [], by simp, accepts, ⟨rfl, passed⟩, rfl⟩

theorem accepts_built {α : Type} {read : Read ε σ} [Local read] {build : σ → Except ε α}
    {fields : α → σ} (built : ∀ found value, build found = .ok value ↔ found = fields value)
    {value : α} {encoding : Bytes} :
    Accepts (read >>= fun found => orThrow (build found)) depth value encoding ↔
      Accepts read depth (fields value) encoding := by
  have checked : ∀ found value, build found = .ok value ↔ found = fields value ∧ True := by
    simpa using built
  rw [accepts_checked checked, and_true]

end Accepting

end EclipseOS.PolicyEval.Cbor

/-! ## The order of text keys

Encoded text keys sort shorter first, then bytewise, whatever the width of their
heads. -/

namespace EclipseOS.PolicyEval.Cbor

open Foundation

theorem append_lt_of_ofBigEndian {left right rest others : Bytes}
    (same : left.length = right.length) (less : ofBigEndian left < ofBigEndian right) :
    left ++ rest < right ++ others := by
  induction left generalizing right with
  | nil =>
    rw [List.length_nil] at same
    cases List.eq_nil_of_length_eq_zero same.symm
    exact absurd less (Nat.lt_irrefl _)
  | cons first left induction =>
    cases right with
    | nil => cases same
    | cons second right =>
      have tails : left.length = right.length := Nat.succ.inj same
      have below := ofBigEndian_lt right
      rw [ofBigEndian, ofBigEndian, tails] at less
      rw [List.cons_append, List.cons_append, List.cons_lt_cons_iff]
      rcases Nat.lt_trichotomy first.toNat second.toNat with before | equal | after
      · exact Or.inl before
      · have rest := induction tails (by rw [equal] at less; omega)
        exact Or.inr ⟨UInt8.toNat_inj.mp equal, rest⟩
      · have above := Nat.mul_le_mul_right (256 ^ right.length) (Nat.succ_le_of_lt after)
        rw [Nat.succ_mul] at above
        omega

theorem bigEndian_append_lt {width left right : Nat} {rest others : Bytes}
    (less : left < right) (fits : right < 256 ^ width) :
    bigEndian width left ++ rest < bigEndian width right ++ others := by
  apply append_lt_of_ofBigEndian
  · rw [bigEndian_length, bigEndian_length]
  · rw [ofBigEndian_bigEndian, ofBigEndian_bigEndian, Nat.mod_eq_of_lt fits,
      Nat.mod_eq_of_lt (less.trans fits)]
    exact less

namespace Writer

theorem toNat_shortHead : ∀ arg < 24,
    (majorText <<< 5 ||| UInt8.ofNat arg).toNat = 96 + arg := by
  decide

theorem shortHead_lt {arg : Nat} {byte : UInt8} (short : arg < 24) (less : 96 + arg < byte.toNat) :
    majorText <<< 5 ||| UInt8.ofNat arg < byte := by
  apply UInt8.lt_iff_toNat_lt.mpr
  rw [toNat_shortHead arg short]
  exact less

theorem textHead_append_lt {left right : Nat} {rest others : Bytes} (less : left < right)
    (fits : right < 2 ^ 64) :
    head majorText left ++ rest < head majorText right ++ others := by
  have differ {first second : UInt8} {left right : Bytes} (before : first < second) :
      first :: left < second :: right := List.cons_lt_cons_iff.mpr (Or.inl before)
  have agree {first : UInt8} {left right : Bytes} (before : left < right) :
      first :: left < first :: right := List.cons_lt_cons_iff.mpr (Or.inr ⟨rfl, before⟩)
  unfold head
  by_cases short : left < 24
  · rw [if_pos short]
    by_cases shorter : right < 24
    · rw [if_pos shorter]
      exact differ (shortHead_lt short (by rw [toNat_shortHead right shorter]; omega))
    · rw [if_neg shorter]
      have least : 96 + left < 120 := by omega
      split_ifs <;> exact differ (shortHead_lt short (least.trans_le (by decide)))
  · rw [if_neg short, if_neg (by omega : ¬right < 24)]
    split_ifs <;> first
      | omega
      | exact differ (by decide)
      | exact agree (bigEndian_append_lt less (by omega))

theorem text_lt_text {left right : String} (fits : (utf8 right).length < 2 ^ 64)
    (before : (utf8 left).length < (utf8 right).length ∨
      (utf8 left).length = (utf8 right).length ∧ utf8 left < utf8 right) :
    text left < text right := by
  unfold text
  rcases before with shorter | ⟨same, before⟩
  · exact textHead_append_lt shorter fits
  · rw [same]
    exact List.append_left_lt before

end Writer

end EclipseOS.PolicyEval.Cbor
