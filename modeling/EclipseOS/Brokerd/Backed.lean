import EclipseOS.Brokerd.BindText
import EclipseOS.Brokerd.Store

/-! # What an open store's directory holds

For every entry of the index its record's file, sealed under the master key, and no
other record. Such a directory opens to the store it backs. -/

namespace EclipseOS.Brokerd

open Foundation PolicyEval Cbor

/-! ## Lengths -/

section Lengths

theorem length_head_le (major : UInt8) (arg : Nat) : (Writer.head major arg).length ≤ 9 := by
  unfold Writer.head
  dsimp only
  split_ifs <;> simp

theorem length_text_le (text : String) :
    (Writer.text text).length ≤ 9 + (utf8 text).length := by
  have head := length_head_le majorText (utf8 text).length
  rw [Writer.text, List.length_append]
  omega

theorem length_flatMap_le {α : Type} {encode : α → Bytes} {items : List α} {most : Nat}
    (short : ∀ item ∈ items, (encode item).length ≤ most) :
    (items.flatMap encode).length ≤ items.length * most := by
  induction items with
  | nil => simp
  | cons item items induction =>
    rw [List.forall_mem_cons] at short
    have rest := induction short.2
    rw [List.flatMap_cons, List.length_append, List.length_cons, Nat.succ_mul]
    omega

theorem length_arrayOf_le {α : Type} {encode : α → Bytes} {items : List α} {most : Nat}
    (short : ∀ item ∈ items, (encode item).length ≤ most) :
    (arrayOf encode items).length ≤ 9 + items.length * most := by
  have head := length_head_le majorArray items.length
  have rest := length_flatMap_le short
  rw [arrayOf, Writer.array, List.length_append]
  omega

theorem length_mapBytes_le {rows : List (String × Bytes)} {most : Nat}
    (short : ∀ row ∈ rows, (utf8 row.1).length + row.2.length ≤ most) :
    (mapBytes rows).length ≤ 9 + rows.length * (9 + most) := by
  have head := length_head_le majorMap rows.length
  have rest : (rows.flatMap rowBytes).length ≤ rows.length * (9 + most) := by
    refine length_flatMap_le fun row member => ?_
    have name := length_text_le row.1
    have within := short row member
    rw [rowBytes, List.length_append]
    omega
  rw [mapBytes, Writer.map, List.length_append]
  omega

end Lengths

namespace Meta

variable {record : Meta}

theorem length_value_le (readable : record.Readable) :
    ∀ field ∈ schema, ∀ value ∈ field.2 record, value.length ≤ 2 ^ 26 := by
  have number (value : UInt64) : (Writer.u64 value).length ≤ 2 ^ 26 :=
    (length_head_le _ _).trans (by decide)
  have bindings : (arrayOf (fun binding => Writer.text binding.toText) record.boundTo).length ≤
      9 + record.boundTo.length * (9 + 2 ^ 20) :=
    length_arrayOf_le fun binding member =>
      (length_text_le _).trans (Nat.add_le_add_left (readable.bindings binding member).2 9)
  have modes : (arrayOf (fun mode => Writer.text mode.asStr) record.modes).length ≤
      9 + record.modes.length * 30 :=
    length_arrayOf_le fun mode _ => by cases mode <;> decide
  have few : record.boundTo.length ≤ 32 := readable.bound.2
  have fewModes := readable.modes
  have named : (utf8 record.name).length ≤ 128 := length_of_nameOk readable.named
  have name := length_text_le record.name
  have id : (Writer.bytes record.id.val).length ≤ 2 ^ 26 := by
    have head := length_head_le majorBytes record.id.val.length
    rw [Writer.bytes, List.length_append]
    rw [record.id.property] at head ⊢
    omega
  have kind : (Writer.text record.kind.asStr).length ≤ 2 ^ 26 := by
    cases record.kind <;> decide
  have prompt : (Writer.bool record.requiresPrompt).length ≤ 2 ^ 26 := by
    cases record.requiresPrompt <;> decide
  have hint : ∀ value ∈ record.rotationHintDays.map fun days => Writer.u64 days.toUInt64,
      value.length ≤ 2 ^ 26 := by
    intro value member
    rcases Option.map_eq_some_iff.mp member with ⟨days, -, rfl⟩
    exact number _
  simp only [schema, List.forall_mem_cons, Option.mem_def, Option.some.injEq, forall_eq']
  refine ⟨id, number _, hint, kind, by omega, by omega, prompt, number _, by omega, List.forall_mem_nil _⟩

theorem length_encode (readable : record.Readable) : record.encode.length < 2 ^ 32 := by
  have keys : ∀ key ∈ schema.map Prod.fst, (utf8 key).length ≤ 8 := by
    show ∀ key ∈ ["id", "rc", "hint", "kind", "name", "modes", "prompt", "created", "bound_to"], _
    decide
  have short : ∀ row ∈ presentRows (schema.rows record),
      (utf8 row.1).length + row.2.length ≤ 8 + 2 ^ 26 := by
    intro row member
    rcases Schema.mem_presentRows.mp member with ⟨field, among, same, spelled⟩
    have value := length_value_le readable field among row.2 spelled
    have key := keys row.1 (same ▸ List.mem_map_of_mem among)
    omega
  have rows : (presentRows (schema.rows record)).length ≤ 9 := by
    have kept := (schema.rows_names record).length_le
    rwa [List.length_map] at kept
  have whole := length_mapBytes_le short
  have most := Nat.mul_le_mul_right (9 + (8 + 2 ^ 26)) rows
  rw [encode_eq]
  omega

end Meta

/-! ## Record files -/

instance FileFields.local_read (key : String) (fields : FileFields) : Local (read key fields) := by
  unfold read
  split <;> infer_instance

namespace File

def schema : Schema File :=
  [("v", fun _ => some (Writer.u64 fileVersion)),
    ("id", fun file => some (Writer.bytes file.id.val)),
    ("rc", fun file => some (Writer.u64 file.rc)),
    ("dek", fun file => some (Writer.bytes file.dek)),
    ("meta", fun file => some (Writer.bytes file.«meta»)),
    ("value", fun file => some (Writer.bytes file.val))]

theorem schema_ascend : NamesAscend (schema.map Prod.fst) := by
  show NamesAscend ["v", "id", "rc", "dek", "meta", "value"]
  decide

theorem encode_eq (file : File) : file.encode = mapBytes (presentRows (schema.rows file)) := by
  simp only [encode, MapBuilder.new_eq_ofRows, MapBuilder.insert_ofRows, List.nil_append,
    List.cons_append]
  exact Schema.finish_of_order schema_ascend [3, 1, 4, 2, 0, 5] (by decide) rfl

theorem decode_encode {file : File} (dek : file.dek.length < 2 ^ 64)
    (sealed : file.«meta».length < 2 ^ 64) (val : file.val.length < 2 ^ 64) :
    decode file.encode = .ok file := by
  have accepts : Accepts (readMap .initial FileFields.read) 0
      ⟨file.id, file.rc, file.dek, file.«meta», file.val, fileVersion⟩ file.encode := by
    rw [encode_eq]
    refine .record schema_ascend (by decide) (by decide) ?_
    refine .cons (accepts_store.mpr ⟨fileVersion, accepts_u64.mpr rfl, rfl⟩) ?_
    refine .cons (accepts_store.mpr ⟨file.id, accepts_byteArray.mpr ⟨rfl, by decide⟩, rfl⟩) ?_
    refine .cons (accepts_store.mpr ⟨file.rc, accepts_u64.mpr rfl, rfl⟩) ?_
    refine .cons (accepts_store.mpr ⟨file.dek, accepts_bytes.mpr ⟨rfl, dek⟩, rfl⟩) ?_
    refine .cons (accepts_store.mpr ⟨file.«meta», accepts_bytes.mpr ⟨rfl, sealed⟩, rfl⟩) ?_
    exact .cons (accepts_store.mpr ⟨file.val, accepts_bytes.mpr ⟨rfl, val⟩, rfl⟩) .nil
  rw [decode, decodeAll_eq_ok.mpr accepts]
  rfl

theorem head_map_ne_zero (pairs : Nat) (rest others : Bytes) :
    Writer.head majorMap pairs ++ rest ≠ 0 :: others := by
  have opens : ∃ low < (32 : UInt8), ∃ argument,
      Writer.head majorMap pairs = (majorMap <<< 5 ||| low) :: argument := by
    unfold Writer.head
    dsimp only
    split_ifs with short
    · refine ⟨UInt8.ofNat pairs, ?_, _, rfl⟩
      rw [UInt8.lt_iff_toNat_lt, UInt8.toNat_ofNat']
      exact lt_of_le_of_lt (Nat.mod_le _ _) (lt_trans short (by decide))
    · exact ⟨24, by decide, _, rfl⟩
    · exact ⟨25, by decide, _, rfl⟩
    · exact ⟨26, by decide, _, rfl⟩
    · exact ⟨27, by decide, _, rfl⟩
  rcases opens with ⟨low, inside, argument, head⟩
  intro same
  rw [head, List.cons_append] at same
  have major := headByte_major (show majorMap < 8 by decide) inside
  rw [(List.cons.inj same).1] at major
  revert major
  decide

theorem decode_zero (rest : Bytes) (file : File) : decode (0 :: rest) ≠ .ok file := by
  intro decoded
  rcases bind_eq_ok.mp decoded with ⟨fields, read, -⟩
  rcases accepts_readMap.mp (decodeAll_eq_ok.mp read) with ⟨-, rows, -, spelled, -⟩
  exact head_map_ne_zero _ _ _ spelled.symm

theorem encode_ne_nil (file : File) : file.encode ≠ [] := by
  rw [encode_eq, ← List.length_pos_iff, mapBytes, List.length_append]
  exact Nat.add_pos_left (Writer.head_length_pos _ _) _

end File

/-! ## Stores and their directories -/

theorem FileName.sec_injective : Function.Injective FileName.sec := by
  intro left right same
  exact Ulid.toText_injective (congrArg FileName.stem same)

section Backed

variable [Aead] {sealer : Sealer} {pass : Option Bytes} {files : Files FileName} {store : Store}

/-- A file that holds the record and a value under the store's key. -/
def Holds (files : Files FileName) (store : Store) (record : Meta) (value : Bytes) : Prop :=
  value.length ≤ maxValue ∧
    ∃ draws, files (.sec record.id) = some (store.fileOf record value draws).encode

structure Backed (sealer : Sealer) (pass : Option Bytes) (files : Files FileName)
    (store : Store) : Prop where
  master : ∃ blob, files .master = some blob ∧ sealer.«unseal» blob pass = .ok store.master.val
  entries : ∀ name entry, store.index.lookup name = some entry →
    entry.«meta».name = name ∧ entry.path = .sec entry.«meta».id ∧ entry.«meta».Readable ∧
      ∃ value, Holds files store entry.«meta» value
  records : ∀ path, path.extension = some "sec" → (files path).isSome →
    ∃ name entry, store.index.lookup name = some entry ∧ entry.path = path
  distinct : ∀ name other entry entry', store.index.lookup name = some entry →
    store.index.lookup other = some entry' → entry.«meta».id = entry'.«meta».id → name = other

theorem Backed.congr (backed : Backed sealer pass files store) {others : Files FileName}
    (same : ∀ path, path.extension ≠ some "tmp" → others path = files path) :
    Backed sealer pass others store := by
  have sec (id : Ulid) : others (.sec id) = files (.sec id) :=
    same _ (by simp [FileName.sec])
  constructor
  · rw [same _ (by simp [FileName.master])]
    exact backed.master
  · intro name entry found
    rcases backed.entries name entry found with ⟨named, path, readable, value, small, draws, held⟩
    exact ⟨named, path, readable, value, small, draws, (sec _).trans held⟩
  · intro path isSec held
    rw [same path (by simp [isSec])] at held
    exact backed.records path isSec held
  · exact backed.distinct

section Reading

variable {record : Meta} {value : Bytes} {draws : Draws}

theorem decode_fileOf (readable : record.Readable) (small : value.length ≤ maxValue) :
    File.decode (store.fileOf record value draws).encode =
      .ok (store.fileOf record value draws) := by
  have short := Meta.length_encode readable
  have most : nonceLength = 24 ∧ tagLength = 16 ∧ maxValue = 16384 := ⟨rfl, rfl, rfl⟩
  refine File.decode_encode ?_ ?_ ?_ <;>
    simp only [Store.fileOf, Aead.length_seal, draws.dek.property] <;> omega

theorem openMeta_fileOf (readable : record.Readable) :
    (store.fileOf record value draws).openMeta store.master = .ok record := by
  simp only [File.openMeta, Store.fileOf, Aead.open_seal, Meta.decode_encode readable,
    Except.mapError, bind, Except.bind]
  simp
  rfl

theorem openEntry_of_holds (readable : record.Readable) (holds : Holds files store record value)
    {index : Finmap fun _ : String => Entry} (absent : index.lookup record.name = none) :
    Store.openEntry files store.master index (.sec record.id) =
      .ok (index.insert record.name ⟨record, .sec record.id⟩) := by
  rcases holds with ⟨small, draws, held⟩
  have isSec : ¬(FileName.sec record.id).extension ≠ some "sec" := not_not.mpr rfl
  have stem : ¬(FileName.sec record.id).stem ≠ record.id.toText := not_not.mpr rfl
  rw [Store.openEntry, if_neg isSec]
  simp only [held, decode_fileOf readable small, openMeta_fileOf readable, absent, bind,
    Except.bind, if_neg stem]
  rfl

theorem readValue_of_holds {name : String} {entry : Entry}
    (found : store.index.lookup name = some entry) (path : entry.path = .sec entry.«meta».id)
    (readable : entry.«meta».Readable) (holds : Holds files store entry.«meta» value) :
    store.readValue files name = .ok value := by
  rcases holds with ⟨small, draws, held⟩
  rw [← path] at held
  simp only [Store.readValue, found, held, decode_fileOf readable small, bind, Except.bind]
  rw [if_neg (by simp [Store.fileOf])]
  simp only [Store.fileOf, Aead.open_seal, Except.mapError]

end Reading

theorem Backed.readValue (backed : Backed sealer pass files store) {name : String}
    (known : (store.«meta» name).isSome) : ∃ value, store.readValue files name = .ok value := by
  rw [Store.«meta», Option.isSome_map] at known
  rcases Option.isSome_iff_exists.mp known with ⟨entry, found⟩
  rcases backed.entries name entry found with ⟨named, path, readable, value, holds⟩
  exact ⟨value, readValue_of_holds found path readable holds⟩

/-- The entries of the store whose files were read. -/
def Indexed (store : Store) (seen : List FileName) (index : Finmap fun _ : String => Entry) :
    Prop :=
  ∀ name, index.lookup name = (store.index.lookup name).filter (·.path ∈ seen)

theorem Backed.openEntry (backed : Backed sealer pass files store) {seen : List FileName}
    {index : Finmap fun _ : String => Entry} (indexed : Indexed store seen index)
    {path : FileName} (held : (files path).isSome) (fresh : path ∉ seen) :
    ∃ after, Store.openEntry files store.master index path = .ok after ∧
      Indexed store (path :: seen) after := by
  by_cases isSec : path.extension = some "sec"
  · rcases backed.records path isSec held with ⟨name, entry, found, rfl⟩
    rcases backed.entries name entry found with ⟨named, isPath, readable, value, holds⟩
    have absent : index.lookup entry.«meta».name = none := by
      rw [named, indexed name, found]
      simp [fresh]
    have step := openEntry_of_holds readable holds absent
    rw [← isPath] at step
    refine ⟨_, step, fun other => ?_⟩
    by_cases same : other = name
    · rw [same, ← named, Finmap.lookup_insert, named, found]
      simp [Option.filter]
    · rw [Finmap.lookup_insert_of_ne _ (named ▸ same), indexed other]
      cases found' : store.index.lookup other with
      | none => rfl
      | some entry' =>
        have isPath' := (backed.entries other entry' found').2.1
        have apart : entry'.path ≠ entry.path := by
          intro samePath
          rw [isPath, isPath'] at samePath
          exact same (backed.distinct other name entry' entry found' found
            (FileName.sec_injective samePath))
        simp [Option.filter, apart]
  · refine ⟨index, if_pos isSec, fun other => ?_⟩
    rw [indexed other]
    cases found : store.index.lookup other with
    | none => rfl
    | some entry =>
      have isPath := (backed.entries other entry found).2.1
      have apart : entry.path ≠ path := by
        rintro rfl
        exact isSec (by rw [isPath]; rfl)
      simp [Option.filter, apart]

theorem Backed.open (backed : Backed sealer pass files store) {listing : List FileName}
    (lists : Lists files listing) : Store.«open» files listing sealer pass = .ok store := by
  have fold : ∀ (rest seen : List FileName) (index : Finmap fun _ : String => Entry),
      rest.Nodup → (∀ path ∈ rest, (files path).isSome ∧ path ∉ seen) → Indexed store seen index →
      ∃ after, rest.foldlM (Store.openEntry files store.master) index = .ok after ∧
        Indexed store (rest.reverse ++ seen) after := by
    intro rest
    induction rest with
    | nil => exact fun seen index _ _ indexed => ⟨index, rfl, indexed⟩
    | cons path rest induction =>
      intro seen index nodup present indexed
      rw [List.nodup_cons] at nodup
      rw [List.forall_mem_cons] at present
      rcases backed.openEntry indexed present.1.1 present.1.2 with ⟨middle, step, indexed'⟩
      have later : ∀ other ∈ rest, (files other).isSome ∧ other ∉ path :: seen := by
        intro other member
        rcases present.2 other member with ⟨held, unseen⟩
        refine ⟨held, fun again => ?_⟩
        rcases List.mem_cons.mp again with rfl | again
        · exact nodup.1 member
        · exact unseen again
      rcases induction (path :: seen) middle nodup.2 later indexed' with ⟨after, run, all⟩
      refine ⟨after, ?_, by simpa using all⟩
      rw [List.foldlM_cons, step]
      exact run
  have start : Indexed store [] ∅ := by
    intro name
    rw [Finmap.lookup_empty]
    cases store.index.lookup name <;> simp [Option.filter]
  rcases fold listing [] ∅ lists.1 (fun path member => ⟨(lists.2 path).mp member, by simp⟩) start
    with ⟨index, run, indexed⟩
  have whole : index = store.index := by
    refine Finmap.ext_lookup fun name => ?_
    rw [indexed name]
    cases found : store.index.lookup name with
    | none => rfl
    | some entry =>
      rcases backed.entries name entry found with ⟨-, isPath, -, value, -, draws, held⟩
      have among : entry.path ∈ listing := (lists.2 _).mpr (by rw [isPath, held]; rfl)
      simp [Option.filter, among]
  rcases backed.master with ⟨blob, held, opens⟩
  have key : FixedBytes.ofBytes store.master.val = some store.master :=
    FixedBytes.ofBytes_eq_some.mpr rfl
  simp only [Store.«open», held, opens, Except.mapError, bind, Except.bind, key, run, whole]
  rfl

theorem open_of_zero {listing : List FileName} (lists : Lists files listing) {id : Ulid}
    {rest : Bytes} (zeroed : files (.sec id) = some (0 :: rest)) :
    Store.«open» files listing sealer pass ≠ .ok store := by
  intro opened
  have among : FileName.sec id ∈ listing := (lists.2 _).mpr (by rw [zeroed]; rfl)
  have fold : ∃ master index, listing.foldlM (Store.openEntry files master) ∅ = .ok index := by
    unfold Store.«open» at opened
    split at opened
    · cases opened
    · rcases ok_of_bind_ok opened with ⟨key, -, opened⟩
      split at opened
      · cases opened
      · rename_i master _
        rcases ok_of_bind_ok opened with ⟨index, run, -⟩
        exact ⟨master, index, run⟩
  rcases fold with ⟨master, index, run⟩
  rcases exists_of_mem_foldlM run among with ⟨before, after, step⟩
  have isSec : ¬(FileName.sec id).extension ≠ some "sec" := not_not.mpr rfl
  rw [Store.openEntry, if_neg isSec] at step
  simp only [zeroed] at step
  rcases ok_of_bind_ok step with ⟨file, decoded, -⟩
  exact File.decode_zero rest file decoded

/-! ## What a write and a removal keep -/

/-- A record under a name of its own, or in the place of the name's record, is backed once
its file is there. -/
theorem Backed.write (backed : Backed sealer pass files store) {record : Meta} {value : Bytes}
    (readable : record.Readable) (small : value.length ≤ maxValue)
    (own : ∀ name entry, store.index.lookup name = some entry →
      (name = record.name ↔ entry.«meta».id = record.id)) (draws : Draws) :
    Backed sealer pass
      (Function.update files (.sec record.id) (some (store.fileOf record value draws).encode))
      (store.insert record (.sec record.id)) := by
  have fileOf (other : Meta) (value : Bytes) (draws : Draws) :
      (store.insert record (.sec record.id)).fileOf other value draws =
        store.fileOf other value draws := rfl
  have found (name : String) : (store.insert record (.sec record.id)).index.lookup name =
      if name = record.name then some ⟨record, .sec record.id⟩ else store.index.lookup name := by
    by_cases same : name = record.name
    · rw [same, if_pos rfl]
      exact Finmap.lookup_insert _
    · rw [if_neg same]
      exact Finmap.lookup_insert_of_ne _ same
  constructor
  · rcases backed.master with ⟨blob, held, opens⟩
    refine ⟨blob, ?_, opens⟩
    rw [Function.update_of_ne (by simp [FileName.master, FileName.sec]), held]
  · intro name entry looked
    rw [found] at looked
    split at looked
    · rename_i same
      cases looked
      exact ⟨same.symm, rfl, readable, value, small, draws, Function.update_self _ _ _⟩
    · rename_i other
      rcases backed.entries name entry looked with ⟨named, path, readable', value', small', draws',
        held⟩
      refine ⟨named, path, readable', value', small', draws', ?_⟩
      have apart : FileName.sec entry.«meta».id ≠ .sec record.id := fun same =>
        other ((own name entry looked).mpr (FileName.sec_injective same))
      rw [Function.update_of_ne apart, held, fileOf]
  · intro path isSec held
    by_cases same : path = .sec record.id
    · exact ⟨record.name, ⟨record, .sec record.id⟩, by rw [found, if_pos rfl], same.symm⟩
    · rw [Function.update_of_ne same] at held
      rcases backed.records path isSec held with ⟨name, entry, looked, rfl⟩
      refine ⟨name, entry, ?_, rfl⟩
      have other : name ≠ record.name := by
        intro isName
        refine same ?_
        rw [(backed.entries name entry looked).2.1, (own name entry looked).mp isName]
      rw [found, if_neg other, looked]
  · intro name other entry entry' looked looked' sameId
    rw [found] at looked looked'
    split at looked <;> split at looked'
    · rename_i first second
      exact first.trans second.symm
    · rename_i first second
      cases looked
      exact absurd ((own other entry' looked').mpr sameId.symm) second
    · rename_i first second
      cases looked'
      exact absurd ((own name entry looked).mpr sameId) first
    · exact backed.distinct name other entry entry' looked looked' sameId

theorem Backed.erase (backed : Backed sealer pass files store) {name : String} {entry : Entry}
    (looked : store.index.lookup name = some entry) :
    Backed sealer pass (Function.update files entry.path none)
      { store with index := store.index.erase name } := by
  have path := (backed.entries name entry looked).2.1
  have found (other : String) : (store.index.erase name).lookup other =
      if other = name then none else store.index.lookup other := by
    by_cases same : other = name
    · rw [same, if_pos rfl, Finmap.lookup_erase]
    · rw [if_neg same, Finmap.lookup_erase_ne same]
  constructor
  · rcases backed.master with ⟨blob, held, opens⟩
    refine ⟨blob, ?_, opens⟩
    rw [path, Function.update_of_ne (by simp [FileName.master, FileName.sec]), held]
  · intro other entry' looked'
    rw [found] at looked'
    split at looked'
    · cases looked'
    · rename_i different
      rcases backed.entries other entry' looked' with ⟨named, path', readable, value, small, draws,
        held⟩
      refine ⟨named, path', readable, value, small, draws, ?_⟩
      have apart : FileName.sec entry'.«meta».id ≠ entry.path := by
        rw [path]
        exact fun same => different (backed.distinct other name entry' entry looked' looked
          (FileName.sec_injective same))
      rw [Function.update_of_ne apart, held]
      rfl
  · intro path' isSec held
    by_cases same : path' = entry.path
    · rw [same, Function.update_self] at held
      cases held
    · rw [Function.update_of_ne same] at held
      rcases backed.records path' isSec held with ⟨other, entry', looked', rfl⟩
      refine ⟨other, entry', ?_, rfl⟩
      have different : other ≠ name := by
        rintro rfl
        rw [looked] at looked'
        cases looked'
        exact same rfl
      rw [found, if_neg different, looked']
  · intro first second entry₁ entry₂ looked₁ looked₂ sameId
    rw [found] at looked₁ looked₂
    split at looked₁ <;> split at looked₂
    · cases looked₁
    · cases looked₁
    · cases looked₂
    · exact backed.distinct first second entry₁ entry₂ looked₁ looked₂ sameId

end Backed

end EclipseOS.Brokerd
