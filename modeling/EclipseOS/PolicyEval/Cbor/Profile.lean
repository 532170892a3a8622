import EclipseOS.PolicyEval.Cbor.Trees

/-! # The profile

What the reader takes of any bytes, and what the map builder makes: the canonical items
and nothing else. -/

namespace EclipseOS.PolicyEval.Cbor

open Foundation

namespace Tree

def Utf8 : Tree → Prop
  | text value => (fromUtf8 value).isSome
  | _ => True

def ofInt (value : Int64) : Tree :=
  if 0 ≤ value then uint (UInt64.ofNat value.toInt.toNat)
  else negint (UInt64.ofNat (-value.toInt - 1).toNat)

theorem encode_ofInt (value : Int64) : (ofInt value).encode = Writer.i64 value := by
  have upper := value.toInt_lt
  have lower := value.le_toInt
  rw [ofInt, Writer.i64]
  split
  · have small : value.toInt.toNat < 2 ^ 64 := by omega
    rw [encode, UInt64.toNat_ofNat_of_lt' small]
  · have small : (-value.toInt - 1).toNat < 2 ^ 64 := by omega
    rw [encode, UInt64.toNat_ofNat_of_lt' small]

theorem canonical_leaf {tree : Tree} (leaf : tree.parts = []) (fits : tree.Fits) :
    tree.Canonical :=
  .node fits (by simp [leaf])

theorem canonical_ofInt (value : Int64) : (ofInt value).Canonical := by
  rw [ofInt]
  split <;> exact canonical_leaf rfl trivial

end Tree

/-! ## What is read -/

/-- The reader takes the items that `of` says, whole, and no others. -/
def ReadsItems {α : Type} (read : Read Error α) (of : α → Tree → Prop) : Prop :=
  ∀ input maps value reader, read.run ⟨input, maps⟩ = .ok (value, reader) ↔
    ∃ tree : Tree, of value tree ∧ tree.Canonical ∧ input = tree.encode ++ reader.rest ∧
      reader.maps = maps

section Reading

variable {α : Type} {depth : Nat} {encoding : Bytes}

theorem readsItems_of_accepts {read : Read Error α} [Local read] {of : α → Tree → Prop}
    (accepts : ∀ depth value encoding, Accepts read depth value encoding ↔
      ∃ tree : Tree, of value tree ∧ tree.Canonical ∧ encoding = tree.encode) :
    ReadsItems read of := by
  intro input maps value reader
  constructor
  · intro success
    obtain ⟨encoding, whole, kept, accepted⟩ := Local.accepts success
    obtain ⟨tree, isOf, canonical, same⟩ := (accepts _ _ _).mp accepted
    exact ⟨tree, isOf, canonical, same ▸ whole, kept⟩
  · intro ⟨tree, isOf, canonical, whole, kept⟩
    have accepted := (accepts maps.length value tree.encode).mpr ⟨tree, isOf, canonical, rfl⟩
    obtain ⟨rest, after⟩ := reader
    subst whole kept
    exact accepted rest _ rfl

theorem readsItems_of_encode {read : Read Error α} [Local read] {tree : α → Tree}
    (accepts : ∀ depth value encoding, Accepts read depth value encoding ↔
      encoding = (tree value).encode ∧ (tree value).Canonical) :
    ReadsItems read fun value found => found = tree value := by
  apply readsItems_of_accepts
  intro depth value encoding
  rw [accepts]
  constructor
  · intro ⟨same, canonical⟩
    exact ⟨_, rfl, canonical, same⟩
  · intro ⟨found, isTree, canonical, same⟩
    subst isTree
    exact ⟨same, canonical⟩

private theorem i64_eq : (i64 : Read Error Int64) = head >>= fun found =>
    if found.1 = majorUint ∧ found.2 < 2 ^ 63 then pure (Int64.ofNat found.2)
    else if found.1 = majorNegint ∧ found.2 < 2 ^ 63 then
      pure (Int64.ofInt (-(found.2 : Int) - 1))
    else fail .type :=
  rfl

instance Local.i64 : Local (i64 : Read Error Int64) := by
  rw [i64_eq]
  infer_instance

theorem accepts_i64_iff {value : Int64} :
    Accepts (i64 : Read Error Int64) depth value encoding ↔ encoding = Writer.i64 value := by
  constructor
  · intro accepts
    simp only [i64_eq, accepts_bind, accepts_ite, accepts_pure, not_accepts_fail, and_false,
      or_false, Prod.exists, accepts_head] at accepts
    obtain ⟨major, arg, first, second, whole, ⟨spelled, -⟩, rest⟩ := accepts
    obtain ⟨⟨isUint, small⟩, same, none⟩ | ⟨-, ⟨isNegint, small⟩, same, none⟩ := rest
    · subst whole spelled none
      have number : value.toInt = arg := by
        rw [same, Int64.toInt_ofNat_of_lt small]
      have natural : 0 ≤ value := by
        rw [Int64.le_iff_toInt_le, number]
        exact Int.natCast_nonneg arg
      rw [List.append_nil, Writer.i64, if_pos natural, number, Int.toNat_natCast, isUint]
    · subst whole spelled none
      have number : value.toInt = -(arg : Int) - 1 := by
        rw [same, Int64.toInt_ofInt_of_le (by omega) (by omega)]
      have negative : ¬0 ≤ value := by
        rw [Int64.le_iff_toInt_le, number]
        show ¬0 ≤ -(arg : Int) - 1
        omega
      have back : (-value.toInt - 1).toNat = arg := by omega
      rw [List.append_nil, Writer.i64, if_neg negative, back, isNegint]
  · intro same
    exact same ▸ accepts_i64 value

theorem reads_u64 : ReadsItems u64 fun value tree => tree = .uint value := by
  apply readsItems_of_encode
  intro depth value encoding
  have canonical : (Tree.uint value).Canonical := Tree.canonical_leaf rfl trivial
  simp only [accepts_u64, canonical, and_true]
  rfl

theorem reads_i64 : ReadsItems i64 fun value tree => tree = .ofInt value := by
  apply readsItems_of_encode
  intro depth value encoding
  simp only [accepts_i64_iff, Tree.canonical_ofInt, and_true, Tree.encode_ofInt]

theorem reads_bytes : ReadsItems bytes fun value tree => tree = .bytes value := by
  apply readsItems_of_encode
  intro depth value encoding
  have canonical : (Tree.bytes value).Canonical ↔ value.length < 2 ^ 64 := by
    rw [Tree.Canonical, Tree.throughout_iff]
    simp [Tree.parts, Tree.Fits]
  rw [accepts_bytes, canonical]
  rfl

theorem reads_byteArray (n : Nat) :
    ReadsItems (byteArray n) fun value tree => tree = .bytes value.val := by
  apply readsItems_of_encode
  intro depth value encoding
  have canonical : (Tree.bytes value.val).Canonical ↔ n < 2 ^ 64 := by
    rw [Tree.Canonical, Tree.throughout_iff]
    simp [Tree.parts, Tree.Fits, value.property]
  rw [accepts_byteArray, canonical]
  rfl

theorem reads_text : ReadsItems text fun value tree => tree = .text (utf8 value) := by
  apply readsItems_of_encode
  intro depth value encoding
  have canonical : (Tree.text (utf8 value)).Canonical ↔ (utf8 value).length < 2 ^ 64 := by
    rw [Tree.Canonical, Tree.throughout_iff]
    simp [Tree.parts, Tree.Fits]
  rw [accepts_text, canonical]
  rfl

theorem reads_bool : ReadsItems bool fun value tree => tree = .bool value := by
  apply readsItems_of_encode
  intro depth value encoding
  have canonical : (Tree.bool value).Canonical := Tree.canonical_leaf rfl trivial
  simp only [accepts_bool, canonical, and_true]
  rfl

theorem run_head_iff {input : Bytes} {maps : List Frame} {major : UInt8} {arg : Nat}
    {reader : Reader} :
    (head : Read Error (UInt8 × Nat)).run ⟨input, maps⟩ = .ok ((major, arg), reader) ↔
      HeadFits major arg ∧ input = Writer.head major arg ++ reader.rest ∧ reader.maps = maps := by
  constructor
  · intro success
    obtain ⟨encoding, whole, kept, accepted⟩ := Local.accepts success
    obtain ⟨same, fits⟩ := accepts_head.mp accepted
    exact ⟨fits, same ▸ whole, kept⟩
  · intro ⟨fits, whole, kept⟩
    have accepted : Accepts (head : Read Error (UInt8 × Nat)) maps.length (major, arg)
        (Writer.head major arg) :=
      accepts_head.mpr ⟨rfl, fits⟩
    obtain ⟨rest, after⟩ := reader
    subst whole kept
    exact accepted rest _ rfl

/-! ### Keys -/

/-- The reader takes a key of the innermost map, after all that came before it. -/
def ReadsKeys {α : Type} (read : Read Error α) (keyOf : α → Key) : Prop :=
  ∀ input maps value reader, read.run ⟨input, maps⟩ = .ok (value, reader) ↔
    ∃ frame outer, maps = frame :: outer ∧ (keyOf value).Fits ∧
      input = (keyOf value).encode ++ reader.rest ∧ frame.left ≠ 0 ∧
      (∀ previous ∈ frame.previous, previous < (keyOf value).encode) ∧
      reader.maps = ⟨some (keyOf value).encode, frame.left - 1⟩ :: outer

theorem readsKeys_of_accepts {read : Read Error α} [Local read] {keyOf : α → Key}
    (accepts : ∀ depth value encoding, Accepts read depth value encoding ↔
      encoding = (keyOf value).encode ∧ (keyOf value).Fits) :
    ReadsKeys (spanned read >>= fun found => noteKey found.2 >>= fun _ => pure found.1) keyOf := by
  intro input maps value reader
  have unfolded : (spanned read >>= fun found => noteKey found.2 >>= fun _ =>
      pure found.1).run ⟨input, maps⟩ =
      (spanned read).run ⟨input, maps⟩ >>= fun found =>
        (noteKey found.1.2).run found.2 >>= fun noted => .ok (found.1.1, noted.2) :=
    rfl
  rw [unfolded]
  constructor
  · intro success
    obtain ⟨⟨⟨found, span⟩, middle⟩, isRead, noting⟩ := ok_of_bind_ok success
    obtain ⟨⟨_, noted⟩, note, result⟩ := ok_of_bind_ok noting
    obtain ⟨encoding, whole, kept, accepted⟩ := Local.accepts isRead
    obtain ⟨isSpan, isValue⟩ := accepts_spanned.mp accepted
    obtain ⟨spelled, fits⟩ := (accepts _ _ _).mp isValue
    subst isSpan spelled
    cases result
    obtain ⟨rest, opened⟩ := middle
    cases kept
    cases opened with
    | nil => cases note
    | cons frame outer =>
      rw [run_noteKey] at note
      split at note
      · cases note
      · rename_i remaining
        split at note
        · cases note
        · rename_i ascending
          cases note
          refine ⟨frame, outer, rfl, fits, whole, remaining, ?_, rfl⟩
          intro previous known
          rw [Option.mem_def.mp known] at ascending
          simpa [List.not_le] using ascending
  · intro ⟨frame, outer, isOpen, fits, whole, remaining, ascending, kept⟩
    obtain ⟨rest, after⟩ := reader
    subst isOpen whole kept
    have accepted : Accepts (spanned read) (frame :: outer).length
        (value, (keyOf value).encode) (keyOf value).encode :=
      accepts_spanned.mpr ⟨rfl, (accepts _ _ _).mpr ⟨rfl, fits⟩⟩
    have fresh : ¬frame.previous.any ((keyOf value).encode ≤ ·) = true := by
      cases known : frame.previous with
      | none => simp
      | some previous => simpa [List.not_le] using ascending previous known
    rw [accepted rest _ rfl]
    change (noteKey _).run _ >>= _ = _
    rw [run_noteKey, if_neg remaining, if_neg fresh]
    rfl

theorem reads_key : ReadsKeys key .text :=
  readsKeys_of_accepts fun _ _ _ => accepts_text

theorem reads_intKey : ReadsKeys intKey .label := by
  apply readsKeys_of_accepts
  intro depth value encoding
  rw [accepts_i64_iff]
  exact (and_iff_left trivial).symm

end Reading

/-! ## What is built -/

/-- A builder that was given these entries in turn. -/
def MapBuilder.ofEntries (rows : List (Key × Tree)) : MapBuilder :=
  rows.foldl (fun builder row =>
    match row.1 with
    | .text name => builder.insert name row.2.encode
    | .label value => builder.insertInt value row.2.encode) .new

def readKey : Key → Read Error Key
  | .text _ => do return .text (← key)
  | .label _ => do return .label (← intKey)

/-- Keys of these kinds in turn, and the values skipped. -/
def readEntries : List Key → Read Error (List Key)
  | [] => return []
  | kind :: kinds => do
    let found ← readKey kind
    skip
    let others ← readEntries kinds
    return found :: others

/-- A whole map whose keys are of these kinds. -/
def readMapOf (kinds : List Key) : Read Error (List Key) := do
  let _ ← mapBegin
  let keys ← readEntries kinds
  mapEnd
  return keys

section Building

variable {rows : List (Key × Tree)}

theorem entries_ofEntries (rows : List (Key × Tree)) :
    (MapBuilder.ofEntries rows).entries = rows.map fun row => (row.1.encode, row.2.encode) := by
  have given (builder : MapBuilder) : (rows.foldl (fun builder row =>
      match row.1 with
      | .text name => builder.insert name row.2.encode
      | .label value => builder.insertInt value row.2.encode) builder).entries =
      builder.entries ++ rows.map fun row => (row.1.encode, row.2.encode) := by
    induction rows generalizing builder with
    | nil => simp
    | cons row rows induction =>
      rw [List.foldl_cons, induction, List.map_cons]
      obtain ⟨key, value⟩ := row
      cases key <;> simp [MapBuilder.insert, MapBuilder.insertInt, Key.encode]
  exact (given .new).trans (List.nil_append _)

def KeyOrder (left right : Key × Tree) : Prop := left.1.encode ≤ right.1.encode

instance : DecidableRel KeyOrder := fun left right =>
  inferInstanceAs (Decidable (left.1.encode ≤ right.1.encode))

instance : Std.Total KeyOrder := ⟨fun left right => List.le_total left.1.encode right.1.encode⟩

instance : IsTrans (Key × Tree) KeyOrder := ⟨fun _ _ _ first second => List.le_trans first second⟩

theorem finish_ofEntries (rows : List (Key × Tree)) :
    (MapBuilder.ofEntries rows).finish = (Tree.map (rows.insertionSort KeyOrder)).encode := by
  have sorted : (MapBuilder.ofEntries rows).entries.insertionSort MapBuilder.KeyLe =
      (rows.insertionSort KeyOrder).map fun row => (row.1.encode, row.2.encode) := by
    rw [entries_ofEntries]
    exact (List.map_insertionSort KeyOrder MapBuilder.KeyLe _ rows fun _ _ _ _ => Iff.rfl).symm
  rw [MapBuilder.finish, sorted, Tree.encode, Tree.encodeRows_eq, List.flatMap_map,
    entries_ofEntries, List.length_map, List.length_insertionSort]
  rfl

theorem fits_sorted (distinct : (rows.map Prod.fst).Nodup) (fits : ∀ row ∈ rows, row.1.Fits)
    (few : rows.length < 2 ^ 64) : (Tree.map (rows.insertionSort KeyOrder)).Fits := by
  have perm := List.perm_insertionSort KeyOrder rows
  refine ⟨by rwa [List.length_insertionSort], ?_, fun row member => fits row (perm.subset member)⟩
  have ascend := List.pairwise_insertionSort KeyOrder rows
  have apart : (rows.insertionSort KeyOrder).Pairwise fun left right => left.1 ≠ right.1 :=
    List.pairwise_map.mp ((perm.map Prod.fst).nodup_iff.mpr distinct)
  rw [List.pairwise_map]
  refine (ascend.and apart).imp_of_mem ?_
  intro left right inLeft inRight ⟨before, differ⟩
  by_contra notBefore
  have same : left.1.encode = right.1.encode := List.le_antisymm before (List.not_lt.mp notBefore)
  exact differ (Key.encode_inj (fits left (perm.subset inLeft)) (fits right (perm.subset inRight))
    same)

/-! ### Reading it back -/

theorem run_readKey {key : Key} {frame : Frame} {outer : List Frame} (rest : Bytes)
    (fits : key.Fits) (remaining : frame.left ≠ 0)
    (fresh : ∀ previous ∈ frame.previous, previous < key.encode) :
    (readKey key).run ⟨key.encode ++ rest, frame :: outer⟩ =
      .ok (key, ⟨rest, ⟨some key.encode, frame.left - 1⟩ :: outer⟩) := by
  cases key with
  | text name =>
    have read : (Cbor.key : Read Error String).run ⟨Writer.text name ++ rest, frame :: outer⟩ =
        .ok (name, ⟨rest, ⟨some (Writer.text name), frame.left - 1⟩ :: outer⟩) :=
      run_key_iff.mpr ⟨rest, rfl, fits, remaining, fresh, rfl⟩
    have unfolded (reader : Reader) : (readKey (.text name)).run reader =
        (Cbor.key : Read Error String).run reader >>= fun found => .ok (.text found.1, found.2) :=
      rfl
    rw [unfolded, Key.encode, read]
    rfl
  | label value =>
    have notSeen : ¬frame.previous.any (Writer.i64 value ≤ ·) = true := by
      cases known : frame.previous with
      | none => simp
      | some previous =>
        have before : previous < Writer.i64 value := fresh previous known
        simpa [List.not_le] using before
    have read : (intKey : Read Error Int64).run ⟨Writer.i64 value ++ rest, frame :: outer⟩ =
        .ok (value, ⟨rest, ⟨some (Writer.i64 value), frame.left - 1⟩ :: outer⟩) :=
      run_intKey rest remaining notSeen
    have unfolded (reader : Reader) : (readKey (.label value)).run reader =
        (intKey : Read Error Int64).run reader >>= fun found => .ok (.label found.1, found.2) :=
      rfl
    rw [unfolded, Key.encode, read]
    rfl

theorem run_readEntries {rows : List (Key × Tree)} {previous : Option Bytes} {left : Nat}
    {outer : List Frame} (rest : Bytes) (fits : ∀ row ∈ rows, row.1.Fits)
    (values : ∀ row ∈ rows, row.2.Skippable (outer.length + 1)) (enough : rows.length ≤ left)
    (ascend : (rows.map fun row => row.1.encode).Pairwise (· < ·))
    (fresh : ∀ seen ∈ previous, ∀ row ∈ rows, seen < row.1.encode) :
    ∃ last, (readEntries (rows.map Prod.fst)).run
        ⟨Tree.encodeRows rows ++ rest, ⟨previous, left⟩ :: outer⟩ =
      .ok (rows.map Prod.fst, ⟨rest, ⟨last, left - rows.length⟩ :: outer⟩) := by
  induction rows generalizing previous left with
  | nil => exact ⟨previous, rfl⟩
  | cons row rows induction =>
    obtain ⟨key, value⟩ := row
    obtain ⟨keyFits, restFits⟩ := List.forall_mem_cons.mp fits
    obtain ⟨valueSkips, restSkip⟩ := List.forall_mem_cons.mp values
    obtain ⟨before, restAscend⟩ := List.pairwise_cons.mp ascend
    have room : rows.length ≤ left - 1 := by
      rw [List.length_cons] at enough
      omega
    have later : ∀ seen ∈ some key.encode, ∀ row ∈ rows, seen < row.1.encode := by
      intro seen isSeen row member
      cases isSeen
      exact before _ (List.mem_map_of_mem member)
    obtain ⟨last, others⟩ := induction restFits restSkip room restAscend later
    have remaining : left ≠ 0 := by
      rw [List.length_cons] at enough
      omega
    have readOne : (readKey key).run
        ⟨key.encode ++ (value.encode ++ (Tree.encodeRows rows ++ rest)),
          ⟨previous, left⟩ :: outer⟩ =
        .ok (key, ⟨value.encode ++ (Tree.encodeRows rows ++ rest),
          ⟨some key.encode, left - 1⟩ :: outer⟩) :=
      run_readKey _ keyFits remaining fun seen isSeen => fresh seen isSeen _ List.mem_cons_self
    have skipOne : (skip : Read Error Unit).run
        ⟨value.encode ++ (Tree.encodeRows rows ++ rest), ⟨some key.encode, left - 1⟩ :: outer⟩ =
        .ok ((), ⟨Tree.encodeRows rows ++ rest, ⟨some key.encode, left - 1⟩ :: outer⟩) :=
      Tree.accepts_skip_iff.mpr ⟨value, rfl, valueSkips⟩ _ _ rfl
    have unfolded (reader : Reader) : (readEntries (key :: rows.map Prod.fst)).run reader =
        (readKey key).run reader >>= fun found =>
          (skip : Read Error Unit).run found.2 >>= fun skipped =>
            (readEntries (rows.map Prod.fst)).run skipped.2 >>= fun others =>
              .ok (found.1 :: others.1, others.2) :=
      rfl
    refine ⟨last, ?_⟩
    rw [List.map_cons, unfolded, Tree.encodeRows, List.append_assoc, List.append_assoc, readOne]
    change (skip.run _ >>= _) = _
    rw [skipOne]
    change ((readEntries _).run _ >>= _) = _
    rw [others, List.length_cons, Nat.sub_sub, Nat.add_comm 1]
    rfl

theorem accepts_readMapOf {depth : Nat} (room : depth < maxMapDepth)
    (fits : (Tree.map rows).Fits) (values : ∀ row ∈ rows, row.2.Skippable (depth + 1)) :
    Accepts (readMapOf (rows.map Prod.fst)) depth (rows.map Prod.fst) (Tree.map rows).encode := by
  intro rest maps depthEqual
  subst depthEqual
  obtain ⟨few, ascend, keysFit⟩ := fits
  have opened : (mapBegin : Read Error Nat).run
      ⟨Writer.map rows.length ++ (Tree.encodeRows rows ++ rest), maps⟩ =
      .ok (rows.length, ⟨Tree.encodeRows rows ++ rest, ⟨none, rows.length⟩ :: maps⟩) :=
    run_mapBegin few _ room
  have none : ∀ seen ∈ (none : Option Bytes), ∀ row ∈ rows, seen < row.1.encode := nofun
  obtain ⟨last, entries⟩ := run_readEntries rest keysFit values (Nat.le_refl _) ascend none
  have unfolded (reader : Reader) : (readMapOf (rows.map Prod.fst)).run reader =
      (mapBegin : Read Error Nat).run reader >>= fun opened =>
        (readEntries (rows.map Prod.fst)).run opened.2 >>= fun keys =>
          (mapEnd : Read Error Unit).run keys.2 >>= fun closed => .ok (keys.1, closed.2) :=
    rfl
  rw [unfolded, Tree.encode, List.append_assoc, opened]
  change ((readEntries _).run _ >>= _) = _
  rw [entries, Nat.sub_self]
  rfl

end Building

/-! ## The reader and the builder -/

/-- Skipping takes the items of the profile that have texts for keys and no more open maps
than are allowed, and takes nothing whose heads, lengths or keys are not as in one. The
other reads take the items of their type and those alone. What the builder makes of
distinct keys is read back. -/
theorem reads_profile :
    (∀ (tree : Tree) maps rest, tree.Skippable maps.length → tree.Throughout Tree.Utf8 →
      (skip : Read Error Unit).run ⟨tree.encode ++ rest, maps⟩ = .ok ((), ⟨rest, maps⟩)) ∧
    (∀ input maps reader, (skip : Read Error Unit).run ⟨input, maps⟩ = .ok ((), reader) →
      ∃ tree : Tree, tree.Skippable maps.length ∧ input = tree.encode ++ reader.rest ∧
        reader.maps = maps) ∧
    (ReadsItems u64 (fun value tree => tree = .uint value) ∧
      ReadsItems i64 (fun value tree => tree = .ofInt value) ∧
      ReadsItems bytes (fun value tree => tree = .bytes value) ∧
      (∀ n, ReadsItems (byteArray n) fun value tree => tree = .bytes value.val) ∧
      ReadsItems text (fun value tree => tree = .text (utf8 value)) ∧
      ReadsItems bool (fun value tree => tree = .bool value) ∧
      ReadsKeys key .text ∧ ReadsKeys intKey .label) ∧
    (∀ input maps major arg reader,
      (head : Read Error (UInt8 × Nat)).run ⟨input, maps⟩ = .ok ((major, arg), reader) ↔
        HeadFits major arg ∧ input = Writer.head major arg ++ reader.rest ∧ reader.maps = maps) ∧
    (∀ value maps rest, (u64 : Read Error UInt64).run ⟨Writer.u64 value ++ rest, maps⟩ =
      .ok (value, ⟨rest, maps⟩)) ∧
    (∀ value maps rest, (i64 : Read Error Int64).run ⟨Writer.i64 value ++ rest, maps⟩ =
      .ok (value, ⟨rest, maps⟩)) ∧
    ∀ (rows : List (Key × Tree)) depth, (rows.map Prod.fst).Nodup → rows.length < 2 ^ 64 →
      (∀ row ∈ rows, row.1.Fits ∧ row.2.Skippable (depth + 1)) → depth < maxMapDepth →
      ∃ sorted : List (Key × Tree), sorted.Perm rows ∧ (Tree.map sorted).Canonical ∧
        (MapBuilder.ofEntries rows).finish = (Tree.map sorted).encode ∧
        Accepts (readMapOf (sorted.map Prod.fst)) depth (sorted.map Prod.fst)
          (MapBuilder.ofEntries rows).finish ∧
        ((∀ row ∈ rows, row.1.IsText) →
          Accepts (skip : Read Error Unit) depth () (MapBuilder.ofEntries rows).finish) := by
  refine ⟨?_, ?_, ?_, ?_, ?_, ?_, ?_⟩
  · intro tree maps rest skippable _
    exact Tree.accepts_skip_iff.mpr ⟨tree, rfl, skippable⟩ rest maps rfl
  · intro input maps reader success
    obtain ⟨encoding, whole, kept, accepted⟩ := Local.accepts success
    obtain ⟨tree, spelled, skippable⟩ := Tree.accepts_skip_iff.mp accepted
    exact ⟨tree, skippable, spelled ▸ whole, kept⟩
  · exact ⟨reads_u64, reads_i64, reads_bytes, reads_byteArray, reads_text, reads_bool, reads_key,
      reads_intKey⟩
  · intro input maps major arg reader
    exact run_head_iff
  · intro value maps rest
    exact accepts_u64.mpr rfl rest maps rfl
  · intro value maps rest
    exact accepts_i64 value rest maps rfl
  · intro rows depth distinct few each room
    have perm := List.perm_insertionSort KeyOrder rows
    have fits := fits_sorted distinct (fun row member => (each row member).1) few
    have values : ∀ row ∈ rows.insertionSort KeyOrder, row.2.Skippable (depth + 1) :=
      fun row member => (each row (perm.subset member)).2
    have parts : ∀ part ∈ (Tree.map (rows.insertionSort KeyOrder)).parts,
        part.Skippable (depth + 1) :=
      List.forall_mem_map.mpr values
    refine ⟨_, perm, .node fits fun part member => (parts part member).canonical,
      finish_ofEntries rows, ?_, ?_⟩
    · rw [finish_ofEntries]
      exact accepts_readMapOf room fits values
    · intro texts
      rw [finish_ofEntries]
      refine Tree.accepts_skip_iff.mpr ⟨_, rfl, Tree.skippable_iff.mpr ⟨fits, ?_, ?_, parts⟩⟩
      · exact fun row member => texts row (perm.subset member)
      · exact fun _ => room

def nestedMaps : Nat → Tree
  | 0 => .null
  | n + 1 => .map [(.text "k", nestedMaps n)]

/-- Nine maps in one another are of the profile, and are refused. -/
theorem nine_maps_refused :
    (nestedMaps 9).Canonical ∧ (nestedMaps 9).Throughout Tree.Utf8 ∧
      (nestedMaps 9).Throughout Tree.TextKeys ∧
      (skip : Read Error Unit).run (Reader.new (nestedMaps 9).encode) = .error .tooDeep := by
  have part {n : Nat} {tree : Tree} (member : tree ∈ (nestedMaps (n + 1)).parts) :
      tree = nestedMaps n := by
    simpa [nestedMaps, Tree.parts] using member
  refine ⟨?_, ?_, ?_, ?_⟩
  · generalize 9 = n
    induction n with
    | zero => exact Tree.canonical_leaf rfl trivial
    | succ n induction =>
      have short : (Key.text "k").Fits := by
        show (utf8 "k").length < 2 ^ 64
        decide
      refine .node ⟨?_, List.pairwise_singleton _ _, ?_⟩ fun tree member =>
        part member ▸ induction
      · show 1 < 2 ^ 64
        decide
      · simpa using short
  · generalize 9 = n
    induction n with
    | zero => exact .node trivial (List.forall_mem_nil _)
    | succ n induction => exact .node trivial fun tree member => part member ▸ induction
  · generalize 9 = n
    induction n with
    | zero => exact .node trivial (List.forall_mem_nil _)
    | succ n induction =>
      have texts : ∀ row ∈ [(Key.text "k", nestedMaps n)], row.1.IsText := by
        simp [Key.IsText]
      exact .node texts fun tree member => part member ▸ induction
  · decide +kernel

end EclipseOS.PolicyEval.Cbor
