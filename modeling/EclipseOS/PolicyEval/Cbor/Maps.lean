import EclipseOS.PolicyEval.Cbor.Accepts

/-! # Reading maps

A map reader takes entries in strictly ascending order of their encoded keys
and hands each one to the field reader, which carries an accumulator. -/

namespace EclipseOS.PolicyEval.Cbor

open Foundation

/-- The bytes of one map entry with a text key. -/
def rowBytes (row : String × Bytes) : Bytes := Writer.text row.1 ++ row.2

/-- The bytes of a map whose entries come in this order. -/
def mapBytes (rows : List (String × Bytes)) : Bytes :=
  Writer.map rows.length ++ rows.flatMap rowBytes

/-- The last key read, after `rows`. -/
def lastKey (previous : Option Bytes) (rows : List (String × Bytes)) : Option Bytes :=
  rows.foldl (fun _ row => some (Writer.text row.1)) previous

/-- Encoded keys strictly ascend, from `previous` on. -/
def KeysAscend (previous : Option Bytes) (rows : List (String × Bytes)) : Prop :=
  List.IsChain (· < ·) (previous.toList ++ rows.map fun row => Writer.text row.1)

def KeysFit (rows : List (String × Bytes)) : Prop :=
  ∀ row ∈ rows, (utf8 row.1).length < 2 ^ 64

section Maps

variable {ε : Type} [FromCbor ε] {σ : Type} {depth : Nat} {encoding : Bytes}

/-- The fields go from one state to another over these entries. -/
inductive Rows (field : String → σ → Read ε σ) (depth : Nat) :
    σ → List (String × Bytes) → σ → Prop where
  | nil {fields} : Rows field depth fields [] fields
  | cons {key value before middle after rows}
      (step : Accepts (field key before) depth middle value)
      (rest : Rows field depth middle rows after) :
      Rows field depth before ((key, value) :: rows) after

theorem run_noteKey (encoded rest : Bytes) (frame : Frame)
    (outer : List Frame) :
    (noteKey encoded : Read ε Unit).run ⟨rest, frame :: outer⟩ =
      if frame.left = 0 then .error (FromCbor.fromCbor .unbalanced)
      else if frame.previous.any (encoded ≤ ·) then
        .error (FromCbor.fromCbor .notCanonical)
      else .ok ((), ⟨rest, ⟨some encoded, frame.left - 1⟩ :: outer⟩) := by
  change (ite _ _ _ : Read ε Unit).run _ = _
  split
  · rfl
  · split <;> rfl

theorem run_key_iff {input : Bytes} {frame : Frame} {outer : List Frame}
    {name : String} {after : Reader} :
    (key : Read ε String).run ⟨input, frame :: outer⟩ = .ok (name, after) ↔
      ∃ rest, input = Writer.text name ++ rest ∧ (utf8 name).length < 2 ^ 64 ∧
        frame.left ≠ 0 ∧ (∀ previous ∈ frame.previous, previous < Writer.text name) ∧
        after = ⟨rest, ⟨some (Writer.text name), frame.left - 1⟩ :: outer⟩ := by
  have unfolded : (key : Read ε String).run ⟨input, frame :: outer⟩ =
      (spanned text).run ⟨input, frame :: outer⟩ >>= fun found =>
        (noteKey found.1.2).run found.2 >>= fun noted => .ok (found.1.1, noted.2) :=
    rfl
  rw [unfolded]
  constructor
  · intro success
    rcases ok_of_bind_ok success with ⟨⟨⟨found, span⟩, middle⟩, read, noting⟩
    rcases ok_of_bind_ok noting with ⟨⟨_, noted⟩, note, result⟩
    rcases Local.accepts read with ⟨encoding, rfl, mapsEqual, accepts⟩
    rcases accepts_spanned.mp accepts with ⟨rfl, accepted⟩
    rcases accepts_text.mp accepted with ⟨rfl, fits⟩
    cases result
    obtain ⟨rest, maps⟩ := middle
    cases mapsEqual
    rw [run_noteKey] at note
    split at note
    · cases note
    · rename_i remaining
      split at note
      · cases note
      · rename_i ascending
        cases note
        refine ⟨rest, rfl, fits, remaining, fun previous known => ?_, rfl⟩
        rw [Option.mem_def.mp known] at ascending
        simpa [List.not_le] using ascending
  · rintro ⟨rest, rfl, fits, remaining, ascending, rfl⟩
    have accepts : Accepts (spanned text : Read ε _) (frame :: outer).length
        (name, Writer.text name) (Writer.text name) :=
      accepts_spanned.mpr ⟨rfl, accepts_text.mpr ⟨rfl, fits⟩⟩
    have fresh : ¬frame.previous.any (Writer.text name ≤ ·) = true := by
      cases known : frame.previous with
      | none => simp
      | some previous => simpa [List.not_le] using ascending previous known
    rw [accepts rest _ rfl]
    change (noteKey _).run _ >>= _ = _
    rw [run_noteKey, if_neg remaining, if_neg fresh]
    rfl

theorem keysAscend_cons {previous : Option Bytes} {name : String} {value : Bytes}
    {rows : List (String × Bytes)} :
    KeysAscend previous ((name, value) :: rows) ↔
      (∀ bytes ∈ previous, bytes < Writer.text name) ∧
        KeysAscend (some (Writer.text name)) rows := by
  cases previous <;> simp [KeysAscend]

variable {field : String → σ → Read ε σ} [∀ name fields, Local (field name fields)]

private theorem run_eachKey_iff {n : Nat} {before after : σ} {input : Bytes}
    {previous : Option Bytes} {left : Nat} {outer : List Frame} {reader : Reader}
    (enough : n ≤ left) :
    (eachKey field n before).run ⟨input, ⟨previous, left⟩ :: outer⟩ =
        .ok (after, reader) ↔
      ∃ rows rest, rows.length = n ∧ input = rows.flatMap rowBytes ++ rest ∧
        KeysAscend previous rows ∧ KeysFit rows ∧
        Rows field (outer.length + 1) before rows after ∧
        reader = ⟨rest, ⟨lastKey previous rows, left - n⟩ :: outer⟩ := by
  induction n generalizing before input previous left with
  | zero =>
    constructor
    · intro success
      cases success
      exact ⟨[], input, rfl, rfl, by cases previous <;> simp [KeysAscend],
        by simp [KeysFit], .nil, rfl⟩
    · rintro ⟨rows, rest, length, rfl, -, -, chain, rfl⟩
      obtain rfl := List.length_eq_zero_iff.mp length
      cases chain
      rfl
  | succ n induction =>
    have unfolded : (eachKey field (n + 1) before).run ⟨input, ⟨previous, left⟩ :: outer⟩ =
        key.run ⟨input, ⟨previous, left⟩ :: outer⟩ >>= fun named =>
          (field named.1 before).run named.2 >>= fun stepped =>
            (eachKey field n stepped.1).run stepped.2 :=
      rfl
    have room : n ≤ left - 1 := by omega
    rw [unfolded]
    constructor
    · intro success
      rcases ok_of_bind_ok success with ⟨⟨name, named⟩, keyRun, continued⟩
      rcases ok_of_bind_ok continued with ⟨⟨middle, stepped⟩, step, others⟩
      rcases run_key_iff.mp keyRun with ⟨rest, rfl, fits, -, ascending, rfl⟩
      rcases Local.accepts step with ⟨value, rfl, mapsEqual, accepts⟩
      obtain ⟨rest, maps⟩ := stepped
      cases mapsEqual
      rcases (induction room).mp others with
        ⟨rows, rest, rfl, rfl, rowsAscend, rowsFit, chain, rfl⟩
      refine ⟨(name, value) :: rows, rest, rfl, ?_, keysAscend_cons.mpr
        ⟨ascending, rowsAscend⟩, ?_, .cons accepts chain, ?_⟩
      · simp [rowBytes]
      · exact List.forall_mem_cons.mpr ⟨fits, rowsFit⟩
      · simp [lastKey, Nat.sub_sub, Nat.add_comm]
    · rintro ⟨rows, rest, length, rfl, ascend, fits, chain, rfl⟩
      obtain ⟨⟨name, value⟩, rows, rfl⟩ := List.exists_cons_of_length_eq_add_one length
      rcases keysAscend_cons.mp ascend with ⟨ascending, rowsAscend⟩
      rcases List.forall_mem_cons.mp fits with ⟨nameFits, rowsFit⟩
      cases chain with
      | cons step chain =>
        have keyRun : key.run ⟨((name, value) :: rows).flatMap rowBytes ++ rest,
            ⟨previous, left⟩ :: outer⟩ = .ok (name, ⟨value ++ (rows.flatMap rowBytes ++
              rest), ⟨some (Writer.text name), left - 1⟩ :: outer⟩) :=
          (run_key_iff (ε := ε)).mpr ⟨_, by simp [rowBytes], nameFits,
            (show left ≠ 0 by omega), ascending, rfl⟩
        rw [keyRun]
        change (field name before).run _ >>= _ = _
        rw [step _ (⟨some (Writer.text name), left - 1⟩ :: outer) rfl]
        refine (induction room).mpr ⟨rows, rest, by simpa using length, rfl, rowsAscend,
          rowsFit, chain, ?_⟩
        simp [lastKey, Nat.sub_sub, Nat.add_comm]

/-- The rest of a map once its head has given the number of pairs. -/
def mapItems (initial : σ) (field : String → σ → Read ε σ) (pairs : Nat) : Read ε σ := do
  pushMap pairs
  let fields ← eachKey field pairs initial
  mapEnd
  return fields

omit [∀ name fields, Local (field name fields)] in
theorem readMap_eq (initial : σ) :
    readMap initial field = expect majorMap >>= mapItems initial field := by
  simp only [readMap, mapBegin, bind_assoc, pure_bind]
  rfl

omit [∀ name fields, Local (field name fields)] in
private theorem run_mapItems (initial : σ) (pairs : Nat) (reader : Reader) :
    (mapItems initial field pairs).run reader =
      if maxMapDepth ≤ reader.maps.length then .error (FromCbor.fromCbor .tooDeep)
      else (eachKey field pairs initial).run
        ⟨reader.rest, ⟨none, pairs⟩ :: reader.maps⟩ >>= fun read =>
          mapEnd.run read.2 >>= fun closed => .ok (read.1, closed.2) := by
  have unfolded : (mapItems initial field pairs).run reader =
      (pushMap pairs).run reader >>= fun pushed =>
        (eachKey field pairs initial).run pushed.2 >>= fun read =>
          mapEnd.run read.2 >>= fun closed => .ok (read.1, closed.2) :=
    rfl
  have push : (pushMap pairs : Read ε Unit).run reader =
      if maxMapDepth ≤ reader.maps.length then .error (FromCbor.fromCbor .tooDeep)
      else .ok ((), ⟨reader.rest, ⟨none, pairs⟩ :: reader.maps⟩) := by
    change (ite _ _ _ : Read ε Unit).run _ = _
    split <;> rfl
  rw [unfolded, push]
  split <;> rfl

private theorem run_mapItems_iff {initial after : σ} {pairs : Nat} {input : Bytes}
    {maps : List Frame} {reader : Reader} :
    (mapItems initial field pairs).run ⟨input, maps⟩ = .ok (after, reader) ↔
      maps.length < maxMapDepth ∧ ∃ rows rest, rows.length = pairs ∧
        input = rows.flatMap rowBytes ++ rest ∧ KeysAscend none rows ∧ KeysFit rows ∧
        Rows field (maps.length + 1) initial rows after ∧ reader = ⟨rest, maps⟩ := by
  rw [run_mapItems]
  by_cases room : maps.length < maxMapDepth
  · rw [if_neg (by simpa using room)]
    constructor
    · intro success
      rcases ok_of_bind_ok success with ⟨⟨fields, read⟩, each, closing⟩
      rcases ok_of_bind_ok closing with ⟨⟨_, closed⟩, close, result⟩
      rcases (run_eachKey_iff (Nat.le_refl pairs)).mp each with
        ⟨rows, rest, length, inputEqual, ascend, fits, chain, rfl⟩
      cases result
      rw [Nat.sub_self] at close
      cases close
      exact ⟨room, rows, rest, length, inputEqual, ascend, fits, chain, rfl⟩
    · rintro ⟨-, rows, rest, length, inputEqual, ascend, fits, chain, rfl⟩
      rw [(run_eachKey_iff (Nat.le_refl pairs)).mpr
        ⟨rows, rest, length, inputEqual, ascend, fits, chain, rfl⟩, Nat.sub_self]
      rfl
  · rw [if_pos (by simpa using room)]
    constructor
    · intro failure
      cases failure
    · rintro ⟨shallow, -⟩
      exact absurd shallow room

instance Local.mapItems (initial : σ) (pairs : Nat) :
    Local (mapItems initial field pairs) where
  accepts := by
    intro input maps value reader success
    rcases run_mapItems_iff.mp success with
      ⟨room, rows, rest, length, rfl, ascend, fits, chain, rfl⟩
    refine ⟨rows.flatMap rowBytes, rfl, rfl, fun rest maps' depthEqual => ?_⟩
    rw [← depthEqual] at room chain
    exact run_mapItems_iff.mpr ⟨room, rows, rest, length, rfl, ascend, fits, chain, rfl⟩

theorem accepts_mapItems {initial after : σ} {pairs : Nat} :
    Accepts (mapItems initial field pairs) depth after encoding ↔
      depth < maxMapDepth ∧ ∃ rows, rows.length = pairs ∧
        encoding = rows.flatMap rowBytes ∧ KeysAscend none rows ∧ KeysFit rows ∧
        Rows field (depth + 1) initial rows after := by
  constructor
  · intro accepts
    rcases run_mapItems_iff.mp (accepts.run []) with
      ⟨room, rows, rest, length, inputEqual, ascend, fits, chain, result⟩
    obtain rfl : [] = rest := congrArg Reader.rest result
    rw [openMaps, List.length_replicate] at room chain
    exact ⟨room, rows, length, by simpa using inputEqual, ascend, fits, chain⟩
  · rintro ⟨room, rows, length, rfl, ascend, fits, chain⟩ rest maps rfl
    exact run_mapItems_iff.mpr ⟨room, rows, rest, length, rfl, ascend, fits, chain, rfl⟩

instance Local.readMap (initial : σ) : Local (readMap initial field) := by
  rw [readMap_eq]
  infer_instance

/-- A map reader accepts the entries its fields accept, in ascending order of
their encoded keys. -/
theorem accepts_readMap {initial after : σ} :
    Accepts (readMap initial field) depth after encoding ↔
      depth < maxMapDepth ∧ ∃ rows, rows.length < 2 ^ 64 ∧ encoding = mapBytes rows ∧
        KeysAscend none rows ∧ KeysFit rows ∧
        Rows field (depth + 1) initial rows after := by
  simp only [readMap_eq, accepts_bind, accepts_expect, accepts_mapItems,
    headFits_iff majorMap (by decide) (by decide)]
  constructor
  · rintro ⟨pairs, _, _, rfl, ⟨rfl, small⟩, room, rows, rfl, rfl, ascend, fits, chain⟩
    exact ⟨room, rows, small, rfl, ascend, fits, chain⟩
  · rintro ⟨room, rows, small, rfl, ascend, fits, chain⟩
    exact ⟨_, _, _, rfl, ⟨rfl, small⟩, room, rows, rfl, rfl, ascend, fits, chain⟩

theorem run_mapBegin {pairs : Nat} (small : pairs < 2 ^ 64) (rest : Bytes)
    {maps : List Frame} (room : maps.length < maxMapDepth) :
    (mapBegin : Read ε Nat).run ⟨Writer.map pairs ++ rest, maps⟩ =
      .ok (pairs, ⟨rest, ⟨none, pairs⟩ :: maps⟩) := by
  have opened : Accepts (expect majorMap : Read ε Nat) maps.length pairs (Writer.map pairs) :=
    accepts_expect.mpr ⟨rfl, (headFits_iff majorMap (by decide) (by decide)).mpr small⟩
  have push : (pushMap pairs : Read ε Unit).run ⟨rest, maps⟩ =
      .ok ((), ⟨rest, ⟨none, pairs⟩ :: maps⟩) := by
    change (ite _ _ _ : Read ε Unit).run _ = _
    rw [if_neg (Nat.not_le.mpr room)]
    rfl
  have unfolded (reader : Reader) : (mapBegin : Read ε Nat).run reader =
      (expect majorMap).run reader >>= fun found =>
        (pushMap found.1).run found.2 >>= fun pushed => .ok (found.1, pushed.2) :=
    rfl
  rw [unfolded, opened rest maps rfl]
  change (pushMap pairs).run _ >>= _ = _
  rw [push]
  rfl

theorem run_intKey {label : Int64} {frame : Frame} {outer : List Frame} (rest : Bytes)
    (remaining : frame.left ≠ 0) (fresh : ¬frame.previous.any (Writer.i64 label ≤ ·)) :
    (intKey : Read ε Int64).run ⟨Writer.i64 label ++ rest, frame :: outer⟩ =
      .ok (label, ⟨rest, ⟨some (Writer.i64 label), frame.left - 1⟩ :: outer⟩) := by
  have unfolded : (intKey : Read ε Int64).run ⟨Writer.i64 label ++ rest, frame :: outer⟩ =
      (spanned i64).run ⟨Writer.i64 label ++ rest, frame :: outer⟩ >>= fun found =>
        (noteKey found.1.2).run found.2 >>= fun noted => .ok (found.1.1, noted.2) :=
    rfl
  rw [unfolded, (accepts_i64 label).spanned rest _ rfl]
  change (noteKey _).run _ >>= _ = _
  rw [run_noteKey, if_neg remaining, if_neg fresh]
  rfl

end Maps

end EclipseOS.PolicyEval.Cbor
