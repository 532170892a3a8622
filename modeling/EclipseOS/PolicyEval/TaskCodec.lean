import EclipseOS.PolicyEval.Task

/-! # The counter codec

Counters that hold to the ring size and the canonical order of classes come
back as they were. Whatever else is decoded, the decoder stops at the end of the
block. -/

namespace EclipseOS.PolicyEval

open Foundation Cbor

/-! ## Rings -/

section Rings

variable {depth : Nat} {encoding : Bytes}

instance : Local decodeRing := by
  unfold decodeRing
  infer_instance

theorem accepts_decodeRing {ring : RateRing} :
    Accepts decodeRing depth ring encoding ↔
      encoding = encodeRing ring ∧ ring.stamps.length ≤ rateRing := by
  have stamps : ∀ n values part, Accepts (collect n (u64 : Read Cbor.Error UInt64)) depth values
      part ↔ values.length = n ∧ part = values.flatMap Writer.u64 := by
    intro n values part
    have stamp : ∀ (value : UInt64) (part : Bytes),
        Accepts (u64 : Read Cbor.Error UInt64) depth value part ↔ part = Writer.u64 value ∧ True := by
      simp
    rw [accepts_collect stamp]
    simp
  simp only [decodeRing, accepts_bind, accepts_arrayLen, accepts_ite, not_accepts_fail,
    and_false, false_or, stamps, accepts_pure]
  constructor
  · rintro ⟨n, _, second, rfl, ⟨rfl, -⟩, within, found, _, _, rfl, ⟨rfl, rfl⟩, rfl, rfl⟩
    exact ⟨by simp [encodeRing, arrayOf, RateRing.fromStamps], by simpa [RateRing.fromStamps] using within⟩
  · rintro ⟨rfl, within⟩
    have small : ring.stamps.length < 2 ^ 64 := lt_of_le_of_lt within (by decide)
    exact ⟨_, _, _, rfl, ⟨rfl, small⟩, by omega, ring.stamps, _, [],
      (List.append_nil _).symm, ⟨rfl, rfl⟩, rfl, rfl⟩

theorem encodeRing_framed {ring : RateRing} (short : (encodeRing ring).length < 2 ^ 64) :
    Framed (encodeRing ring) :=
  .ofArray (fun stamp _ => .ofU64 stamp) short

theorem length_encodeRing_le {ring : RateRing} (within : ring.stamps.length ≤ rateRing) :
    (encodeRing ring).length < 2 ^ 64 := by
  have head : ∀ arg, (Writer.head majorUint arg).length ≤ 9 := by
    intro arg
    unfold Writer.head
    dsimp only
    split_ifs <;> simp
  have stamps : ∀ stamps : List UInt64, (stamps.flatMap Writer.u64).length ≤ 9 * stamps.length := by
    intro stamps
    induction stamps with
    | nil => simp
    | cons stamp stamps induction =>
      have first := head stamp.toNat
      simp only [List.flatMap_cons, List.length_append, List.length_cons, Writer.u64]
        at induction ⊢
      omega
  have array : (Writer.array ring.stamps.length).length ≤ 9 := by
    unfold Writer.array Writer.head
    dsimp only
    split_ifs <;> simp
  have bound := stamps ring.stamps
  have small : rateRing = 32 := rfl
  rw [encodeRing, arrayOf, List.length_append]
  omega

theorem framed_of_accepts_decodeRing {ring : RateRing}
    (accepts : Accepts decodeRing depth ring encoding) : Framed encoding := by
  rcases accepts_decodeRing.mp accepts with ⟨rfl, within⟩
  exact encodeRing_framed (length_encodeRing_le within)

end Rings

namespace Counters

/-! ## Classes -/

section Classes

variable {depth : Nat} {encoding : Bytes}

instance local_readClass (name : String) (classes : List (String × RateRing)) :
    Local (readClass name classes) := by
  unfold readClass
  infer_instance

def classRows (classes : List (String × RateRing)) : List (String × Bytes) :=
  classes.map fun entry => (entry.1, encodeRing entry.2)

/-- The order a map's entries are written in. -/
def RowLe (left right : String × Bytes) : Prop := Writer.text left.1 ≤ Writer.text right.1

instance : DecidableRel RowLe := fun _ _ => inferInstanceAs (Decidable (_ ≤ _))

instance : Std.Total RowLe := ⟨fun _ _ => List.le_total _ _⟩

instance : IsTrans (String × Bytes) RowLe := ⟨fun _ _ _ first second => List.le_trans first second⟩

theorem encodeClasses_eq (classes : List (String × RateRing)) :
    encodeClasses classes = mapBytes ((classRows classes).insertionSort RowLe) := by
  have entries : ∀ builder : MapBuilder,
      (classes.foldl (fun builder entry => builder.insert entry.1 (encodeRing entry.2))
        builder).entries =
      builder.entries ++ (classRows classes).map fun row => (Writer.text row.1, row.2) := by
    induction classes with
    | nil => simp [classRows]
    | cons entry classes induction =>
      intro builder
      rw [List.foldl_cons, induction]
      simp [MapBuilder.insert, classRows]
  have sorted := List.map_insertionSort RowLe MapBuilder.KeyLe
    (fun row : String × Bytes => (Writer.text row.1, row.2)) (classRows classes)
    (fun _ _ _ _ => Iff.rfl)
  rw [encodeClasses, MapBuilder.finish, entries, MapBuilder.new, List.nil_append, ← sorted]
  simp only [List.length_map, List.flatMap_map, mapBytes, Writer.map,
    (List.perm_insertionSort RowLe (classRows classes)).length_eq]
  rfl

theorem rows_readClass {classes : List (String × RateRing)}
    (within : ∀ entry ∈ classes, entry.2.stamps.length ≤ rateRing)
    (before : List (String × RateRing)) :
    Rows readClass depth before (classRows classes) (before ++ classes) := by
  induction classes generalizing before with
  | nil => simpa [classRows] using Rows.nil
  | cons entry classes induction =>
    rw [List.forall_mem_cons] at within
    have first : Accepts (readClass entry.1 before) depth
        (before ++ [(entry.1, entry.2)]) (encodeRing entry.2) :=
      accepts_store.mpr ⟨entry.2, accepts_decodeRing.mpr ⟨rfl, within.1⟩, rfl⟩
    have rest := induction within.2 (before ++ [entry])
    rw [List.append_assoc] at rest
    exact .cons first rest

theorem framed_of_accepts_readClass {name : String} {before after : List (String × RateRing)}
    (accepts : Accepts (readClass name before) depth after encoding) : Framed encoding := by
  rcases accepts_store.mp accepts with ⟨ring, read, -⟩
  exact framed_of_accepts_decodeRing read

end Classes

/-! ## The block -/

section Block

variable {depth : Nat} {encoding : Bytes}

instance local_read (key : String) (counters : Counters) : Local (read key counters) := by
  unfold read
  split <;> infer_instance

instance : Local decode := by
  unfold decode
  infer_instance

structure Valid (counters : Counters) : Prop where
  irreversible : counters.irreversible.stamps.length ≤ rateRing
  rings : ∀ entry ∈ counters.irreversibleByClass, entry.2.stamps.length ≤ rateRing
  classes : NamesAscend (counters.irreversibleByClass.map Prod.fst)

def schema : Schema Counters :=
  [("retries", fun counters => some (Writer.u64 counters.retries.toUInt64)),
    ("irreversible", fun counters => some (encodeRing counters.irreversible)),
    ("prompts_shown", fun counters => some (Writer.u64 counters.promptsShown.toUInt64)),
    ("egress_bytes_up", fun counters => some (Writer.u64 counters.egressBytesUp)),
    ("prompts_allowed", fun counters => some (Writer.u64 counters.promptsAllowed.toUInt64)),
    ("channel_messages", fun counters => some (Writer.u64 counters.channelMessages.toUInt64)),
    ("irreversible_by_class",
      fun counters => some (encodeClasses counters.irreversibleByClass)),
    ("denied_irreversible_streak",
      fun counters => some (Writer.u64 counters.deniedIrreversibleStreak.toUInt64))]

theorem schema_ascend : NamesAscend (schema.map Prod.fst) := by
  show NamesAscend ["retries", "irreversible", "prompts_shown", "egress_bytes_up",
    "prompts_allowed", "channel_messages", "irreversible_by_class",
    "denied_irreversible_streak"]
  decide

theorem encode_eq (counters : Counters) :
    counters.encode = mapBytes (presentRows (schema.rows counters)) := by
  simp only [encode, MapBuilder.new_eq_ofRows, MapBuilder.insert_ofRows,
    List.nil_append, List.cons_append]
  exact Schema.finish_of_order schema_ascend [2, 4, 1, 6, 7, 0, 3, 5] (by decide) rfl

theorem encodeClasses_framed {classes : List (String × RateRing)}
    (short : (encodeClasses classes).length < 2 ^ 64) : Framed (encodeClasses classes) := by
  rw [encodeClasses_eq] at short ⊢
  refine .ofMap (fun row member => ?_) short
  have within := lt_of_le_of_lt (length_le_mapBytes member) short
  rcases List.mem_map.mp ((List.mem_insertionSort _).mp member) with ⟨entry, -, rfl⟩
  exact encodeRing_framed within

theorem rows_framed {counters : Counters} (short : counters.encode.length < 2 ^ 64) :
    ∀ row ∈ presentRows (schema.rows counters), Framed row.2 := by
  rw [encode_eq] at short
  refine Framed.presentRows ?_ short
  simp only [schema, List.forall_mem_cons, Option.mem_some_iff]
  refine ⟨?_, ?_, ?_, ?_, ?_, ?_, ?_, ?_, by simp⟩ <;> rintro _ rfl short
  · exact .ofU64 _
  · exact encodeRing_framed short
  · exact .ofU64 _
  · exact .ofU64 _
  · exact .ofU64 _
  · exact .ofU64 _
  · exact encodeClasses_framed short
  · exact .ofU64 _

theorem encode_framed {counters : Counters} (short : counters.encode.length < 2 ^ 64) :
    Framed counters.encode := by
  have framed := rows_framed short
  rw [encode_eq] at short ⊢
  exact .ofMap framed short

theorem accepts_readClasses {classes : List (String × RateRing)}
    (within : ∀ entry ∈ classes, entry.2.stamps.length ≤ rateRing)
    (ascend : NamesAscend (classes.map Prod.fst))
    (short : (encodeClasses classes).length < 2 ^ 64) (room : depth < maxMapDepth) :
    Accepts (readMap [] readClass) depth classes (encodeClasses classes) := by
  have keys : (classRows classes).map Prod.fst = classes.map Prod.fst := by simp [classRows]
  have sorted : (classRows classes).insertionSort RowLe = classRows classes := by
    refine (insertionSort_eq_self_iff RowLe _).mpr ?_
    rw [← keys] at ascend
    exact ascend.rows.imp fun before => List.le_of_lt before
  have framed : ∀ row ∈ classRows classes, Framed row.2 := by
    intro row member
    rcases List.mem_map.mp member with ⟨entry, inClasses, rfl⟩
    exact encodeRing_framed (length_encodeRing_le (within entry inClasses))
  rw [encodeClasses_eq, sorted] at short ⊢
  refine (accepts_mapBytes (fun _ _ _ _ => framed_of_accepts_readClass) framed short).mpr
    ⟨room, keysAscend_iff.mpr (by rwa [keys]), ?_⟩
  exact rows_readClass within []

theorem framed_of_accepts_read {key : String} {before after : Counters}
    (accepts : Accepts (read key before) depth after encoding) : Framed encoding := by
  unfold read at accepts
  split at accepts
  case h_3 =>
    rcases accepts_store.mp accepts with ⟨ring, found, -⟩
    exact framed_of_accepts_decodeRing found
  case h_4 =>
    rcases accepts_store.mp accepts with ⟨classes, found, -⟩
    exact framed_of_accepts_readMap (fun _ _ _ _ => framed_of_accepts_readClass) found
  case h_7 =>
    rcases accepts_store.mp accepts with ⟨value, found, -⟩
    rw [accepts_u64.mp found]
    exact .ofU64 _
  case h_9 =>
    rcases accepts_store.mp accepts with ⟨_, skipped, -⟩
    exact (accepts_skip.mp skipped).framed
  all_goals
    rcases accepts_store.mp accepts with ⟨value, found, -⟩
    rw [accepts_u32.mp found]
    exact .ofU64 _

theorem framed_of_accepts_decode {counters : Counters}
    (accepts : Accepts decode depth counters encoding) : Framed encoding :=
  framed_of_accepts_readMap (fun _ _ _ _ => framed_of_accepts_read) accepts

theorem accepts_decode {counters : Counters} (valid : counters.Valid)
    (short : counters.encode.length < 2 ^ 64) (room : depth + 1 < maxMapDepth) :
    Accepts decode depth counters counters.encode := by
  have small : ∀ {name value}, (name, some value) ∈ schema.rows counters →
      value.length < 2 ^ 64 := by
    intro name value member
    rw [encode_eq] at short
    exact lt_of_le_of_lt (length_le_record member) short
  have inRows : ("irreversible_by_class",
      some (encodeClasses counters.irreversibleByClass)) ∈ schema.rows counters := by
    simp [schema, Schema.rows]
  have classes : Accepts (readMap [] readClass) (depth + 1) counters.irreversibleByClass
      (encodeClasses counters.irreversibleByClass) :=
    accepts_readClasses valid.rings valid.classes (small inRows) room
  rw [encode_eq]
  refine .record schema_ascend (by decide) (Nat.lt_of_succ_lt room) ?_
  rcases counters with ⟨shown, allowed, irreversible, byClass, streak, retries, egress, channel⟩
  show Rows read (depth + 1) default
    [("retries", Writer.u64 retries.toUInt64), ("irreversible", encodeRing irreversible),
      ("prompts_shown", Writer.u64 shown.toUInt64), ("egress_bytes_up", Writer.u64 egress),
      ("prompts_allowed", Writer.u64 allowed.toUInt64),
      ("channel_messages", Writer.u64 channel.toUInt64),
      ("irreversible_by_class", encodeClasses byClass),
      ("denied_irreversible_streak", Writer.u64 streak.toUInt64)] _
  refine .cons (accepts_store.mpr ⟨retries, accepts_u32.mpr rfl, rfl⟩) ?_
  refine .cons (accepts_store.mpr ⟨irreversible,
    accepts_decodeRing.mpr ⟨rfl, valid.irreversible⟩, rfl⟩) ?_
  refine .cons (accepts_store.mpr ⟨shown, accepts_u32.mpr rfl, rfl⟩) ?_
  refine .cons (accepts_store.mpr ⟨egress, accepts_u64.mpr rfl, rfl⟩) ?_
  refine .cons (accepts_store.mpr ⟨allowed, accepts_u32.mpr rfl, rfl⟩) ?_
  refine .cons (accepts_store.mpr ⟨channel, accepts_u32.mpr rfl, rfl⟩) ?_
  refine .cons (accepts_store.mpr ⟨byClass, classes, rfl⟩) ?_
  refine .cons (accepts_store.mpr ⟨streak, accepts_u32.mpr rfl, rfl⟩) ?_
  exact .nil

end Block

end Counters

end EclipseOS.PolicyEval
