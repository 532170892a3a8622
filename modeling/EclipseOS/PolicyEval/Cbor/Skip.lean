import EclipseOS.PolicyEval.Cbor.Maps

/-! # Skipping

The items of the profile, and that skipping takes exactly one of them. -/

namespace EclipseOS.PolicyEval.Cbor

open Foundation

/-- A canonical item, read with `depth` maps already open. -/
inductive Item : Nat → Bytes → Prop where
  | uint {depth arg} (fits : arg < 2 ^ 64) : Item depth (Writer.head majorUint arg)
  | negint {depth arg} (fits : arg < 2 ^ 64) : Item depth (Writer.head majorNegint arg)
  | bytes {depth} (value : Bytes) (fits : value.length < 2 ^ 64) :
      Item depth (Writer.head majorBytes value.length ++ value)
  | text {depth} (value : Bytes) (fits : value.length < 2 ^ 64) :
      Item depth (Writer.head majorText value.length ++ value)
  | array {depth} (parts : List Bytes) (fits : parts.length < 2 ^ 64)
      (items : ∀ part ∈ parts, Item depth part) :
      Item depth (Writer.array parts.length ++ parts.flatten)
  | map {depth} (rows : List (String × Bytes)) (room : depth < maxMapDepth)
      (fits : rows.length < 2 ^ 64) (ascend : KeysAscend none rows)
      (keysFit : KeysFit rows) (items : ∀ row ∈ rows, Item (depth + 1) row.2) :
      Item depth (mapBytes rows)
  | simple {depth arg} (least : 20 ≤ arg) (most : arg ≤ 22) :
      Item depth (Writer.head majorSimple arg)

section Skipping

variable {ε : Type} [FromCbor ε] {depth : Nat} {encoding : Bytes}

/-- The item after its head, with `fuel` for the levels below. -/
def skipArgument (fuel : Nat) (major : UInt8) (arg : Nat) : Read ε Unit :=
  if major = majorUint ∨ major = majorNegint then pure ()
  else if major = majorBytes ∨ major = majorText then take arg >>= fun _ => pure ()
  else if major = majorArray then times arg (skipWithin fuel)
  else if major = majorMap then mapItems () (fun _ _ => skipWithin fuel) arg
  else if major = majorSimple ∧ 20 ≤ arg ∧ arg ≤ 22 then pure ()
  else fail .unsupported

private theorem times_key (body : Read ε Unit) (n : Nat) :
    times n (key >>= fun _ => body) = eachKey (fun _ _ => body) n () := by
  induction n with
  | zero => rfl
  | succ n induction =>
    rw [times, eachKey, induction]
    simp only [bind_assoc]

theorem skipWithin_succ (fuel : Nat) :
    (skipWithin (fuel + 1) : Read ε Unit) =
      head >>= fun found => skipArgument fuel found.1 found.2 := by
  have mapBody : ∀ arg, (mapItems () (fun _ _ => skipWithin fuel) arg : Read ε Unit) =
      pushMap arg >>= fun _ =>
        times arg (key >>= fun _ => skipWithin fuel) >>= fun _ => mapEnd := by
    intro arg
    have closed : (mapEnd >>= fun _ => pure () : Read ε Unit) = mapEnd := bind_pure _
    rw [times_key, ← closed]
    rfl
  unfold skipArgument
  simp only [mapBody]
  rfl

instance Local.times (read : Read ε Unit) [Local read] : ∀ n, Local (times n read)
  | 0 => Local.pure _
  | n + 1 => by
      have := Local.times read n
      unfold Cbor.times
      infer_instance

omit [FromCbor ε] in
theorem accepts_times {read : Read ε Unit} [Local read] {n : Nat} :
    Accepts (times n read) depth () encoding ↔
      ∃ parts : List Bytes, parts.length = n ∧ encoding = parts.flatten ∧
        ∀ part ∈ parts, Accepts read depth () part := by
  induction n generalizing encoding with
  | zero =>
    simp [times]
  | succ n induction =>
    simp only [times, accepts_bind, induction]
    constructor
    · rintro ⟨_, first, _, rfl, accepts, parts, rfl, rfl, others⟩
      exact ⟨first :: parts, rfl, rfl, List.forall_mem_cons.mpr ⟨accepts, others⟩⟩
    · rintro ⟨parts, length, rfl, accepts⟩
      obtain ⟨first, parts, rfl⟩ := List.exists_cons_of_length_eq_add_one length
      rw [List.forall_mem_cons] at accepts
      exact ⟨(), first, _, rfl, accepts.1, parts, by simpa using length, rfl, accepts.2⟩

omit [FromCbor ε] in
theorem rows_constant {read : Read ε Unit} {rows : List (String × Bytes)} :
    Rows (fun _ _ => read) depth () rows () ↔
      ∀ row ∈ rows, Accepts read depth () row.2 := by
  induction rows with
  | nil => exact ⟨fun _ => by simp, fun _ => .nil⟩
  | cons row rows induction =>
    rw [List.forall_mem_cons, ← induction]
    constructor
    · rintro (_ | ⟨step, rest⟩)
      exact ⟨step, rest⟩
    · rintro ⟨step, rest⟩
      exact .cons step rest

instance Local.skipArgument (fuel : Nat) [Local (skipWithin fuel : Read ε Unit)]
    (major : UInt8) (arg : Nat) : Local (skipArgument fuel major arg : Read ε Unit) := by
  unfold Cbor.skipArgument
  infer_instance

instance Local.skipWithin : ∀ fuel, Local (skipWithin fuel : Read ε Unit)
  | 0 => Local.fail _
  | fuel + 1 => by
      have := Local.skipWithin fuel
      rw [skipWithin_succ]
      infer_instance

theorem item_of_accepts {fuel : Nat}
    (accepts : Accepts (skipWithin fuel : Read ε Unit) depth () encoding) :
    Item depth encoding := by
  induction fuel generalizing depth encoding with
  | zero => exact absurd accepts not_accepts_fail
  | succ fuel induction =>
    rw [skipWithin_succ, accepts_bind] at accepts
    rcases accepts with ⟨⟨major, arg⟩, _, second, rfl, readHead, argument⟩
    rcases accepts_head.mp readHead with ⟨rfl, fits⟩
    simp only [skipArgument, accepts_ite, accepts_pure, accepts_bind, accepts_take,
      accepts_times, accepts_mapItems, not_accepts_fail, true_and, and_false,
      or_false] at argument
    rcases argument with ⟨rfl | rfl, rfl⟩ | ⟨-, argument⟩
    · simpa using Item.uint fits.2.1
    · simpa using Item.negint fits.2.1
    rcases argument with ⟨rfl | rfl, value, _, _, rfl, ⟨rfl, rfl⟩, rfl⟩ | ⟨-, argument⟩
    · simpa using Item.bytes value fits.2.1
    · simpa using Item.text value fits.2.1
    rcases argument with ⟨rfl, parts, rfl, rfl, items⟩ | ⟨-, argument⟩
    · exact .array parts fits.2.1 fun part member => induction (items part member)
    rcases argument with ⟨rfl, room, rows, rfl, rfl, ascend, keysFit, chain⟩ |
      ⟨-, ⟨rfl, least, most⟩, rfl⟩
    · exact .map rows room fits.2.1 ascend keysFit fun row member =>
        induction (rows_constant.mp chain row member)
    · simpa using Item.simple least most

private theorem accepts_headed {fuel arg : Nat} {major : UInt8} {second : Bytes}
    (fits : HeadFits major arg)
    (argument : ∀ below, second.length ≤ below →
      Accepts (skipArgument below major arg : Read ε Unit) depth () second)
    (enough : (Writer.head major arg ++ second).length ≤ fuel) :
    Accepts (skipWithin fuel : Read ε Unit) depth () (Writer.head major arg ++ second) := by
  have headLength := Writer.head_length_pos major arg
  rw [List.length_append] at enough
  obtain ⟨below, rfl⟩ : ∃ below, fuel = below + 1 := ⟨fuel - 1, by omega⟩
  rw [skipWithin_succ]
  exact (accepts_head.mpr ⟨rfl, fits⟩).bind (argument below (by omega))

theorem accepts_of_item {fuel : Nat} (item : Item depth encoding)
    (enough : encoding.length ≤ fuel) :
    Accepts (skipWithin fuel : Read ε Unit) depth () encoding := by
  induction item generalizing fuel with
  | uint fits =>
    rw [← List.append_nil (Writer.head _ _)] at enough ⊢
    refine accepts_headed ((headFits_iff _ (by decide) (by decide)).mpr fits)
      (fun below _ => ?_) enough
    simp [skipArgument]
  | negint fits =>
    rw [← List.append_nil (Writer.head _ _)] at enough ⊢
    refine accepts_headed ((headFits_iff _ (by decide) (by decide)).mpr fits)
      (fun below _ => ?_) enough
    simp [skipArgument]
  | bytes value fits =>
    refine accepts_headed ((headFits_iff _ (by decide) (by decide)).mpr fits)
      (fun below _ => ?_) enough
    simp only [skipArgument, accepts_ite, accepts_bind, accepts_take, accepts_pure]
    exact .inr ⟨by decide, .inl ⟨.inl trivial, value, value, [], by simp⟩⟩
  | text value fits =>
    refine accepts_headed ((headFits_iff _ (by decide) (by decide)).mpr fits)
      (fun below _ => ?_) enough
    simp only [skipArgument, accepts_ite, accepts_bind, accepts_take, accepts_pure]
    exact .inr ⟨by decide, .inl ⟨.inr trivial, value, value, [], by simp⟩⟩
  | array parts fits items induction =>
    refine accepts_headed ((headFits_iff _ (by decide) (by decide)).mpr fits)
      (fun below within => ?_) enough
    simp only [skipArgument, accepts_ite]
    refine .inr ⟨by decide, .inr ⟨by decide, .inl ⟨trivial, accepts_times.mpr
      ⟨parts, rfl, rfl, fun part member => induction part member ?_⟩⟩⟩⟩
    exact (List.sublist_flatten_of_mem member).length_le.trans within
  | map rows room fits ascend keysFit items induction =>
    refine accepts_headed ((headFits_iff _ (by decide) (by decide)).mpr fits)
      (fun below within => ?_) enough
    simp only [skipArgument, accepts_ite]
    refine .inr ⟨by decide, .inr ⟨by decide, .inr ⟨by decide, .inl ⟨trivial,
      accepts_mapItems.mpr ⟨room, rows, rfl, rfl, ascend, keysFit,
        rows_constant.mpr fun row member => induction row member ?_⟩⟩⟩⟩⟩
    have inRow : row.2.Sublist (rowBytes row) := List.sublist_append_right _ _
    have inRows := List.sublist_flatten_of_mem (List.mem_map_of_mem (f := rowBytes) member)
    exact (inRow.trans inRows).length_le.trans within
  | simple least most =>
    rw [← List.append_nil (Writer.head _ _)] at enough ⊢
    refine accepts_headed ⟨by decide, by omega, fun _ => by omega⟩
      (fun below _ => ?_) enough
    simp [skipArgument, majorSimple, majorText, majorBytes, majorUint, majorNegint,
      majorArray, majorMap, least, most]

private theorem run_skip {input : Bytes} {maps : List Frame} {reader : Reader}
    (success : (skip : Read ε Unit).run ⟨input, maps⟩ = .ok ((), reader)) :
    ∃ encoding, input = encoding ++ reader.rest ∧ reader.maps = maps ∧
      Item maps.length encoding := by
  have within : (skipWithin (input.length + 1) : Read ε Unit).run ⟨input, maps⟩ =
      .ok ((), reader) := success
  rcases Local.accepts within with ⟨encoding, inputEqual, mapsEqual, accepts⟩
  exact ⟨encoding, inputEqual, mapsEqual, item_of_accepts accepts⟩

theorem Item.accepts_skip (item : Item depth encoding) :
    Accepts (skip : Read ε Unit) depth () encoding := by
  intro rest maps depthEqual
  exact accepts_of_item item (by simp only [List.length_append]; omega) rest maps depthEqual

instance Local.skip : Local (skip : Read ε Unit) where
  accepts := by
    intro input maps value reader success
    rcases run_skip success with ⟨encoding, inputEqual, mapsEqual, item⟩
    exact ⟨encoding, inputEqual, mapsEqual, item.accepts_skip⟩

@[simp] theorem accepts_skip :
    Accepts (skip : Read ε Unit) depth () encoding ↔ Item depth encoding := by
  constructor
  · intro accepts
    rcases run_skip (accepts.run []) with ⟨first, inputEqual, -, item⟩
    rw [openMaps, List.length_replicate] at item
    obtain rfl : encoding = first := by simpa using inputEqual
    exact item
  · exact Item.accepts_skip

end Skipping

end EclipseOS.PolicyEval.Cbor
