import EclipseOS.Foundation.Fallible
import EclipseOS.PolicyEval.Cbor

/-! # What a reader accepts

`Accepts read depth value encoding` says that `read`, with `depth` maps open,
takes `encoding` off its input and returns `value`, whatever follows. A reader
is `Local` when each of its successes is of that kind, and its language is then
composed from the languages of its parts. -/

namespace EclipseOS.PolicyEval.Cbor

open Foundation

section Accepts

variable {ε : Type} {α β σ : Type}

def Accepts (read : Read ε α) (depth : Nat) (value : α) (encoding : Bytes) : Prop :=
  ∀ rest maps, maps.length = depth →
    read.run ⟨encoding ++ rest, maps⟩ = .ok (value, ⟨rest, maps⟩)

class Local (read : Read ε α) : Prop where
  accepts : ∀ {input maps value reader},
    read.run ⟨input, maps⟩ = .ok (value, reader) →
      ∃ encoding, input = encoding ++ reader.rest ∧ reader.maps = maps ∧
        Accepts read maps.length value encoding

instance Local.pure (value : α) : Local (pure value : Read ε α) where
  accepts := by
    intro input maps result reader success
    cases success
    exact ⟨[], rfl, rfl, fun rest maps _ => rfl⟩

instance Local.throw (error : ε) : Local (throw error : Read ε α) where
  accepts := by
    intro input maps result reader success
    cases success

theorem Accepts.bind {read : Read ε α} {next : α → Read ε β} {depth : Nat}
    {value : α} {result : β} {first second : Bytes}
    (reads : Accepts read depth value first)
    (continues : Accepts (next value) depth result second) :
    Accepts (read >>= next) depth result (first ++ second) := by
  intro rest maps depthEqual
  rw [StateT.run_bind, List.append_assoc, reads _ maps depthEqual]
  exact continues rest maps depthEqual

instance Local.bind {read : Read ε α} {next : α → Read ε β} [Local read]
    [∀ value, Local (next value)] : Local (read >>= next) where
  accepts := by
    intro input maps result reader success
    rw [StateT.run_bind] at success
    rcases ok_of_bind_ok success with ⟨⟨value, middle⟩, firstSuccess, secondSuccess⟩
    rcases Local.accepts firstSuccess with ⟨first, inputEqual, mapsEqual, firstAccepts⟩
    rcases Local.accepts secondSuccess with
      ⟨second, middleEqual, endEqual, secondAccepts⟩
    refine ⟨first ++ second, ?_, endEqual.trans mapsEqual, ?_⟩
    · rw [inputEqual, middleEqual, List.append_assoc]
    · rw [mapsEqual] at secondAccepts
      exact firstAccepts.bind secondAccepts

/-- Some stack of `depth` open maps. -/
def openMaps (depth : Nat) : List Frame := List.replicate depth ⟨none, 0⟩

theorem Accepts.run {read : Read ε α} {depth : Nat} {value : α} {encoding : Bytes}
    (accepts : Accepts read depth value encoding) (rest : Bytes) :
    read.run ⟨encoding ++ rest, openMaps depth⟩ = .ok (value, ⟨rest, openMaps depth⟩) :=
  accepts rest _ List.length_replicate

theorem Local.accepts_openMaps {read : Read ε α} [Local read] {depth : Nat}
    {input : Bytes} {value : α} {reader : Reader}
    (success : read.run ⟨input, openMaps depth⟩ = .ok (value, reader)) :
    ∃ encoding, input = encoding ++ reader.rest ∧ reader.maps = openMaps depth ∧
      Accepts read depth value encoding := by
  rcases Local.accepts success with ⟨encoding, inputEqual, mapsEqual, accepts⟩
  rw [openMaps, List.length_replicate] at accepts
  exact ⟨encoding, inputEqual, mapsEqual, accepts⟩

theorem Accepts.unique {read : Read ε α} {depth : Nat} {left right : α}
    {leftEncoding rightEncoding : Bytes} (leftRest rightRest : Bytes)
    (first : Accepts read depth left leftEncoding)
    (second : Accepts read depth right rightEncoding)
    (input : leftEncoding ++ leftRest = rightEncoding ++ rightRest) :
    left = right ∧ leftEncoding = rightEncoding := by
  have firstRun := first.run leftRest
  have secondRun := second.run rightRest
  rw [input, secondRun] at firstRun
  cases firstRun
  exact ⟨rfl, List.append_cancel_right input⟩

theorem accepts_pure {value result : α} {depth : Nat} {encoding : Bytes} :
    Accepts (pure value : Read ε α) depth result encoding ↔
      result = value ∧ encoding = [] := by
  constructor
  · intro accepts
    have unit : Accepts (pure value : Read ε α) depth value [] :=
      fun rest maps _ => rfl
    exact accepts.unique [] encoding unit (by simp)
  · rintro ⟨rfl, rfl⟩
    exact fun rest maps _ => rfl

theorem not_accepts_throw {error : ε} {depth : Nat} {value : α} {encoding : Bytes} :
    ¬Accepts (throw error : Read ε α) depth value encoding := by
  intro accepts
  cases accepts.run []

theorem accepts_bind {read : Read ε α} {next : α → Read ε β} [Local read]
    [∀ value, Local (next value)] {depth : Nat} {result : β} {encoding : Bytes} :
    Accepts (read >>= next) depth result encoding ↔
      ∃ value first second, encoding = first ++ second ∧
        Accepts read depth value first ∧ Accepts (next value) depth result second := by
  constructor
  · intro accepts
    have run := accepts.run []
    rw [StateT.run_bind] at run
    rcases ok_of_bind_ok run with ⟨⟨value, middle, maps⟩, firstSuccess, secondSuccess⟩
    rcases Local.accepts_openMaps firstSuccess with
      ⟨first, inputEqual, rfl, firstAccepts⟩
    rcases Local.accepts_openMaps secondSuccess with
      ⟨second, rfl, -, secondAccepts⟩
    exact ⟨value, first, second, by simpa using inputEqual, firstAccepts, secondAccepts⟩
  · rintro ⟨value, first, second, rfl, firstAccepts, secondAccepts⟩
    exact firstAccepts.bind secondAccepts

instance Local.ite {condition : Prop} [Decidable condition]
    {positive negative : Read ε α} [Local positive] [Local negative] :
    Local (if condition then positive else negative) := by
  split <;> infer_instance

@[simp] theorem accepts_ite {condition : Prop} [Decidable condition]
    {positive negative : Read ε α} {depth : Nat} {value : α} {encoding : Bytes} :
    Accepts (if condition then positive else negative) depth value encoding ↔
      (condition ∧ Accepts positive depth value encoding) ∨
        (¬condition ∧ Accepts negative depth value encoding) := by
  split <;> simp [*]

instance Local.okOr (value : Option α) (error : ε) : Local (okOr value error) := by
  unfold Cbor.okOr
  split <;> infer_instance

@[simp] theorem accepts_okOr {value : Option α} {error : ε} {depth : Nat} {result : α}
    {encoding : Bytes} :
    Accepts (okOr value error) depth result encoding ↔
      value = some result ∧ encoding = [] := by
  cases value with
  | none => simp [Cbor.okOr, not_accepts_throw]
  | some value => simp [Cbor.okOr, accepts_pure, eq_comm]

instance Local.orThrow (result : Except ε α) : Local (orThrow result) := by
  cases result with
  | ok value => exact Local.pure value
  | error error => exact Local.throw error

@[simp] theorem accepts_orThrow {result : Except ε α} {depth : Nat} {value : α}
    {encoding : Bytes} :
    Accepts (orThrow result) depth value encoding ↔
      result = .ok value ∧ encoding = [] := by
  cases result with
  | ok found =>
    rw [Except.ok.injEq, eq_comm (a := found)]
    exact accepts_pure
  | error error =>
    have never : ¬Accepts (orThrow (.error error)) depth value encoding :=
      not_accepts_throw
    simp [never]

attribute [simp] accepts_pure not_accepts_throw accepts_bind

end Accepts

/-! ## Heads -/

section Heads

variable {ε : Type} [FromCbor ε] {α β σ : Type}

instance Local.fail (error : Error) : Local (fail error : Read ε α) := Local.throw _

@[simp] theorem not_accepts_fail {error : Error} {depth : Nat} {value : α}
    {encoding : Bytes} : ¬Accepts (Cbor.fail error : Read ε α) depth value encoding :=
  not_accepts_throw

theorem run_take (n : Nat) (input : Bytes) (maps : List Frame) :
    (take n : Read ε Bytes).run ⟨input, maps⟩ =
      if n ≤ input.length then .ok (input.take n, ⟨input.drop n, maps⟩)
      else .error (FromCbor.fromCbor .eof) := by
  by_cases enough : n ≤ input.length
  · simp only [enough, if_true]
    simp [take, enough]
    rfl
  · simp only [enough, if_false]
    simp [take, enough]
    rfl

instance Local.take (n : Nat) : Local (take n : Read ε Bytes) where
  accepts := by
    intro input maps value reader success
    rw [run_take] at success
    split at success
    · rename_i enough
      cases success
      refine ⟨input.take n, (List.take_append_drop n input).symm, rfl, ?_⟩
      intro rest maps' _
      have exact : (input.take n).length = n := by simp [enough]
      rw [run_take]
      simp [exact]
    · cases success

@[simp] theorem accepts_take {n depth : Nat} {value encoding : Bytes} :
    Accepts (take n : Read ε Bytes) depth value encoding ↔
      value = encoding ∧ encoding.length = n := by
  have whole : ∀ bytes : Bytes,
      Accepts (take bytes.length : Read ε Bytes) depth bytes bytes := by
    intro bytes rest maps _
    rw [run_take]
    simp
  constructor
  · intro accepts
    have run := accepts.run []
    rw [run_take] at run
    split at run
    · rename_i enough
      simp only [List.append_nil] at run enough
      have lengths : encoding.length ≤ n := by
        have dropped : encoding.drop n = [] := by
          injection run with pair
          injection pair with _ reader
          injection reader
        simpa using dropped
      refine ⟨?_, by omega⟩
      injection run with pair
      injection pair with taken _
      rw [← taken, List.take_of_length_le lengths]
    · cases run
  · rintro ⟨rfl, rfl⟩
    exact whole value

instance Local.longArgument (width least : Nat) :
    Local (longArgument width least : Read ε Nat) := by
  unfold Cbor.longArgument
  infer_instance

@[simp] theorem accepts_longArgument {width least depth value : Nat}
    {encoding : Bytes} :
    Accepts (longArgument width least : Read ε Nat) depth value encoding ↔
      encoding = bigEndian width value ∧ least ≤ value ∧ value < 256 ^ width := by
  simp only [longArgument, accepts_bind, accepts_take, accepts_ite, not_accepts_fail,
    accepts_pure, and_false, false_or]
  constructor
  · rintro ⟨bytes, first, second, rfl, ⟨rfl, rfl⟩, large, rfl, rfl⟩
    refine ⟨?_, by omega, ofBigEndian_lt bytes⟩
    rw [bigEndian_ofBigEndian, List.append_nil]
  · rintro ⟨rfl, large, small⟩
    have same : ofBigEndian (bigEndian width value) = value := by
      rw [ofBigEndian_bigEndian, Nat.mod_eq_of_lt small]
    exact ⟨_, bigEndian width value, [], by simp, ⟨rfl, by simp⟩, by omega, same.symm, rfl⟩

private theorem headByte_parts : ∀ (major : Fin 8) (low : Fin 32),
    let byte := UInt8.ofNat major <<< 5 ||| UInt8.ofNat low
    byte >>> 5 = UInt8.ofNat major ∧ byte &&& 0x1f = UInt8.ofNat low := by
  decide

private theorem parts_headByte : ∀ byte : BitVec 8,
    (byte >>> 5) <<< 5 ||| (byte &&& 0x1f) = byte ∧ byte >>> 5 < 8 ∧
      byte &&& 0x1f < 32 := by
  decide

theorem headByte_major {major low : UInt8} (majorBound : major < 8)
    (lowBound : low < 32) : (major <<< 5 ||| low) >>> 5 = major := by
  have parts := headByte_parts ⟨major.toNat, majorBound⟩ ⟨low.toNat, lowBound⟩
  simpa using parts.1

theorem headByte_low {major low : UInt8} (majorBound : major < 8)
    (lowBound : low < 32) : (major <<< 5 ||| low) &&& 0x1f = low := by
  have parts := headByte_parts ⟨major.toNat, majorBound⟩ ⟨low.toNat, lowBound⟩
  simpa using parts.2

theorem eq_headByte (byte : UInt8) :
    (byte >>> 5) <<< 5 ||| (byte &&& 0x1f) = byte := by
  have parts := (parts_headByte byte.toBitVec).1
  exact UInt8.toBitVec_inj.mp (by simpa using parts)

theorem major_lt (byte : UInt8) : byte >>> 5 < 8 := by
  have parts := (parts_headByte byte.toBitVec).2.1
  simpa [UInt8.lt_iff_toBitVec_lt] using parts

theorem low_lt (byte : UInt8) : byte &&& 0x1f < 32 := by
  have parts := (parts_headByte byte.toBitVec).2.2
  simpa [UInt8.lt_iff_toBitVec_lt] using parts

instance Local.head : Local (head : Read ε (UInt8 × Nat)) := by
  unfold Cbor.head
  infer_instance

/-- The low bits, width and least argument of each long head. -/
def longForms : List (UInt8 × Nat × Nat) :=
  [(24, 1, 24), (25, 2, 0x100), (26, 4, 0x10000), (27, 8, 0x100000000)]

theorem longForms_bounds {low : UInt8} {width least : Nat}
    (form : (low, width, least) ∈ longForms) :
    24 ≤ low ∧ low < 32 ∧ 256 ^ width ≤ 2 ^ 64 := by
  simp only [longForms, List.mem_cons, List.not_mem_nil, or_false, Prod.mk.injEq] at form
  rcases form with ⟨rfl, rfl, rfl⟩ | ⟨rfl, rfl, rfl⟩ | ⟨rfl, rfl, rfl⟩ | ⟨rfl, rfl, rfl⟩ <;>
  decide

theorem Writer.head_short {major : UInt8} {arg : Nat} (short : arg < 24) :
    Writer.head major arg = [major <<< 5 ||| UInt8.ofNat arg] := by
  simp [Writer.head, short]

theorem Writer.head_long {major low : UInt8} {width least arg : Nat}
    (form : (low, width, least) ∈ longForms) (large : least ≤ arg)
    (small : arg < 256 ^ width) :
    Writer.head major arg = (major <<< 5 ||| low) :: bigEndian width arg := by
  simp only [longForms, List.mem_cons, List.not_mem_nil, or_false, Prod.mk.injEq] at form
  rcases form with ⟨rfl, rfl, rfl⟩ | ⟨rfl, rfl, rfl⟩ | ⟨rfl, rfl, rfl⟩ | ⟨rfl, rfl, rfl⟩
  · simp [Writer.head, show ¬arg < 24 by omega, show arg ≤ 0xff by omega]
  · simp [Writer.head, show ¬arg < 24 by omega, show ¬arg ≤ 0xff by omega,
      show arg ≤ 0xffff by omega]
  · simp [Writer.head, show ¬arg < 24 by omega, show ¬arg ≤ 0xff by omega,
      show ¬arg ≤ 0xffff by omega, show arg ≤ 0xffffffff by omega]
  · simp [Writer.head, show ¬arg < 24 by omega, show ¬arg ≤ 0xff by omega,
      show ¬arg ≤ 0xffff by omega, show ¬arg ≤ 0xffffffff by omega]

theorem Writer.head_length_pos (major : UInt8) (arg : Nat) :
    0 < (Writer.head major arg).length := by
  unfold Writer.head
  dsimp only
  split_ifs <;> simp

theorem exists_longForm {arg : Nat} (large : 24 ≤ arg) (small : arg < 2 ^ 64) :
    ∃ low width least, (low, width, least) ∈ longForms ∧ least ≤ arg ∧
      arg < 256 ^ width := by
  by_cases one : arg < 0x100
  · exact ⟨24, 1, 24, by simp [longForms], large, by omega⟩
  by_cases two : arg < 0x10000
  · exact ⟨25, 2, 0x100, by simp [longForms], by omega, by omega⟩
  by_cases four : arg < 0x100000000
  · exact ⟨26, 4, 0x10000, by simp [longForms], by omega, by omega⟩
  · exact ⟨27, 8, 0x100000000, by simp [longForms], by omega, by omega⟩

/-- The head of an item this profile has: simple values stop below 24. -/
def HeadFits (major : UInt8) (arg : Nat) : Prop :=
  major < 8 ∧ arg < 2 ^ 64 ∧ (major = majorSimple → arg < 24)

private theorem accepts_head_byte {depth arg : Nat} {major : UInt8}
    {encoding : Bytes} :
    Accepts (head : Read ε (UInt8 × Nat)) depth (major, arg) encoding ↔
      ∃ byte tail, encoding = byte :: tail ∧ byte >>> 5 = major ∧
        ¬(major = majorSimple ∧ 24 ≤ byte &&& 0x1f) ∧
        (byte &&& 0x1f < 24 ∧ (byte &&& 0x1f).toNat = arg ∧ tail = [] ∨
          ∃ width least, (byte &&& 0x1f, width, least) ∈ longForms ∧
            tail = bigEndian width arg ∧ least ≤ arg ∧ arg < 256 ^ width) := by
  simp only [head, accepts_bind, accepts_take, accepts_ite, not_accepts_fail,
    accepts_pure, accepts_longArgument, and_false, or_false, false_or]
  constructor
  · rintro ⟨bytes, first, second, rfl, ⟨rfl, length⟩, supported, form⟩
    obtain ⟨byte, rfl⟩ := List.length_eq_one_iff.mp length
    simp only [List.headD_cons, Prod.mk.injEq] at supported form
    rcases form with ⟨short, ⟨rfl, rfl⟩, rfl⟩ | ⟨-, form⟩
    · exact ⟨byte, [], rfl, rfl, supported, .inl ⟨short, rfl, rfl⟩⟩
    · rcases form with ⟨low, value, first, last, rfl, read, ⟨rfl, rfl⟩, rfl⟩ |
        ⟨-, ⟨low, value, first, last, rfl, read, ⟨rfl, rfl⟩, rfl⟩ |
        ⟨-, ⟨low, value, first, last, rfl, read, ⟨rfl, rfl⟩, rfl⟩ |
        ⟨-, low, value, first, last, rfl, read, ⟨rfl, rfl⟩, rfl⟩⟩⟩ <;>
      refine ⟨byte, _, rfl, rfl, supported, .inr ⟨_, _, ?_, (List.append_nil _).trans read.1, read.2⟩⟩ <;>
      simp [low, longForms]
  · rintro ⟨byte, tail, rfl, rfl, supported, form⟩
    refine ⟨[byte], [byte], tail, rfl, ⟨rfl, rfl⟩, supported, ?_⟩
    simp only [List.headD_cons, Prod.mk.injEq, true_and]
    rcases form with ⟨short, rfl, rfl⟩ | ⟨width, least, form, rfl, large, small⟩
    · exact .inl ⟨short, rfl, rfl⟩
    · simp only [longForms, List.mem_cons, List.not_mem_nil, or_false,
        Prod.mk.injEq] at form
      rcases form with ⟨low, rfl, rfl⟩ | ⟨low, rfl, rfl⟩ | ⟨low, rfl, rfl⟩ |
        ⟨low, rfl, rfl⟩ <;>
      simpa [low, large] using small

theorem accepts_head {depth arg : Nat} {major : UInt8} {encoding : Bytes} :
    Accepts (head : Read ε (UInt8 × Nat)) depth (major, arg) encoding ↔
      encoding = Writer.head major arg ∧ HeadFits major arg := by
  rw [accepts_head_byte]
  constructor
  · rintro ⟨byte, tail, rfl, rfl, supported, form⟩
    have assembled := eq_headByte byte
    have bound := major_lt byte
    rcases form with ⟨short, rfl, rfl⟩ | ⟨width, least, form, rfl, large, small⟩
    · have shortNat : (byte &&& 0x1f).toNat < 24 := short
      refine ⟨?_, bound, by omega, fun _ => shortNat⟩
      rw [Writer.head_short shortNat, UInt8.ofNat_toNat, assembled]
    · rw [Writer.head_long form large small, assembled]
      have formBounds := longForms_bounds form
      exact ⟨rfl, bound, Nat.lt_of_lt_of_le small formBounds.2.2,
        fun simple => absurd ⟨simple, formBounds.1⟩ supported⟩
  · rintro ⟨rfl, majorBound, argBound, simple⟩
    by_cases short : arg < 24
    · have ofNat : (UInt8.ofNat arg).toNat = arg := by
        rw [UInt8.toNat_ofNat']; omega
      have lowBound : UInt8.ofNat arg < 24 := by
        rw [UInt8.lt_iff_toNat_lt, ofNat]; exact short
      have lowBound' : UInt8.ofNat arg < 32 := by
        rw [UInt8.lt_iff_toNat_lt, ofNat]; exact Nat.lt_trans short (by decide)
      refine ⟨_, [], Writer.head_short short, headByte_major majorBound lowBound', ?_⟩
      rw [headByte_low majorBound lowBound']
      exact ⟨fun both => absurd lowBound (UInt8.not_lt.mpr both.2),
        .inl ⟨lowBound, ofNat, rfl⟩⟩
    · obtain ⟨low, width, least, form, large, small⟩ :=
        exists_longForm (Nat.le_of_not_lt short) argBound
      have lowBound := (longForms_bounds form).2.1
      refine ⟨_, _, Writer.head_long form large small, headByte_major majorBound lowBound,
        fun both => short (simple both.1), .inr ⟨width, least, ?_, rfl, large, small⟩⟩
      rw [headByte_low majorBound lowBound]
      exact form

end Heads

/-! ## Items -/

section Items

variable {ε : Type} [FromCbor ε] {α β σ : Type} {depth : Nat} {encoding : Bytes}

private theorem expect_eq (major : UInt8) :
    (expect major : Read ε Nat) =
      head >>= fun found => if found.1 ≠ major then fail .type else pure found.2 :=
  rfl

instance Local.expect (major : UInt8) : Local (expect major : Read ε Nat) := by
  rw [expect_eq]
  infer_instance

theorem headFits_iff (major : UInt8) {arg : Nat} (bound : major < 8)
    (plain : major ≠ majorSimple) : HeadFits major arg ↔ arg < 2 ^ 64 :=
  ⟨fun fits => fits.2.1, fun small => ⟨bound, small, fun simple => absurd simple plain⟩⟩

@[simp] theorem accepts_expect {major : UInt8} {arg : Nat} :
    Accepts (expect major : Read ε Nat) depth arg encoding ↔
      encoding = Writer.head major arg ∧ HeadFits major arg := by
  simp only [expect_eq, accepts_bind, accepts_ite, not_accepts_fail, accepts_pure,
    and_false, false_or, Prod.exists, accepts_head]
  constructor
  · rintro ⟨found, arg', first, second, rfl, ⟨rfl, fits⟩, same, rfl, rfl⟩
    obtain rfl := not_not.mp same
    exact ⟨List.append_nil _, fits⟩
  · rintro ⟨rfl, fits⟩
    exact ⟨major, arg, _, [], (List.append_nil _).symm, ⟨rfl, fits⟩, by simp, rfl, rfl⟩

instance Local.u64 : Local (u64 : Read ε UInt64) := by
  unfold Cbor.u64
  infer_instance

@[simp] theorem accepts_u64 {value : UInt64} :
    Accepts (u64 : Read ε UInt64) depth value encoding ↔ encoding = Writer.u64 value := by
  simp only [u64, accepts_bind, accepts_expect, accepts_pure,
    headFits_iff majorUint (by decide) (by decide)]
  constructor
  · rintro ⟨arg, first, second, rfl, ⟨rfl, small⟩, rfl, rfl⟩
    rw [Writer.u64, UInt64.toNat_ofNat', Nat.mod_eq_of_lt small, List.append_nil]
  · rintro rfl
    exact ⟨_, _, [], (List.append_nil _).symm, ⟨rfl, value.toNat_lt⟩, by simp, rfl⟩

instance Local.u32 : Local (u32 : Read ε UInt32) := by
  unfold Cbor.u32
  infer_instance

@[simp] theorem accepts_u32 {value : UInt32} :
    Accepts (u32 : Read ε UInt32) depth value encoding ↔
      encoding = Writer.u64 value.toUInt64 := by
  simp only [u32, accepts_bind, accepts_u64, accepts_ite, not_accepts_fail, accepts_pure,
    and_false, or_false]
  constructor
  · rintro ⟨wide, first, second, rfl, rfl, small, rfl, rfl⟩
    have same : (UInt32.ofNat wide.toNat).toUInt64 = wide := by
      apply UInt64.toNat_inj.mp
      rw [UInt32.toNat_toUInt64, UInt32.toNat_ofNat', Nat.mod_eq_of_lt small]
    rw [same, List.append_nil]
  · rintro rfl
    exact ⟨_, _, [], (List.append_nil _).symm, rfl, value.toNat_lt, by simp, rfl⟩

theorem accepts_i64 (value : Int64) :
    Accepts (i64 : Read ε Int64) depth value (Writer.i64 value) := by
  have upper := value.toInt_lt
  have lower := value.le_toInt
  by_cases sign : 0 ≤ value
  · have natural : 0 ≤ value.toInt := Int64.le_iff_toInt_le.mp sign
    have small : value.toInt.toNat < 2 ^ 63 := by omega
    have read : Accepts (head : Read ε (UInt8 × Nat)) depth (majorUint, value.toInt.toNat)
        (Writer.i64 value) := by
      rw [Writer.i64, if_pos sign]
      exact accepts_head.mpr ⟨rfl, (headFits_iff majorUint (by decide) (by decide)).mpr
        (by omega)⟩
    have back : Int64.ofNat value.toInt.toNat = value := by
      rw [← Int64.toInt_inj, Int64.toInt_ofNat_of_lt small]
      omega
    rw [← List.append_nil (Writer.i64 value)]
    refine read.bind ?_
    simp only [small, and_true, if_true, accepts_pure, back]
  · have negative : value.toInt < 0 := by
      rw [Int64.le_iff_toInt_le] at sign
      exact Int.not_le.mp sign
    have small : (-value.toInt - 1).toNat < 2 ^ 63 := by omega
    have read : Accepts (head : Read ε (UInt8 × Nat)) depth
        (majorNegint, (-value.toInt - 1).toNat) (Writer.i64 value) := by
      rw [Writer.i64, if_neg sign]
      exact accepts_head.mpr ⟨rfl, (headFits_iff majorNegint (by decide) (by decide)).mpr
        (by omega)⟩
    have back : Int64.ofInt (-((-value.toInt - 1).toNat : Int) - 1) = value := by
      rw [← Int64.toInt_inj, Int64.toInt_ofInt_of_le (by omega) (by omega)]
      omega
    have differ : majorNegint ≠ majorUint := by decide
    rw [← List.append_nil (Writer.i64 value)]
    refine read.bind ?_
    simp only [small, differ, and_true, if_true, if_false, accepts_pure, back]

instance Local.bytes : Local (bytes : Read ε Bytes) := by
  unfold Cbor.bytes
  infer_instance

@[simp] theorem accepts_bytes {value : Bytes} :
    Accepts (bytes : Read ε Bytes) depth value encoding ↔
      encoding = Writer.bytes value ∧ value.length < 2 ^ 64 := by
  simp only [bytes, accepts_bind, accepts_expect, accepts_take,
    headFits_iff majorBytes (by decide) (by decide)]
  constructor
  · rintro ⟨arg, first, second, rfl, ⟨rfl, small⟩, rfl, rfl⟩
    exact ⟨rfl, small⟩
  · rintro ⟨rfl, small⟩
    exact ⟨_, _, _, rfl, ⟨rfl, small⟩, rfl, rfl⟩

theorem FixedBytes.ofBytes_eq_some {n : Nat} {bytes : Bytes} {value : FixedBytes n} :
    FixedBytes.ofBytes bytes = some value ↔ value.val = bytes := by
  unfold FixedBytes.ofBytes
  constructor
  · intro converted
    split at converted
    · cases converted
      rfl
    · cases converted
  · rintro rfl
    simp [value.property]

instance Local.byteArray (n : Nat) : Local (byteArray n : Read ε (FixedBytes n)) := by
  unfold Cbor.byteArray
  infer_instance

@[simp] theorem accepts_byteArray {n : Nat} {value : FixedBytes n} :
    Accepts (byteArray n : Read ε (FixedBytes n)) depth value encoding ↔
      encoding = Writer.bytes value.val ∧ n < 2 ^ 64 := by
  simp only [byteArray, accepts_bind, accepts_bytes, accepts_okOr,
    FixedBytes.ofBytes_eq_some]
  constructor
  · rintro ⟨bytes, first, second, rfl, ⟨rfl, small⟩, rfl, rfl⟩
    exact ⟨List.append_nil _, value.property ▸ small⟩
  · rintro ⟨rfl, small⟩
    exact ⟨_, _, [], (List.append_nil _).symm, ⟨rfl, value.property.symm ▸ small⟩, rfl, rfl⟩

instance Local.text : Local (text : Read ε String) := by
  unfold Cbor.text
  infer_instance

@[simp] theorem accepts_text {value : String} :
    Accepts (text : Read ε String) depth value encoding ↔
      encoding = Writer.text value ∧ (utf8 value).length < 2 ^ 64 := by
  simp only [text, accepts_bind, accepts_expect, accepts_take, accepts_okOr,
    headFits_iff majorText (by decide) (by decide)]
  constructor
  · rintro ⟨arg, first, second, rfl, ⟨rfl, small⟩, bytes, third, last, rfl,
      ⟨rfl, rfl⟩, decoded, rfl⟩
    have same := utf8_of_fromUtf8 decoded
    subst same
    exact ⟨by simp [Writer.text], small⟩
  · rintro ⟨rfl, small⟩
    exact ⟨_, _, _, rfl, ⟨rfl, small⟩, _, _, [], (List.append_nil _).symm,
      ⟨rfl, rfl⟩, fromUtf8_utf8 value, rfl⟩

instance Local.textAs (parse : String → Option α) : Local (textAs parse : Read ε α) := by
  unfold Cbor.textAs
  infer_instance

@[simp] theorem accepts_textAs {parse : String → Option α} {value : α} :
    Accepts (textAs parse : Read ε α) depth value encoding ↔
      ∃ source, parse source = some value ∧ encoding = Writer.text source ∧
        (utf8 source).length < 2 ^ 64 := by
  simp only [textAs, accepts_bind, accepts_text, accepts_okOr]
  constructor
  · rintro ⟨source, _, _, rfl, ⟨rfl, fits⟩, parsed, rfl⟩
    exact ⟨source, parsed, List.append_nil _, fits⟩
  · rintro ⟨source, parsed, rfl, fits⟩
    exact ⟨source, _, [], (List.append_nil _).symm, ⟨rfl, fits⟩, parsed, rfl⟩

private theorem bool_eq :
    (bool : Read ε Bool) = head >>= fun found =>
      if found.1 = majorSimple ∧ found.2 = 20 then pure false
      else if found.1 = majorSimple ∧ found.2 = 21 then pure true
      else fail .type :=
  rfl

instance Local.bool : Local (bool : Read ε Bool) := by
  rw [bool_eq]
  infer_instance

@[simp] theorem accepts_bool {value : Bool} :
    Accepts (bool : Read ε Bool) depth value encoding ↔
      encoding = Writer.bool value := by
  simp only [bool_eq, accepts_bind, accepts_ite, not_accepts_fail, accepts_pure,
    and_false, or_false, Prod.exists, accepts_head]
  constructor
  · rintro ⟨major, arg, first, second, rfl, ⟨rfl, -⟩,
      ⟨⟨rfl, rfl⟩, rfl, rfl⟩ | ⟨-, ⟨rfl, rfl⟩, rfl, rfl⟩⟩ <;> rfl
  · rintro rfl
    refine ⟨majorSimple, if value then 21 else 20, _, [], (List.append_nil _).symm, ?_, ?_⟩
    · cases value <;> exact ⟨rfl, by decide, by decide, by decide⟩
    · cases value <;> simp

instance Local.arrayLen : Local (arrayLen : Read ε Nat) := Local.expect _

@[simp] theorem accepts_arrayLen {len : Nat} :
    Accepts (arrayLen : Read ε Nat) depth len encoding ↔
      encoding = Writer.array len ∧ len < 2 ^ 64 := by
  simp only [arrayLen, accepts_expect,
    headFits_iff majorArray (by decide) (by decide), Writer.array]

omit [FromCbor ε] in
private theorem run_spanned (read : Read ε α) (reader : Reader) :
    (spanned read).run reader = read.run reader >>= fun found =>
      .ok ((found.1, reader.rest.take (reader.rest.length - found.2.rest.length)),
        found.2) :=
  rfl

omit [FromCbor ε] in
theorem Accepts.spanned {read : Read ε α} {value : α}
    (accepts : Accepts read depth value encoding) :
    Accepts (spanned read) depth (value, encoding) encoding := by
  intro rest maps depthEqual
  have whole : (encoding ++ rest).take ((encoding ++ rest).length - rest.length) =
      encoding := by simp
  rw [run_spanned, accepts rest maps depthEqual]
  exact congrArg (fun span => Except.ok ((value, span), Reader.mk rest maps)) whole

instance Local.spanned (read : Read ε α) [Local read] : Local (spanned read) where
  accepts := by
    intro input maps value reader success
    rw [run_spanned] at success
    rcases ok_of_bind_ok success with ⟨⟨found, after⟩, inner, result⟩
    rcases Local.accepts inner with ⟨encoding, rfl, mapsEqual, accepts⟩
    cases result
    refine ⟨encoding, rfl, mapsEqual, ?_⟩
    simpa using accepts.spanned

omit [FromCbor ε] in
@[simp] theorem accepts_spanned {read : Read ε α} [Local read] {value : α}
    {span : Bytes} :
    Accepts (spanned read) depth (value, span) encoding ↔
      span = encoding ∧ Accepts read depth value encoding := by
  constructor
  · intro accepts
    have run := accepts.run []
    rw [run_spanned] at run
    rcases ok_of_bind_ok run with ⟨⟨found, after⟩, inner, -⟩
    rcases Local.accepts_openMaps inner with ⟨first, inputEqual, -, innerAccepts⟩
    have same := accepts.unique [] after.rest innerAccepts.spanned (by simpa using inputEqual)
    rcases same with ⟨pairEqual, rfl⟩
    cases pairEqual
    exact ⟨rfl, innerAccepts⟩
  · rintro ⟨rfl, accepts⟩
    exact accepts.spanned

instance Local.collect (read : Read ε α) [Local read] :
    ∀ n, Local (collect n read)
  | 0 => Local.pure _
  | n + 1 => by
      have := Local.collect read n
      unfold Cbor.collect
      infer_instance

omit [FromCbor ε] in
theorem accepts_collect {read : Read ε α} [Local read] {encode : α → Bytes}
    {valid : α → Prop}
    (item : ∀ value part, Accepts read depth value part ↔
      part = encode value ∧ valid value)
    {n : Nat} {values : List α} :
    Accepts (collect n read) depth values encoding ↔
      values.length = n ∧ encoding = values.flatMap encode ∧
        ∀ value ∈ values, valid value := by
  induction n generalizing values encoding with
  | zero =>
    simp only [collect, accepts_pure, List.length_eq_zero_iff]
    constructor
    · rintro ⟨rfl, rfl⟩
      simp
    · rintro ⟨rfl, rfl, -⟩
      simp
  | succ n induction =>
    simp only [collect, accepts_bind, accepts_pure, item, induction]
    constructor
    · rintro ⟨first, firstEncoding, _, rfl, ⟨rfl, firstValid⟩, others, _, _, rfl,
        ⟨rfl, rfl, othersValid⟩, rfl, rfl⟩
      exact ⟨by simp, by simp, List.forall_mem_cons.mpr ⟨firstValid, othersValid⟩⟩
    · rintro ⟨length, rfl, allValid⟩
      obtain ⟨first, others, rfl⟩ := List.exists_cons_of_length_eq_add_one length
      rw [List.forall_mem_cons] at allValid
      exact ⟨first, _, _, List.flatMap_cons, ⟨rfl, allValid.1⟩, others, _, [],
        (List.append_nil _).symm, ⟨by simpa using length, rfl, allValid.2⟩, rfl, rfl⟩

omit [FromCbor ε] in
theorem Accepts.collect {read : Read ε α} {encode : α → Bytes} {values : List α}
    (items : ∀ value ∈ values, Accepts read depth value (encode value)) :
    Accepts (collect values.length read) depth values (values.flatMap encode) := by
  induction values with
  | nil => exact fun rest maps _ => rfl
  | cons first others induction =>
    rw [List.forall_mem_cons] at items
    have rest : Accepts (Cbor.collect others.length read >>= fun others => pure (first :: others))
        depth (first :: others) (others.flatMap encode ++ []) :=
      (induction items.2).bind (accepts_pure.mpr ⟨rfl, rfl⟩)
    have whole : Accepts (read >>= fun first =>
        Cbor.collect others.length read >>= fun others => pure (first :: others)) depth
        (first :: others) (encode first ++ (others.flatMap encode ++ [])) := items.1.bind rest
    rwa [List.append_nil] at whole

instance Local.arrayItems (read : Read ε α) [Local read] : Local (arrayItems read) := by
  unfold Cbor.arrayItems
  infer_instance

theorem Accepts.arrayItems {read : Read ε α} {encode : α → Bytes} {values : List α}
    (items : ∀ value ∈ values, Accepts read depth value (encode value))
    (few : values.length < 2 ^ 64) :
    Accepts (arrayItems read) depth values (arrayOf encode values) :=
  (accepts_arrayLen.mpr ⟨rfl, few⟩).bind (Accepts.collect items)

private theorem run_finish (reader : Reader) :
    (finish : Read ε Unit).run reader =
      if reader.maps ≠ [] then .error (FromCbor.fromCbor .unbalanced)
      else if reader.rest ≠ [] then .error (FromCbor.fromCbor .trailing)
      else .ok ((), reader) := by
  change (ite _ _ _ : Read ε Unit).run _ = _
  split
  · rfl
  · split <;> rfl

theorem decodeAll_eq_ok {read : Read ε α} [Local read] {buf : Bytes} {value : α} :
    decodeAll read buf = .ok value ↔ Accepts read 0 value buf := by
  have unfolded : decodeAll read buf =
      Prod.fst <$> (read.run ⟨buf, []⟩ >>= fun found =>
        finish.run found.2 >>= fun finished => .ok (found.1, finished.2)) :=
    rfl
  rw [unfolded]
  constructor
  · intro success
    cases readRun : read.run ⟨buf, []⟩ with
    | error error =>
      rw [readRun] at success
      cases success
    | ok found =>
      obtain ⟨found, reader⟩ := found
      rcases Local.accepts readRun with ⟨encoding, rfl, mapsEqual, accepts⟩
      rw [readRun] at success
      change Prod.fst <$> (finish.run reader >>= _) = _ at success
      rw [run_finish, if_neg (by simp [mapsEqual])] at success
      split at success
      · cases success
      · rename_i consumed
        cases success
        rw [not_not.mp consumed, List.append_nil]
        exact accepts
  · intro accepts
    have readRun := accepts [] [] rfl
    rw [List.append_nil] at readRun
    rw [readRun]
    rfl

end Items

end EclipseOS.PolicyEval.Cbor
