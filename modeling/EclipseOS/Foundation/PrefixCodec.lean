import EclipseOS.Foundation.BigEndian

/-! # Prefix codecs

An encoding that is read back from the front of any bytes, and what is built of such
encodings: numbers in seven-bit groups, pairs, sequences and tagged alternatives. -/

namespace EclipseOS.Foundation

/-- Values and the bytes they are read from, whatever follows. -/
structure PrefixCodec (α : Type) where
  encode : α → Bytes
  decode : Bytes → Option (α × Bytes)
  reads : ∀ value rest, decode (encode value ++ rest) = some (value, rest)

namespace PrefixCodec

variable {α β : Type}

/-- What is decoded from the front, and nothing said of what follows. -/
def read (codec : PrefixCodec α) (bytes : Bytes) : Option α := (codec.decode bytes).map (·.1)

theorem read_encode (codec : PrefixCodec α) (value : α) :
    codec.read (codec.encode value) = some value := by
  have reads := codec.reads value []
  rw [List.append_nil] at reads
  rw [read, reads, Option.map_some]

def unit : PrefixCodec Unit := ⟨fun _ => [], fun bytes => some ((), bytes), fun _ _ => rfl⟩

def byte : PrefixCodec UInt8 where
  encode value := [value]
  decode
    | [] => none
    | first :: rest => some (first, rest)
  reads _ _ := rfl

/-- A value built of another, which is seen in it. -/
def map (codec : PrefixCodec α) (make : α → β) (view : β → α)
    (made : ∀ value, make (view value) = value) : PrefixCodec β where
  encode value := codec.encode (view value)
  decode bytes := (codec.decode bytes).map fun (value, rest) => (make value, rest)
  reads value rest := by
    rw [codec.reads, Option.map_some]
    simp only [made]

def pair (first : PrefixCodec α) (second : PrefixCodec β) : PrefixCodec (α × β) where
  encode value := first.encode value.1 ++ second.encode value.2
  decode bytes := (first.decode bytes).bind fun (a, rest) =>
    (second.decode rest).map fun (b, rest) => ((a, b), rest)
  reads value rest := by
    rw [List.append_assoc, first.reads, Option.bind_some]
    simp only [second.reads, Option.map_some]

/-! ## Numbers -/

/-- Seven bits a byte, the low ones first, and a mark on each byte but the last. -/
def putVarint : Nat → Nat → Bytes
  | 0, _ => []
  | size + 1, n =>
    if n < 128 then [UInt8.ofNat n]
    else UInt8.ofNat (n % 128 + 128) :: putVarint size (n / 128)

/-- At most `size` bytes, the last of them at most `last`. -/
def takeVarint (last : Nat) : Nat → Bytes → Option (Nat × Bytes)
  | 0, _ => none
  | _ + 1, [] => none
  | size + 1, byte :: rest =>
    if byte.toNat < 128 then
      if size = 0 ∧ last < byte.toNat then none else some (byte.toNat, rest)
    else (takeVarint last size rest).map fun (n, rest) => (byte.toNat - 128 + 128 * n, rest)

theorem toNat_ofNat {n : Nat} (small : n < 256) : (UInt8.ofNat n).toNat = n := by
  rw [UInt8.toNat_ofNat']
  exact Nat.mod_eq_of_lt small

theorem takeVarint_putVarint {last size n : Nat} (narrow : last < 128)
    (fits : n < (last + 1) * 128 ^ size) (rest : Bytes) :
    takeVarint last (size + 1) (putVarint (size + 1) n ++ rest) = some (n, rest) := by
  induction size generalizing n with
  | zero =>
    have small : n < 128 := by omega
    have spelled : (UInt8.ofNat n).toNat = n := toNat_ofNat (by omega)
    rw [putVarint, if_pos small, List.singleton_append, takeVarint, spelled, if_pos small,
      if_neg (by omega)]
  | succ size induction =>
    rw [putVarint]
    by_cases small : n < 128
    · have spelled : (UInt8.ofNat n).toNat = n := toNat_ofNat (by omega)
      rw [if_pos small, List.singleton_append, takeVarint, spelled, if_pos small,
        if_neg (by omega)]
    · have spelled : (UInt8.ofNat (n % 128 + 128)).toNat = n % 128 + 128 :=
        toNat_ofNat (by omega)
      have shrinks : n / 128 < (last + 1) * 128 ^ size := by
        rw [Nat.div_lt_iff_lt_mul (by decide), Nat.mul_assoc, ← Nat.pow_succ]
        exact fits
      rw [if_neg small, List.cons_append, takeVarint, spelled, if_neg (by omega),
        induction shrinks, Option.map_some]
      simp only [Nat.add_sub_cancel, Nat.mod_add_div]

/-- Numbers below a bound, whose last byte is the seventh-bit group that is left. -/
def varint (last size : Nat) (narrow : last < 128) :
    PrefixCodec (Fin ((last + 1) * 128 ^ size)) where
  encode value := putVarint (size + 1) value
  decode bytes := (takeVarint last (size + 1) bytes).bind fun (n, rest) =>
    if fits : n < (last + 1) * 128 ^ size then some (⟨n, fits⟩, rest) else none
  reads value rest := by
    rw [takeVarint_putVarint narrow value.2, Option.bind_some]
    exact dif_pos value.2

def u64 : PrefixCodec UInt64 :=
  (varint 1 9 (by decide)).map (fun n => UInt64.ofNat n.1)
    (fun value => ⟨value.toNat, value.toNat_lt⟩) fun value => UInt64.ofNat_toNat

/-- A signed number of some bits beside the sign. -/
abbrev Signed (bits : Nat) := { n : Int // -2 ^ bits ≤ n ∧ n < 2 ^ bits }

def zigzag (n : Int) : Nat := if 0 ≤ n then 2 * n.toNat else 2 * (-n).toNat - 1

def unzigzag (n : Nat) : Int := if n % 2 = 0 then n / 2 else -(n / 2) - 1

theorem unzigzag_zigzag (n : Int) : unzigzag (zigzag n) = n := by
  unfold zigzag unzigzag
  split
  · rw [if_pos (by omega)]
    omega
  · rw [if_neg (by omega)]
    omega

theorem zigzag_lt {half : Nat} {n : Int} (above : -half ≤ n) (below : n < half) :
    zigzag n < 2 * half := by
  unfold zigzag
  split <;> omega

theorem unzigzag_bounds {half n : Nat} (fits : n < 2 * half) :
    -half ≤ unzigzag n ∧ unzigzag n < half := by
  unfold unzigzag
  split <;> omega

def signed (bits last size : Nat) (narrow : last < 128)
    (whole : (last + 1) * 128 ^ size = 2 * 2 ^ bits) : PrefixCodec (Signed bits) :=
  (varint last size narrow).map
    (fun n => ⟨unzigzag n.1, by
      have bounds := unzigzag_bounds (Nat.lt_of_lt_of_eq n.2 whole)
      rwa [Nat.cast_pow, Nat.cast_ofNat] at bounds⟩)
    (fun value => ⟨zigzag value.1, by
      rw [whole]
      apply zigzag_lt
      · rw [Nat.cast_pow, Nat.cast_ofNat]
        exact value.2.1
      · rw [Nat.cast_pow, Nat.cast_ofNat]
        exact value.2.2⟩)
    fun value => Subtype.ext (unzigzag_zigzag value.1)

def i64 : PrefixCodec (Signed 63) := signed 63 1 9 (by decide) (by decide)

def i128 : PrefixCodec (Signed 127) := signed 127 3 18 (by decide) (by decide)

/-! ## Sequences -/

/-- A sequence whose length is a `usize`. -/
abbrev Vec (α : Type) := { items : List α // items.length < 2 ^ 64 }

/-- Exactly `count` values. -/
def take (codec : PrefixCodec α) : Nat → Bytes → Option (List α × Bytes)
  | 0, bytes => some ([], bytes)
  | count + 1, bytes => (codec.decode bytes).bind fun (value, rest) =>
    (codec.take count rest).map fun (values, rest) => (value :: values, rest)

theorem take_flatMap (codec : PrefixCodec α) (values : List α) (rest : Bytes) :
    codec.take values.length (values.flatMap codec.encode ++ rest) = some (values, rest) := by
  induction values with
  | nil => rfl
  | cons value values induction =>
    rw [List.length_cons, List.flatMap_cons, List.append_assoc, take, codec.reads,
      Option.bind_some]
    simp only [induction, Option.map_some]

theorem length_of_take (codec : PrefixCodec α) {count : Nat} {bytes rest : Bytes}
    {values : List α} (taken : codec.take count bytes = some (values, rest)) :
    values.length = count := by
  induction count generalizing bytes values with
  | zero =>
    cases taken
    rfl
  | succ count induction =>
    rcases Option.bind_eq_some_iff.mp taken with ⟨⟨value, left⟩, -, others⟩
    rcases Option.map_eq_some_iff.mp others with ⟨⟨tail, right⟩, found, same⟩
    cases same
    rw [List.length_cons, induction found]

def vec (codec : PrefixCodec α) : PrefixCodec (Vec α) where
  encode values := u64.encode (UInt64.ofNat values.1.length) ++ values.1.flatMap codec.encode
  decode bytes := (u64.decode bytes).bind fun (count, rest) =>
    match taken : codec.take count.toNat rest with
    | none => none
    | some (values, rest) => some (⟨values, by
        rw [codec.length_of_take taken]
        exact count.toNat_lt⟩, rest)
  reads values rest := by
    have count : (UInt64.ofNat values.1.length).toNat = values.1.length := by
      rw [UInt64.toNat_ofNat']
      exact Nat.mod_eq_of_lt values.2
    rw [List.append_assoc, u64.reads, Option.bind_some]
    dsimp only
    have taken := codec.take_flatMap values.1 rest
    rw [← count] at taken
    split
    · rename_i none
      rw [taken] at none
      cases none
    · rename_i found
      rw [taken] at found
      cases found
      rfl

def bytes : PrefixCodec (Vec UInt8) := vec byte

/-! ## Alternatives -/

def u32 : PrefixCodec UInt32 :=
  (varint 15 4 (by decide)).map (fun n => UInt32.ofNat n.1)
    (fun value => ⟨value.toNat, value.toNat_lt⟩) fun value => UInt32.ofNat_toNat

/-- One alternative of a type: its fields, and the values that have them. -/
structure Variant (α : Type) where
  Fields : Type
  codec : PrefixCodec Fields
  make : Fields → α
  view : α → Option Fields
  made : ∀ {value fields}, view value = some fields → make fields = value

def Variant.of (codec : PrefixCodec β) (make : β → α) (view : α → Option β)
    (made : ∀ {value fields}, view value = some fields → make fields = value := by
      intro value fields viewed
      cases value <;> cases viewed <;> rfl) : Variant α :=
  ⟨β, codec, make, view, made⟩

def Variant.bare [DecidableEq α] (value : α) : Variant α where
  Fields := Unit
  codec := unit
  make _ := value
  view other := if other = value then some () else none
  made := by
    intro other fields viewed
    split at viewed
    · rename_i same
      exact same.symm
    · cases viewed

/-- The first alternative a value is of, by its place among them, and its fields. -/
def spell : Nat → List (Variant α) → α → Bytes
  | _, [], _ => []
  | index, variant :: variants, value =>
    match variant.view value with
    | some fields => u32.encode (UInt32.ofNat index) ++ variant.codec.encode fields
    | none => spell (index + 1) variants value

def unspell (variants : List (Variant α)) (bytes : Bytes) : Option (α × Bytes) :=
  (u32.decode bytes).bind fun (index, rest) =>
    match variants[index.toNat]? with
    | none => none
    | some variant =>
      (variant.codec.decode rest).map fun (fields, rest) => (variant.make fields, rest)

theorem unspell_spell {before after : List (Variant α)}
    (few : (before ++ after).length < 2 ^ 32) {value : α}
    (viewed : ∃ variant ∈ after, (variant.view value).isSome) (rest : Bytes) :
    unspell (before ++ after) (spell before.length after value ++ rest) = some (value, rest) := by
  induction after generalizing before with
  | nil =>
    rcases viewed with ⟨_, member, -⟩
    cases member
  | cons variant after induction =>
    rw [spell]
    cases found : variant.view value with
    | none =>
      have later : ∃ variant ∈ after, (variant.view value).isSome := by
        rcases viewed with ⟨other, member, sees⟩
        rcases List.mem_cons.mp member with rfl | member
        · rw [found] at sees
          cases sees
        · exact ⟨other, member, sees⟩
      have split : before ++ variant :: after = before ++ [variant] ++ after := by simp
      have length : (before ++ [variant]).length = before.length + 1 := by simp
      rw [split] at few ⊢
      rw [← length]
      exact induction few later
    | some fields =>
      have index : (UInt32.ofNat before.length).toNat = before.length := by
        rw [UInt32.toNat_ofNat']
        apply Nat.mod_eq_of_lt
        rw [List.length_append] at few
        omega
      rw [List.append_assoc, unspell, u32.reads, Option.bind_some]
      simp only [index]
      rw [List.getElem?_append_right (Nat.le_refl _), Nat.sub_self]
      simp only [List.getElem?_cons_zero, variant.codec.reads, Option.map_some,
        variant.made found]

/-- A type with these alternatives, told apart by their places. -/
def enum (variants : List (Variant α)) (few : variants.length < 2 ^ 32)
    (total : ∀ value, ∃ variant ∈ variants, (variant.view value).isSome) : PrefixCodec α where
  encode := spell 0 variants
  decode := unspell variants
  reads value rest := by
    have spelled := @unspell_spell _ [] variants few value (total value) rest
    exact spelled

/-- `false` and `true`. -/
def bool : PrefixCodec Bool where
  encode value := [if value then 1 else 0]
  decode
    | 0 :: rest => some (false, rest)
    | 1 :: rest => some (true, rest)
    | _ => none
  reads value rest := by cases value <;> rfl

def option (codec : PrefixCodec α) : PrefixCodec (Option α) where
  encode
    | none => [0]
    | some value => 1 :: codec.encode value
  decode
    | 0 :: rest => some (none, rest)
    | 1 :: rest => (codec.decode rest).map fun (value, rest) => (some value, rest)
    | _ => none
  reads value rest := by
    cases value with
    | none => rfl
    | some value =>
      change (codec.decode (codec.encode value ++ rest)).map _ = _
      rw [codec.reads, Option.map_some]

end PrefixCodec

end EclipseOS.Foundation
