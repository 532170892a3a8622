import Mathlib.Data.List.Lex
import EclipseOS.Foundation.BigEndian
import EclipseOS.Foundation.KeyOrder

/-! # Canonical CBOR

The writer, the map builder and the strict reader of the canonical profile. A
writer method is modelled by the bytes it appends, and a reader by the input it
has not consumed yet together with its stack of open maps. -/

namespace EclipseOS.PolicyEval.Cbor

open Foundation

/-- How deep a nested map may go before the decoder gives up. -/
def maxMapDepth : Nat := 8

def majorUint : UInt8 := 0
def majorNegint : UInt8 := 1
def majorBytes : UInt8 := 2
def majorText : UInt8 := 3
def majorArray : UInt8 := 4
def majorMap : UInt8 := 5
def majorSimple : UInt8 := 7

inductive Error where
  | eof
  | notCanonical
  | unsupported
  | type
  | trailing
  | tooDeep
  | unbalanced
  deriving DecidableEq

/-- The conversion `?` applies to a decoder error. -/
class FromCbor (ε : Type) where
  fromCbor : Error → ε

instance : FromCbor Error := ⟨id⟩

/-! ## Text -/

def utf8 (text : String) : Bytes := text.toByteArray.data.toList

def fromUtf8 (bytes : Bytes) : Option String :=
  String.fromUTF8? bytes.toByteArray

theorem utf8_toByteArray (text : String) :
    (utf8 text).toByteArray = text.toByteArray := by
  apply ByteArray.ext
  simp [utf8, List.data_toByteArray]

@[simp] theorem fromUtf8_utf8 (text : String) : fromUtf8 (utf8 text) = some text := by
  have valid : (utf8 text).toByteArray.IsValidUTF8 := by
    rw [utf8_toByteArray]
    exact text.isValidUTF8
  rw [fromUtf8, String.fromUTF8?, dif_pos valid]
  congr 1
  exact String.toByteArray_inj.mp (utf8_toByteArray text)

theorem utf8_of_fromUtf8 {bytes : Bytes} {text : String}
    (decoded : fromUtf8 bytes = some text) : utf8 text = bytes := by
  unfold fromUtf8 String.fromUTF8? at decoded
  split at decoded
  · cases decoded
    exact List.toList_data_toByteArray
  · cases decoded

theorem utf8_injective : Function.Injective utf8 := by
  intro left right equal
  have decoded := congrArg fromUtf8 equal
  simpa using decoded

/-! ## Writer -/

namespace Writer

/-- The shortest head that can carry `arg`. -/
def head (major : UInt8) (arg : Nat) : Bytes :=
  let m := major <<< 5
  if arg < 24 then
    [m ||| UInt8.ofNat arg]
  else if arg ≤ 0xff then
    (m ||| 24) :: bigEndian 1 arg
  else if arg ≤ 0xffff then
    (m ||| 25) :: bigEndian 2 arg
  else if arg ≤ 0xffffffff then
    (m ||| 26) :: bigEndian 4 arg
  else
    (m ||| 27) :: bigEndian 8 arg

def u64 (value : UInt64) : Bytes := head majorUint value.toNat

def i64 (value : Int64) : Bytes :=
  if 0 ≤ value then head majorUint value.toInt.toNat
  else head majorNegint (-value.toInt - 1).toNat

def bytes (value : Bytes) : Bytes := head majorBytes value.length ++ value

def text (value : String) : Bytes := head majorText (utf8 value).length ++ utf8 value

def bool (value : Bool) : Bytes := [majorSimple <<< 5 ||| if value then 21 else 20]

def null : Bytes := [majorSimple <<< 5 ||| 22]

def array (len : Nat) : Bytes := head majorArray len

def map (len : Nat) : Bytes := head majorMap len

end Writer

/-- `w.array(items.len())` and then every item. -/
def arrayOf {α : Type} (encode : α → Bytes) (items : List α) : Bytes :=
  Writer.array items.length ++ items.flatMap encode

/-! ## Map builder -/

/-- Entries of a map under construction, with their keys already encoded. -/
structure MapBuilder where
  entries : List (Bytes × Bytes)

namespace MapBuilder

def new : MapBuilder := ⟨[]⟩

def insert (builder : MapBuilder) (key : String) (value : Bytes) : MapBuilder :=
  ⟨builder.entries ++ [(Writer.text key, value)]⟩

def insertOpt (builder : MapBuilder) (key : String) :
    Option Bytes → MapBuilder
  | some value => builder.insert key value
  | none => builder

def insertInt (builder : MapBuilder) (key : Int64) (value : Bytes) : MapBuilder :=
  ⟨builder.entries ++ [(Writer.i64 key, value)]⟩

/-- Entries are compared by their encoded keys. -/
def KeyLe (left right : Bytes × Bytes) : Prop := left.1 ≤ right.1

instance : DecidableRel KeyLe := fun left right =>
  inferInstanceAs (Decidable (left.1 ≤ right.1))

def finish (builder : MapBuilder) : Bytes :=
  Writer.head majorMap builder.entries.length ++
    (builder.entries.insertionSort KeyLe).flatMap fun entry => entry.1 ++ entry.2

end MapBuilder

/-! ## Reader -/

/-- One open map: the previously seen key's encoded bytes and the number of
pairs left. -/
structure Frame where
  previous : Option Bytes
  left : Nat
  deriving DecidableEq

/-- The bytes from the reader's position on, and its open maps, innermost
first. -/
structure Reader where
  rest : Bytes
  maps : List Frame
  deriving DecidableEq

def Reader.new (buf : Bytes) : Reader := ⟨buf, []⟩

/-- A fallible read. A failed read abandons its reader. -/
abbrev Read (ε α : Type) := StateT Reader (Except ε) α

section Reads

variable {ε : Type}

/-- `ok_or(error)?` and `map_err(|_| error)?`. -/
def okOr {α : Type} (value : Option α) (error : ε) : Read ε α :=
  match value with
  | some value => return value
  | none => throw error

/-- `result?`. -/
def orThrow {α : Type} (result : Except ε α) : Read ε α := StateT.lift result

variable [FromCbor ε]

def fail {α : Type} (error : Error) : Read ε α :=
  throw (FromCbor.fromCbor error)

/-- Requires that the input held exactly one item. -/
def finish : Read ε Unit := do
  let reader ← get
  if reader.maps ≠ [] then
    fail .unbalanced
  else if reader.rest ≠ [] then
    fail .trailing

def take (n : Nat) : Read ε Bytes := do
  let reader ← get
  if n ≤ reader.rest.length then
    set { reader with rest := reader.rest.drop n }
    return reader.rest.take n
  else
    fail .eof

/-- The argument of a head whose low bits ask for `width` more bytes, refused
unless it is too large for the next shorter form. -/
def longArgument (width least : Nat) : Read ε Nat := do
  let value := ofBigEndian (← take width)
  if value < least then
    fail .notCanonical
  else
    return value

def head : Read ε (UInt8 × Nat) := do
  let byte := (← take 1).headD 0
  let major := byte >>> 5
  let low := byte &&& 0x1f
  if major = majorSimple ∧ 24 ≤ low then
    fail .unsupported
  else if low < 24 then
    return (major, low.toNat)
  else if low = 24 then
    return (major, ← longArgument 1 24)
  else if low = 25 then
    return (major, ← longArgument 2 0x100)
  else if low = 26 then
    return (major, ← longArgument 4 0x10000)
  else if low = 27 then
    return (major, ← longArgument 8 0x100000000)
  else
    fail .notCanonical

def expect (major : UInt8) : Read ε Nat := do
  let (found, arg) ← head
  if found ≠ major then
    fail .type
  else
    return arg

def u64 : Read ε UInt64 := do
  return UInt64.ofNat (← expect majorUint)

/-- `u32::try_from(r.u64()?)`, with a type error when it does not fit. -/
def u32 : Read ε UInt32 := do
  let value ← u64
  if value.toNat < 2 ^ 32 then
    return UInt32.ofNat value.toNat
  else
    fail .type

def i64 : Read ε Int64 := do
  let (major, arg) ← head
  if major = majorUint ∧ arg < 2 ^ 63 then
    return Int64.ofNat arg
  else if major = majorNegint ∧ arg < 2 ^ 63 then
    return Int64.ofInt (-(arg : Int) - 1)
  else
    fail .type

def bytes : Read ε Bytes := do
  take (← expect majorBytes)

/-- A byte string of exactly `n` bytes. -/
abbrev FixedBytes (n : Nat) := { bytes : Bytes // bytes.length = n }

def FixedBytes.ofBytes {n : Nat} (value : Bytes) : Option (FixedBytes n) :=
  if exact : value.length = n then some ⟨value, exact⟩ else none

def byteArray (n : Nat) : Read ε (FixedBytes n) := do
  okOr (FixedBytes.ofBytes (← bytes)) (FromCbor.fromCbor .type)

def text : Read ε String := do
  okOr (fromUtf8 (← take (← expect majorText))) (FromCbor.fromCbor .type)

/-- `parse(r.text()?).ok_or(Error::Type)?`. -/
def textAs {α : Type} (parse : String → Option α) : Read ε α := do
  okOr (parse (← text)) (FromCbor.fromCbor .type)

def bool : Read ε Bool := do
  let (major, arg) ← head
  if major = majorSimple ∧ arg = 20 then
    return false
  else if major = majorSimple ∧ arg = 21 then
    return true
  else
    fail .type

def arrayLen : Read ε Nat := expect majorArray

def pushMap (pairs : Nat) : Read ε Unit := do
  let reader ← get
  if maxMapDepth ≤ reader.maps.length then
    fail .tooDeep
  else
    set { reader with maps := ⟨none, pairs⟩ :: reader.maps }

def mapBegin : Read ε Nat := do
  let pairs ← expect majorMap
  pushMap pairs
  return pairs

def mapEnd : Read ε Unit := do
  let reader ← get
  match reader.maps with
  | [] => fail .unbalanced
  | frame :: outer =>
    if frame.left ≠ 0 then
      fail .unbalanced
    else
      set { reader with maps := outer }

/-- The bytes between the positions before and after `read`. -/
def spanned (read : Read ε α) : Read ε (α × Bytes) := do
  let start ← get
  let value ← read
  let reader ← get
  return (value, start.rest.take (start.rest.length - reader.rest.length))

/-- Notes the encoding of the next key of the innermost map. -/
def noteKey (encoded : Bytes) : Read ε Unit := do
  let reader ← get
  match reader.maps with
  | [] => fail .unbalanced
  | frame :: outer =>
    if frame.left = 0 then
      fail .unbalanced
    else if frame.previous.any (encoded ≤ ·) then
      fail .notCanonical
    else
      set { reader with maps := ⟨some encoded, frame.left - 1⟩ :: outer }

def key : Read ε String := do
  let (value, encoded) ← spanned text
  noteKey encoded
  return value

/-- The integer-keyed form of `key`, for COSE headers. -/
def intKey : Read ε Int64 := do
  let (value, encoded) ← spanned i64
  noteKey encoded
  return value

/-- `for _ in 0..n { body()? }`. -/
def times : Nat → Read ε Unit → Read ε Unit
  | 0, _ => return ()
  | n + 1, body => do
    body
    times n body

/-- `(0..n).map(|_| body()).collect()`. -/
def collect : Nat → Read ε α → Read ε (List α)
  | 0, _ => return []
  | n + 1, body => do
    let first ← body
    let others ← collect n body
    return first :: others

/-- `for _ in 0..r.array_len()? { items.push(body()?) }`. -/
def arrayItems (body : Read ε α) : Read ε (List α) := do
  collect (← arrayLen) body

/-- The body of `for _ in 0..n { match r.key()? { .. } }`, with the fields read
so far as an accumulator. -/
def eachKey (field : String → σ → Read ε σ) : Nat → σ → Read ε σ
  | 0, fields => return fields
  | n + 1, fields => do
    let fields ← field (← key) fields
    eachKey field n fields

/-- A whole map: `map_begin`, one `field` per key, `map_end`. -/
def readMap (initial : σ) (field : String → σ → Read ε σ) : Read ε σ := do
  let fields ← eachKey field (← mapBegin) initial
  mapEnd
  return fields

/-- Skips one complete item. Every level of nesting consumes a head, so the
input's length bounds the recursion. -/
def skipWithin : Nat → Read ε Unit
  | 0 => fail .eof
  | fuel + 1 => do
    let (major, arg) ← head
    if major = majorUint ∨ major = majorNegint then
      return ()
    else if major = majorBytes ∨ major = majorText then
      let _ ← take arg
      return ()
    else if major = majorArray then
      times arg (skipWithin fuel)
    else if major = majorMap then
      pushMap arg
      times arg do
        let _ ← key
        skipWithin fuel
      mapEnd
    else if major = majorSimple ∧ 20 ≤ arg ∧ arg ≤ 22 then
      return ()
    else
      fail .unsupported

def skip : Read ε Unit := fun reader => skipWithin (reader.rest.length + 1) reader

/-- Runs `read` over the whole of `buf` and nothing else. -/
def decodeAll (read : Read ε α) (buf : Bytes) : Except ε α :=
  Prod.fst <$> (do
    let value ← read
    finish
    return value).run (Reader.new buf)

end Reads

end EclipseOS.PolicyEval.Cbor
