import Mathlib.Algebra.GroupWithZero.Nat
import Mathlib.Data.FinEnum

/-! # Grid text

What of a line's bytes is kept, and what of a command's text. -/

namespace EclipseOS.Cataclysm

def MAX_LINE_BYTES : Nat := 3072

/-- `ext` values are at most this many bytes. -/
def EXT_VALUE_MAX : Nat := 256

/-- A run of bytes that decode, and whether bytes that do not come after it. -/
structure Chunk where
  valid : String
  invalid : Bool

/-- `char::is_control`. -/
def isControl (char : Char) : Bool :=
  char.toNat < 0x20 ∨ (0x7F ≤ char.toNat ∧ char.toNat < 0xA0)

/-- `char::is_whitespace`. -/
def isWhitespace (char : Char) : Bool :=
  let n := char.toNat
  (0x9 ≤ n ∧ n ≤ 0xD) ∨ (0x2000 ≤ n ∧ n ≤ 0x200A) ∨
    n ∈ [0x20, 0x85, 0xA0, 0x1680, 0x2028, 0x2029, 0x202F, 0x205F, 0x3000]

def size (text : List Char) : Nat := (text.map Char.utf8Size).sum

/-- The text of a chunk: what does not decode is one U+FFFD. -/
def Chunk.text (chunk : Chunk) : List Char :=
  chunk.valid.toList ++ if chunk.invalid then [Char.ofNat 0xFFFD] else []

/-- As many characters as fit after `used` bytes. -/
def fitting (max used : Nat) : List Char → List Char
  | [] => []
  | char :: rest =>
    if max < used + char.utf8Size then []
    else char :: fitting max (used + char.utf8Size) rest

/-- The text without its last characters that pass the test. -/
def trimEnd (test : Char → Bool) (text : List Char) : List Char :=
  (text.reverse.dropWhile test).reverse

/-- Controls become spaces, trailing spaces go, and the result is capped. -/
def fillSanitized (chunks : List Chunk) : String :=
  let chars := (chunks.flatMap Chunk.text).map fun char => if isControl char then ' ' else char
  String.ofList (trimEnd (· = ' ') (fitting MAX_LINE_BYTES 0 chars))

/-- Cuts to at most `max` bytes, and tells whether anything went. -/
def truncateAt (text : List Char) (max : Nat) : List Char × Bool :=
  if size text ≤ max then (text, false) else (fitting max 0 text, true)

/-- The bytes before the first `;`. -/
def field (bytes : List UInt8) : List UInt8 := bytes.takeWhile (· ≠ 59)

def digits (bytes : List UInt8) : Option Nat :=
  if bytes ≠ [] ∧ ∀ byte ∈ bytes, 48 ≤ byte.toNat ∧ byte.toNat ≤ 57 then
    some (bytes.foldl (fun n byte => n * 10 + (byte.toNat - 48)) 0)
  else none

/-- `str::parse::<i32>`. -/
def parseI32 (bytes : List UInt8) : Option Int :=
  let value := match bytes with
    | 45 :: rest => (digits rest).map fun n => -(n : Int)
    | 43 :: rest => (digits rest).map fun n => (n : Int)
    | other => (digits other).map fun n => (n : Int)
  value.filter fun n => -2147483648 ≤ n ∧ n ≤ 2147483647

end EclipseOS.Cataclysm
