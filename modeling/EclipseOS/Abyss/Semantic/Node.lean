import Mathlib.Data.Finmap
import EclipseOS.PolicyEval.SceneView

/-! # Nodes of a semantic tree

What a client may say about one node, and what is remembered about its id. -/

namespace EclipseOS.Abyss.Semantic

open PolicyEval
export PolicyEval (Class)

def nodeBudget : Nat := 4000

def modelCap : Nat := 131072

/-- Deepest nesting `addNode` and `moveNode` accept. -/
def maxDepth : Nat := 512

def extKeys : Nat := 16
def extKeyMax : Nat := 64
def extValueMax : Nat := 256
def nameMax : Nat := 1024
def descMax : Nat := 2048
def textMax : Nat := 3072
def urlMax : Nat := 2048
def labelMax : Nat := 128
def maxActions : Nat := 32

/-- Entries in the raise-only table before the surface is tainted. -/
def secCap : Nat := 4096

def truncatedMax : Nat := 256

abbrev Instant := Nat

def grace : Nat := 500000000

def rolePassword : UInt32 := 30
def roleUnknown : UInt32 := 57
def stateCount : UInt32 := 23
def stateFocused : UInt32 := 1
def verbFixed : UInt32 := 12
def verbCustomBase : UInt32 := 256

structure Rect where
  x : Int32
  y : Int32
  w : Int32
  h : Int32
  deriving DecidableEq

namespace Rect

def clamp (low high value : Int) : Int := max low (min value high)

/-- Clamped into `[0, size)`, and whether anything changed. -/
def clamped (rect : Rect) (size : Int32 × Int32) : Rect × Bool :=
  let bw := max size.1.toInt 0
  let bh := max size.2.toInt 0
  let x0 := clamp 0 bw rect.x.toInt
  let y0 := clamp 0 bh rect.y.toInt
  let x1 := clamp x0 bw (rect.x.toInt + max rect.w.toInt 0)
  let y1 := clamp y0 bh (rect.y.toInt + max rect.h.toInt 0)
  let out : Rect := ⟨.ofInt x0, .ofInt y0, .ofInt (x1 - x0), .ofInt (y1 - y0)⟩
  (out, out ≠ rect)

end Rect

inductive Value where
  | empty
  | text (text : String) (cursor : Int32) (sel : Int32 × Int32)
  | number (value min max step : Float)
  | url (href : String)

structure Node where
  /-- 0 only for the root. -/
  parent : UInt32
  children : List UInt32
  role : UInt32
  name : String
  desc : String
  rect : Option Rect
  /-- Bit `n` is state code `n`. -/
  states : UInt32
  value : Value
  actions : List UInt32
  labels : List (UInt32 × String)
  ext : List (String × String)
  /-- Set on the published copy when the rectangle was clamped. -/
  clamped : Bool

def Node.new (parent : UInt32) : Node :=
  ⟨parent, [], roleUnknown, "", "", none, 0, .empty, [], [], [], false⟩

/-- A rejected request. Each is a protocol error. -/
inductive Violation where
  | invalidNode
  | invalidParent
  | cycle
  | alreadyExists
  | lowerClassification
  | extLimit
  | uncommittedDestroy
  deriving DecidableEq

inductive ExtOutcome where
  | applied
  /-- An unknown `ext.irreversible` id: not recorded. -/
  | dropped
  deriving DecidableEq

structure Sec where
  «class» : Class
  /-- The node was ever a `password`: its text is discarded for good. -/
  password : Bool
  credential : Bool
  irreversible : Option String
  echoOff : Bool
  holdUntil : Option Instant
  deriving DecidableEq

namespace Sec

def new : Sec := ⟨.«private», false, false, none, false, none⟩

/-- Whether the node is secret by its own record at `now`. -/
def secretAt (sec : Sec) (now : Instant) : Bool :=
  sec.class = .secret || sec.password || sec.credential || sec.echoOff ||
    sec.holdUntil.any (now < ·)

def «local» (sec : Sec) (now : Instant) : Class :=
  if sec.secretAt now then .secret else sec.class

end Sec

/-! ## Text -/

/-- `char::is_control`. -/
def isControl (char : Char) : Bool :=
  char.toNat < 0x20 || (0x7f ≤ char.toNat && char.toNat < 0xa0)

def isDisguise (char : Char) : Bool :=
  (0x200b ≤ char.toNat && char.toNat ≤ 0x200f) ||
    (0x202a ≤ char.toNat && char.toNat ≤ 0x202e) ||
      (0x2066 ≤ char.toNat && char.toNat ≤ 0x2069)

def cleanChars (multiline : Bool) : Nat → List Char → List Char
  | _, [] => []
  | room, char :: chars =>
    if (multiline && (char = '\n' || char = '\t')) || (!isControl char && !isDisguise char) then
      if room < char.utf8Size then []
      else char :: cleanChars multiline (room - char.utf8Size) chars
    else
      cleanChars multiline room chars

/-- Strips what could dress the text up as something else, then cuts it to `max`
bytes on a character boundary. -/
def clean (text : String) (max : Nat) (multiline : Bool) : String :=
  String.ofList (cleanChars multiline max text.toList)

/-- `key.strip_prefix("ext.").unwrap_or(key)`. -/
def stripExt (key : String) : String :=
  match key.toList with
  | 'e' :: 'x' :: 't' :: '.' :: rest => String.ofList rest
  | _ => key

/-- `str::len`. -/
def byteLen (text : String) : Nat := (Cbor.utf8 text).length

end EclipseOS.Abyss.Semantic
