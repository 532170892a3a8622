import EclipseOS.Foundation.FixedDigits
import EclipseOS.PolicyEval.Cbor
import EclipseOS.PolicyEval.Cbor.Framed

/-! # Hashing and signing

The two primitives that come from outside the repository. -/

namespace EclipseOS.PolicyEval

open Foundation Cbor

abbrev Digest := FixedBytes 32

/-- `[0; N]`. -/
def zeroBytes (n : Nat) : FixedBytes n := ⟨List.replicate n 0, List.length_replicate⟩

class Blake3 where
  hash : Bytes → Digest

class Ed25519 where
  SigningKey : Type
  verifyingKey : SigningKey → FixedBytes 32
  sign : SigningKey → Bytes → FixedBytes 64

/-- A digest that keeps the start of what it hashes. -/
@[reducible] def startDigest : Blake3 where
  hash bytes := ⟨(bytes ++ List.replicate 32 0).take 32, by simp⟩

@[reducible] def soleKey : Ed25519 where
  SigningKey := Unit
  verifyingKey _ := zeroBytes 32
  sign _ _ := zeroBytes 64

end EclipseOS.PolicyEval

/-! ## Task objects

Identity, state machine and journalled counters. `policyd` owns the store of
tasks; the types are shared with the compositor. -/

namespace EclipseOS.PolicyEval

open Foundation Cbor

abbrev Ulid := FixedBytes 16

namespace Ulid

def crockford : List Char := "0123456789ABCDEFGHJKMNPQRSTVWXYZ".toList

/-- A millisecond timestamp and 80 bits of entropy. -/
def fromParts (ms : UInt64) (entropy : FixedBytes 10) : Ulid :=
  ⟨(bigEndian 8 ms.toNat).drop 2 ++ entropy.val, by simp [entropy.property]⟩

def toText (id : Ulid) : String :=
  let n := ofBigEndian id.val
  String.ofList <| (List.range 26).map fun i =>
    let v := if i = 0 then n >>> 125 else (n >>> (125 - i * 5)) &&& 0x1f
    crockford.getD v '0'

theorem crockford_injective {first second : Nat} (small : first < 32) (small' : second < 32)
    (same : crockford.getD first '0' = crockford.getD second '0') : first = second := by
  have apart : ∀ first second : Fin 32,
      crockford.getD first '0' = crockford.getD second '0' → first = second := by
    decide
  exact congrArg Fin.val (apart ⟨first, small⟩ ⟨second, small'⟩ same)

/-- The `i`th of the 26 digits holds five bits. -/
def digit (n i : Nat) : Nat := if i = 0 then n >>> 125 else (n >>> (125 - i * 5)) &&& 0x1f

theorem digit_lt {n i : Nat} (small : n < 2 ^ 128) : digit n i < 32 := by
  rw [digit]
  split
  · rw [Nat.shiftRight_eq_div_pow]
    omega
  · exact lt_of_le_of_lt Nat.and_le_right (by decide)

theorem testBit_digit {n i j : Nat} (inDigit : j < 5) :
    (digit n i).testBit j = n.testBit (125 - i * 5 + j) := by
  rw [digit]
  split
  · rename_i isFirst
    rw [isFirst, Nat.testBit_shiftRight]
  · have masked : ∀ j < 5, (0x1f : Nat).testBit j = true := by decide
    rw [Nat.testBit_and, Nat.testBit_shiftRight, masked j inDigit, Bool.and_true]

theorem toText_injective : Function.Injective toText := by
  intro left right same
  have size (id : Ulid) : ofBigEndian id.val < 2 ^ 128 := by
    have small := ofBigEndian_lt id.val
    rwa [id.property] at small
  have digits : ∀ i ≤ 25, digit (ofBigEndian left.val) i = digit (ofBigEndian right.val) i := by
    intro i inside
    have lists := String.ofList_injective same
    have entry := List.map_inj_left.mp lists i (List.mem_range.mpr (by omega))
    exact crockford_injective (digit_lt (size left)) (digit_lt (size right)) entry
  have value : ofBigEndian left.val = ofBigEndian right.val := by
    refine Nat.eq_of_testBit_eq fun bit => ?_
    by_cases high : bit < 130
    · have same := congrArg (·.testBit (bit % 5)) (digits (25 - bit / 5) (by omega))
      rw [testBit_digit (by omega), testBit_digit (by omega)] at same
      have place : 125 - (25 - bit / 5) * 5 + bit % 5 = bit := by omega
      rwa [place] at same
    · have wide : 2 ^ 128 ≤ 2 ^ bit := Nat.pow_le_pow_right (by decide) (by omega)
      rw [Nat.testBit_lt_two_pow (lt_of_lt_of_le (size left) wide),
        Nat.testBit_lt_two_pow (lt_of_lt_of_le (size right) wide)]
  refine Subtype.ext ?_
  have spelled (id : Ulid) : bigEndian 16 (ofBigEndian id.val) = id.val := by
    have exact := bigEndian_ofBigEndian id.val
    rwa [id.property] at exact
  rw [← spelled left, value, spelled right]

end Ulid

inductive CloseReason where
  | completed
  | cancelled
  | expired
  | failed
  deriving DecidableEq

namespace CloseReason

def asStr : CloseReason → String
  | completed => "completed"
  | cancelled => "cancelled"
  | expired => "expired"
  | failed => "failed"

def parse (text : String) : Option CloseReason :=
  match text with
  | "completed" => some completed
  | "cancelled" => some cancelled
  | "expired" => some expired
  | "failed" => some failed
  | _ => none

@[simp] theorem parse_asStr (reason : CloseReason) : parse reason.asStr = some reason := by
  cases reason <;> rfl

end CloseReason

inductive TaskState where
  | active
  | paused
  | draining
  | closed (reason : CloseReason)
  deriving DecidableEq

inductive TaskEvent where
  | pause
  | resume
  | drain
  | drained
  | cancel
  | deadline
  | fault
  deriving DecidableEq

/-- A transition the state machine does not draw. -/
structure IllegalTransition where
  «from» : TaskState
  event : TaskEvent
  deriving DecidableEq

namespace TaskState

/-- The task occupies its principal's single live slot. -/
def isLive : TaskState → Bool
  | closed _ => false
  | _ => true

def acceptsActingRequests : TaskState → Bool
  | active => true
  | _ => false

def transition (state : TaskState) (event : TaskEvent) : Except IllegalTransition TaskState :=
  match state, event with
  | active, .pause => .ok paused
  | paused, .resume => .ok active
  | active, .drain | paused, .drain => .ok draining
  | draining, .drained => .ok (closed .completed)
  | active, .cancel | paused, .cancel | draining, .cancel => .ok (closed .cancelled)
  | active, .deadline | paused, .deadline | draining, .deadline => .ok (closed .expired)
  | active, .fault | paused, .fault | draining, .fault => .ok (closed .failed)
  | _, _ => .error ⟨state, event⟩

def asStr : TaskState → String
  | active => "active"
  | paused => "paused"
  | draining => "draining"
  | closed _ => "closed"

theorem isLive_of_transition {state next : TaskState} {event : TaskEvent}
    (moved : state.transition event = .ok next) : state.isLive = true := by
  cases state with
  | closed reason => cases event <;> cases moved
  | active | paused | draining => rfl

theorem transition_cancel {state : TaskState} (live : state.isLive = true) :
    state.transition .cancel = .ok (closed .cancelled) := by
  cases state with
  | closed reason => cases live
  | active | paused | draining => rfl

end TaskState

inductive Origin where
  | human
  | parentTask
  deriving DecidableEq

namespace Origin

def asStr : Origin → String
  | human => "human"
  | parentTask => "parent_task"

def parse (text : String) : Option Origin :=
  match text with
  | "human" => some human
  | "parent_task" => some parentTask
  | _ => none

@[simp] theorem parse_asStr (origin : Origin) : parse origin.asStr = some origin := by
  cases origin <;> rfl

end Origin

/-! ## Counters -/

/-- How many events a rate-windowed counter remembers. -/
def rateRing : Nat := 32

/-- The timestamps of a rate-windowed counter, oldest first. -/
structure RateRing where
  stamps : List UInt64
  deriving DecidableEq

namespace RateRing

def new : RateRing := ⟨[]⟩

def fromStamps (stamps : List UInt64) : RateRing := ⟨stamps⟩

/-- Whether `stamp` is inside the window that ends at `now`. -/
def inWindow (now window stamp : UInt64) : Bool :=
  now.toNat - stamp.toNat < window.toNat

def count (ring : RateRing) (now window : UInt64) : Nat :=
  (ring.stamps.filter (inWindow now window)).length

def prune (ring : RateRing) (now window : UInt64) : RateRing :=
  ⟨ring.stamps.filter (inWindow now window)⟩

/-- Records an event, dropping the oldest one of a full ring, and returns the number of
events inside the window. -/
def record (ring : RateRing) (now window : UInt64) : RateRing × Nat :=
  let kept := (ring.prune now window).stamps
  let stamps := (if kept.length = rateRing then kept.tail else kept) ++ [now]
  (⟨stamps⟩, stamps.length)

end RateRing

structure Counters where
  promptsShown : UInt32
  promptsAllowed : UInt32
  irreversible : RateRing
  irreversibleByClass : List (String × RateRing)
  deniedIrreversibleStreak : UInt32
  retries : UInt32
  egressBytesUp : UInt64
  channelMessages : UInt32
  deriving DecidableEq

def encodeRing (ring : RateRing) : Bytes := arrayOf Writer.u64 ring.stamps

def decodeRing : Read Cbor.Error RateRing := do
  let n ← arrayLen
  if rateRing < n then
    fail .type
  else
    return RateRing.fromStamps (← collect n u64)

namespace Counters

def default : Counters := ⟨0, 0, .new, [], 0, 0, 0, 0⟩

/-- The order canonical keys sort in: shorter first, then bytewise. -/
def ClassLe (left right : String × RateRing) : Prop :=
  (utf8 left.1).length < (utf8 right.1).length ∨
    (utf8 left.1).length = (utf8 right.1).length ∧ utf8 left.1 ≤ utf8 right.1

instance : DecidableRel ClassLe := fun _ _ => inferInstanceAs (Decidable (_ ∨ _))

/-- Runs `change` on the ring of a class, which is there afterwards. -/
def classRingMut (counters : Counters) (name : String) (change : RateRing → RateRing) :
    Counters :=
  let classes :=
    if counters.irreversibleByClass.any (·.1 = name) then counters.irreversibleByClass
    else (counters.irreversibleByClass ++ [(name, RateRing.new)]).insertionSort ClassLe
  let i := classes.findIdx (·.1 = name)
  { counters with
    irreversibleByClass := classes.modify i fun entry => (entry.1, change entry.2) }

def encodeClasses (classes : List (String × RateRing)) : Bytes :=
  (classes.foldl (fun builder entry => builder.insert entry.1 (encodeRing entry.2))
    MapBuilder.new).finish

def encode (counters : Counters) : Bytes :=
  MapBuilder.new
    |>.insert "prompts_shown" (Writer.u64 counters.promptsShown.toUInt64)
    |>.insert "prompts_allowed" (Writer.u64 counters.promptsAllowed.toUInt64)
    |>.insert "irreversible" (encodeRing counters.irreversible)
    |>.insert "irreversible_by_class" (encodeClasses counters.irreversibleByClass)
    |>.insert "denied_irreversible_streak"
      (Writer.u64 counters.deniedIrreversibleStreak.toUInt64)
    |>.insert "retries" (Writer.u64 counters.retries.toUInt64)
    |>.insert "egress_bytes_up" (Writer.u64 counters.egressBytesUp)
    |>.insert "channel_messages" (Writer.u64 counters.channelMessages.toUInt64)
    |>.finish

def readClass (name : String) (classes : List (String × RateRing)) :
    Read Cbor.Error (List (String × RateRing)) := do
  return classes ++ [(name, ← decodeRing)]

/-- One key of the counter block. Unknown counters are skipped. -/
def read (key : String) (counters : Counters) : Read Cbor.Error Counters :=
  match key with
  | "prompts_shown" => return { counters with promptsShown := ← u32 }
  | "prompts_allowed" => return { counters with promptsAllowed := ← u32 }
  | "irreversible" => return { counters with irreversible := ← decodeRing }
  | "irreversible_by_class" =>
    return { counters with
      irreversibleByClass := ← readMap counters.irreversibleByClass readClass }
  | "denied_irreversible_streak" =>
    return { counters with deniedIrreversibleStreak := ← u32 }
  | "retries" => return { counters with retries := ← u32 }
  | "egress_bytes_up" => return { counters with egressBytesUp := ← u64 }
  | "channel_messages" => return { counters with channelMessages := ← u32 }
  | _ => do
    skip
    return counters

def decode : Read Cbor.Error Counters := readMap default read

end Counters

/-! ## The task -/

structure Task where
  id : Ulid
  principal : String
  origin : Origin
  originRef : String
  statement : String
  agentNote : Option String
  parentTaskId : Option Ulid
  depth : UInt32
  state : TaskState
  openedMs : UInt64
  deadlineMs : UInt64
  chainRoot : String
  counters : Counters
  deriving DecidableEq

def Task.statementHash [Blake3] (task : Task) : Digest := Blake3.hash (utf8 task.statement)

end EclipseOS.PolicyEval

/-! ## The text of an id

Tasks are looked up by the text of their ids. It tells two ids apart and sorts as they do. -/

namespace EclipseOS.PolicyEval.Ulid

open Foundation Cbor

/-- The 48-bit timestamp, in milliseconds since the Unix epoch. -/
def timestampMs (id : Ulid) : UInt64 := UInt64.ofNat (ofBigEndian ([0, 0] ++ id.val.take 6))

theorem crockford_increasing (low high : Nat) (less : low < high) (small : high < 32) :
    crockford.getD low '0' < crockford.getD high '0' := by
  have ordered : ∀ low high : Fin 32, low < high →
      crockford.getD low '0' < crockford.getD high '0' := by
    decide
  exact ordered ⟨low, less.trans small⟩ ⟨high, small⟩ less

theorem number_lt (id : Ulid) : ofBigEndian id.val < 32 ^ 26 := by
  have small := ofBigEndian_lt id.val
  rw [id.property] at small
  omega

theorem digit_eq {n i : Nat} (small : n < 2 ^ 128) (place : i < 26) :
    digit n i = n / 32 ^ (25 - i) % 32 := by
  have powers : 2 ^ (125 - i * 5) = 32 ^ (25 - i) := by
    rw [show (32 : Nat) = 2 ^ 5 from rfl, ← Nat.pow_mul]
    congr 1
    omega
  rw [digit]
  split
  · rename_i first
    rw [first, Nat.shiftRight_eq_div_pow]
    omega
  · have low := Nat.and_two_pow_sub_one_eq_mod (n >>> (125 - i * 5)) 5
    rw [← powers, ← Nat.shiftRight_eq_div_pow]
    exact low

theorem toText_eq (id : Ulid) :
    id.toText =
      String.ofList ((fixedDigits 32 26 (ofBigEndian id.val)).map (crockford.getD · '0')) := by
  have small := ofBigEndian_lt id.val
  rw [id.property] at small
  have small : ofBigEndian id.val < 2 ^ 128 := small
  rw [fixedDigits_eq_map, List.map_map]
  apply congrArg String.ofList
  apply List.map_congr_left
  intro place inside
  have digits := digit_eq small (List.mem_range.mp inside)
  exact congrArg (crockford.getD · '0') digits

theorem toText_lt_iff {left right : Ulid} :
    left.toText < right.toText ↔ ofBigEndian left.val < ofBigEndian right.val := by
  rw [toText_eq, toText_eq, String.lt_iff, String.toList_ofList, String.toList_ofList]
  exact map_fixedDigits_lt_iff crockford_increasing (number_lt left) (number_lt right)

theorem timestampMs_fromParts {ms : UInt64} (entropy : FixedBytes 10) (fits : ms.toNat < 2 ^ 48) :
    (fromParts ms entropy).timestampMs = ms := by
  have first : ms.toNat / 256 ^ 7 = 0 := Nat.div_eq_of_lt (by omega)
  have second : ms.toNat / 256 ^ 6 = 0 := Nat.div_eq_of_lt fits
  have whole : bigEndian 8 ms.toNat = [0, 0] ++ (bigEndian 8 ms.toNat).drop 2 := by
    rw [bigEndian, bigEndian, first, second]
    rfl
  have kept : (fromParts ms entropy).val.take 6 = (bigEndian 8 ms.toNat).drop 2 := by
    apply List.take_left'
    rw [List.length_drop, bigEndian_length]
  rw [timestampMs, kept, ← whole, ofBigEndian_bigEndian, Nat.mod_eq_of_lt (by omega)]
  exact UInt64.ofNat_toNat

/-- Ids and their texts correspond, in the same order, and the timestamp comes back from an
id that was built from it. -/
theorem toText_injective_ordered :
    Function.Injective toText ∧
    (∀ left right : Ulid,
      left.toText < right.toText ↔ ofBigEndian left.val < ofBigEndian right.val) ∧
    ∀ (ms : UInt64) (entropy : FixedBytes 10), ms.toNat < 2 ^ 48 →
      (fromParts ms entropy).timestampMs = ms :=
  ⟨toText_injective, fun _ _ => toText_lt_iff, fun _ entropy fits =>
    timestampMs_fromParts entropy fits⟩

theorem toText_injective_ordered_minted :
    (fromParts 1700000000000 ⟨List.replicate 10 7, rfl⟩).timestampMs = 1700000000000 :=
  toText_injective_ordered.2.2 1700000000000 ⟨List.replicate 10 7, rfl⟩ (by decide)

end EclipseOS.PolicyEval.Ulid
