import EclipseOS.Foundation.BigEndian
import EclipseOS.PolicyEval.Cbor

/-! # Command hashes

The hash of what a command of the configuration runs: a keyed hash over an encoding that
frames every part by its length. -/

namespace EclipseOS.Abyss

open Foundation
open PolicyEval.Cbor (utf8 utf8_injective)

/-- A string, whose length is a `usize`. -/
abbrev Str := { text : String // (utf8 text).length < 2 ^ 64 }

/-- A vector of strings, whose length is a `usize`. -/
abbrev Argv := { args : List Str // args.length < 2 ^ 64 }

/-- blake3 in derive-key mode, over the updates of a hasher. -/
class DeriveKey (Hash : Type) where
  derive : (context : String) → Bytes → Hash

/-- No two messages under one context have the same hash. -/
def CollisionFree (Hash : Type) [DeriveKey Hash] : Prop :=
  ∀ context, Function.Injective (DeriveKey.derive context : Bytes → Hash)

inductive CustomWidgetKind where
  | exec (argv : Argv) (intervalMs : UInt32)
  | stream (argv : Argv)
  | source (source format : String)
  deriving DecidableEq

structure CustomWidget where
  name : String
  kind : CustomWidgetKind
  icon : Option String
  onClick : Option Argv
  onScrollUp : Option Argv
  onScrollDown : Option Argv
  deriving DecidableEq

/-- `u64::to_le_bytes`. -/
def le64 (n : Nat) : Bytes := (bigEndian 8 n).reverse

def putStr (text : String) : Bytes := le64 (utf8 text).length ++ utf8 text

def putList (argv : Argv) : Bytes :=
  le64 argv.1.length ++ argv.1.flatMap fun arg => putStr arg.1

def putAction : Option Argv → Bytes
  | none => [0]
  | some argv => 1 :: putList argv

def putInterval : Option UInt32 → Bytes
  | none => [0]
  | some ms => 1 :: le64 ms.toNat

/-- The kind of a command widget, what it runs and how often. -/
def CustomWidgetKind.runs : CustomWidgetKind → Option (Str × Argv × Option UInt32)
  | exec argv intervalMs => some (⟨"exec", by decide⟩, argv, some intervalMs)
  | stream argv => some (⟨"stream", by decide⟩, argv, none)
  | source _ _ => none

def encodeCommand (kind : Str) (argv : Argv) (interval : Option UInt32) (w : CustomWidget) :
    Bytes :=
  putStr kind.1 ++ putList argv ++ putInterval interval ++ putAction w.onClick ++
    putAction w.onScrollUp ++ putAction w.onScrollDown

def CONTEXT : String := "EclipseOS 2026-09-26 command widget approval v1"

def MODEL_COMMAND_CONTEXT : String :=
  "EclipseOS 2026-10-02 oracle-eyes model command approval v1"

def QUICK_ACTION_CONTEXT : String := "EclipseOS 2026-11-03 quick action approval v1"

variable {Hash : Type} [DeriveKey Hash]

/-- The hash of a command widget; a declarative one has none. -/
def hash (w : CustomWidget) : Option Hash :=
  w.kind.runs.map fun (kind, argv, interval) =>
    DeriveKey.derive CONTEXT (encodeCommand kind argv interval w)

def modelCommandHash (argv : Argv) : Hash :=
  DeriveKey.derive MODEL_COMMAND_CONTEXT (putList argv)

def quickActionHash (argv : Argv) : Hash :=
  DeriveKey.derive QUICK_ACTION_CONTEXT (putList argv)

/-! The encoding is read back in one way. -/

section
variable {rest rest' : Bytes}

theorem le64_append {n n' : Nat} (fits : n < 2 ^ 64) (fits' : n' < 2 ^ 64)
    (same : le64 n ++ rest = le64 n' ++ rest') : n = n' ∧ rest = rest' := by
  have length : (le64 n).length = (le64 n').length := by simp [le64]
  rcases List.append_inj same length with ⟨spelled, left⟩
  have spelled : bigEndian 8 n = bigEndian 8 n' := List.reverse_injective spelled
  have read := congrArg ofBigEndian spelled
  rw [ofBigEndian_bigEndian, ofBigEndian_bigEndian] at read
  rw [Nat.mod_eq_of_lt (by omega), Nat.mod_eq_of_lt (by omega)] at read
  exact ⟨read, left⟩

theorem putStr_append {text text' : Str}
    (same : putStr text.1 ++ rest = putStr text'.1 ++ rest') : text = text' ∧ rest = rest' := by
  rw [putStr, putStr, List.append_assoc, List.append_assoc] at same
  rcases le64_append text.2 text'.2 same with ⟨length, same⟩
  rcases List.append_inj same length with ⟨spelled, left⟩
  exact ⟨Subtype.ext (utf8_injective spelled), left⟩

theorem putStrs_append {args args' : List Str} (length : args.length = args'.length)
    (same : (args.flatMap fun arg => putStr arg.1) ++ rest =
      (args'.flatMap fun arg => putStr arg.1) ++ rest') : args = args' ∧ rest = rest' := by
  induction args generalizing args' with
  | nil =>
    rw [List.eq_nil_of_length_eq_zero length.symm] at same ⊢
    exact ⟨rfl, same⟩
  | cons arg args induction =>
    cases args' with
    | nil => cases length
    | cons arg' args' =>
      rw [List.flatMap_cons, List.flatMap_cons, List.append_assoc, List.append_assoc] at same
      rcases putStr_append same with ⟨first, others⟩
      rcases induction (Nat.succ.inj length) others with ⟨rest, left⟩
      exact ⟨congrArg₂ List.cons first rest, left⟩

theorem putList_append {argv argv' : Argv}
    (same : putList argv ++ rest = putList argv' ++ rest') : argv = argv' ∧ rest = rest' := by
  rw [putList, putList, List.append_assoc, List.append_assoc] at same
  rcases le64_append argv.2 argv'.2 same with ⟨length, same⟩
  rcases putStrs_append length same with ⟨args, left⟩
  exact ⟨Subtype.ext args, left⟩

theorem putAction_append {action action' : Option Argv}
    (same : putAction action ++ rest = putAction action' ++ rest') :
    action = action' ∧ rest = rest' := by
  cases action with
  | none =>
    cases action' with
    | none => exact ⟨rfl, (List.cons.inj same).2⟩
    | some argv' => exact absurd (List.cons.inj same).1 (by decide)
  | some argv =>
    cases action' with
    | none => exact absurd (List.cons.inj same).1 (by decide)
    | some argv' =>
      rcases putList_append (List.cons.inj same).2 with ⟨rfl, left⟩
      exact ⟨rfl, left⟩

theorem putInterval_append {interval interval' : Option UInt32}
    (same : putInterval interval ++ rest = putInterval interval' ++ rest') :
    interval = interval' ∧ rest = rest' := by
  cases interval with
  | none =>
    cases interval' with
    | none => exact ⟨rfl, (List.cons.inj same).2⟩
    | some ms' => exact absurd (List.cons.inj same).1 (by decide)
  | some ms =>
    cases interval' with
    | none => exact absurd (List.cons.inj same).1 (by decide)
    | some ms' =>
      have fits : ∀ n : UInt32, n.toNat < 2 ^ 64 := fun n =>
        Nat.lt_trans n.toNat_lt (by decide)
      rcases le64_append (fits ms) (fits ms') (List.cons.inj same).2 with ⟨read, left⟩
      exact ⟨congrArg some (UInt32.toNat_inj.mp read), left⟩

end

theorem encodeCommand_inj {kind kind' : Str} {argv argv' : Argv}
    {interval interval' : Option UInt32} {w w' : CustomWidget}
    (same : encodeCommand kind argv interval w = encodeCommand kind' argv' interval' w') :
    kind = kind' ∧ argv = argv' ∧ interval = interval' ∧ w.onClick = w'.onClick ∧
      w.onScrollUp = w'.onScrollUp ∧ w.onScrollDown = w'.onScrollDown := by
  simp only [encodeCommand, List.append_assoc] at same
  rcases putStr_append same with ⟨kinds, same⟩
  rcases putList_append same with ⟨argvs, same⟩
  rcases putInterval_append same with ⟨intervals, same⟩
  rcases putAction_append same with ⟨clicks, same⟩
  rcases putAction_append same with ⟨ups, same⟩
  rw [← List.append_nil (putAction w.onScrollDown),
    ← List.append_nil (putAction w'.onScrollDown)] at same
  exact ⟨kinds, argvs, intervals, clicks, ups, (putAction_append same).1⟩

theorem runs_inj {kind kind' : CustomWidgetKind} {run : Str × Argv × Option UInt32}
    (runs : kind.runs = some run) (runs' : kind'.runs = some run) : kind = kind' := by
  cases kind with
  | exec argv ms =>
    cases runs
    cases kind' with
    | exec argv' ms' =>
      cases runs'
      rfl
    | stream argv' => exact nomatch congrArg (fun run => run.map (·.2.2)) runs'
    | source _ _ => cases runs'
  | stream argv =>
    cases runs
    cases kind' with
    | exec argv' ms' => exact nomatch congrArg (fun run => run.map (·.2.2)) runs'
    | stream argv' =>
      cases runs'
      rfl
    | source _ _ => cases runs'
  | source _ _ => cases runs

theorem hash_inj (free : CollisionFree Hash) {w w' : CustomWidget} {h : Hash}
    (hashed : hash w = some h) (hashed' : hash w' = some h) :
    w.kind = w'.kind ∧ w.onClick = w'.onClick ∧ w.onScrollUp = w'.onScrollUp ∧
      w.onScrollDown = w'.onScrollDown := by
  rcases Option.map_eq_some_iff.mp hashed with ⟨⟨kind, argv, interval⟩, runs, derived⟩
  rcases Option.map_eq_some_iff.mp hashed' with ⟨⟨kind', argv', interval'⟩, runs', derived'⟩
  rcases encodeCommand_inj (free CONTEXT (derived.trans derived'.symm)) with
    ⟨rfl, rfl, rfl, actions⟩
  exact ⟨runs_inj runs runs', actions⟩

theorem putList_inj {argv argv' : Argv} (same : putList argv = putList argv') :
    argv = argv' := by
  rw [← List.append_nil (putList argv), ← List.append_nil (putList argv')] at same
  exact (putList_append same).1

theorem modelCommandHash_inj (free : CollisionFree Hash) {argv argv' : Argv}
    (same : (modelCommandHash argv : Hash) = modelCommandHash argv') : argv = argv' :=
  putList_inj (free MODEL_COMMAND_CONTEXT same)

theorem quickActionHash_inj (free : CollisionFree Hash) {argv argv' : Argv}
    (same : (quickActionHash argv : Hash) = quickActionHash argv') : argv = argv' :=
  putList_inj (free QUICK_ACTION_CONTEXT same)

end EclipseOS.Abyss
